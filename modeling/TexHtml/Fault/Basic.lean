import TexHtml.Document.ParseError
import TexHtml.Fault.FileError
import TexHtml.Fault.Misuse
import TexHtml.Json.Error
import TexHtml.Number.Integer

namespace TexHtml

inductive Fault where
  | parse (error : ParseError)
  | misuse (error : Misuse)
  | file (error : FileError)
  | codec (error : CodecError)
  | json (error : Json.Error)
  | digits (error : DigitError)
  | invalidFormat (format : String)
  | exit (code : Nat)

namespace Fault

def message : Fault → String
  | parse error => error.message
  | misuse error => error.message
  | file error => error.message
  | codec error => error.message
  | json error => error.message
  | digits error => error.message
  | invalidFormat format => "Invalid format '" ++ format ++ "' for '%' style"
  | exit code => toString code

end Fault

end TexHtml
