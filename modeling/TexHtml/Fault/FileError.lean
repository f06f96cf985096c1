import TexHtml.Text.Quoted

namespace TexHtml

inductive FileErrorKind where
  | notFound
  | permissionDenied
  | alreadyExists
  | notDirectory
  | isDirectory
  | invalidArgument
  | nameTooLong
  deriving DecidableEq

namespace FileErrorKind

def number : FileErrorKind → Nat
  | notFound => 2
  | permissionDenied => 13
  | alreadyExists => 17
  | notDirectory => 20
  | isDirectory => 21
  | invalidArgument => 22
  | nameTooLong => 36

def text : FileErrorKind → String
  | notFound => "No such file or directory"
  | permissionDenied => "Permission denied"
  | alreadyExists => "File exists"
  | notDirectory => "Not a directory"
  | isDirectory => "Is a directory"
  | invalidArgument => "Invalid argument"
  | nameTooLong => "File name too long"

end FileErrorKind

inductive FileError where
  | system (kind : FileErrorKind) (path : Option String)
  | embeddedNull
  deriving DecidableEq

namespace FileError

def message : FileError → String
  | system kind none => s!"[Errno {kind.number}] {kind.text}"
  | system kind (some path) => s!"[Errno {kind.number}] {kind.text}: {Text.quoted path}"
  | embeddedNull => "embedded null byte"

end FileError

inductive CodecError where
  /-- The octets from `start` up to `stop` are no text; `first` is the first of them. -/
  | undecodable (codec : String) (first : UInt8) (start stop : Nat) (reason : String)
  | unencodable (codec : String) (first : Char) (start stop : Nat) (reason : String)
  | noByteOrderMark (codec : String)
  | unknownEncoding (name : String)

namespace CodecError

def message : CodecError → String
  | undecodable codec first start stop reason =>
    let what :=
      if stop = start + 1 then
        "byte 0x" ++ String.ofList (Text.hex 2 first.toNat) ++ s!" in position {start}"
      else s!"bytes in position {start}-{stop - 1}"
    "'" ++ codec ++ "' codec can't decode " ++ what ++ ": " ++ reason
  | unencodable codec first start stop reason =>
    let what :=
      if stop = start + 1 then
        "character '" ++ String.ofList (Text.numericEscape first.toNat) ++
          s!"' in position {start}"
      else s!"characters in position {start}-{stop - 1}"
    "'" ++ codec ++ "' codec can't encode " ++ what ++ ": " ++ reason
  | noByteOrderMark codec => codec ++ " stream does not start with BOM"
  | unknownEncoding name => "unknown encoding: " ++ name

end CodecError

end TexHtml
