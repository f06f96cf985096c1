namespace TexHtml

inductive Delimiter where
  | brace
  | bracket
  deriving DecidableEq

namespace Delimiter

def opening : Delimiter → String
  | brace => "\x7b"
  | bracket => "["

def closing : Delimiter → String
  | brace => "\x7d"
  | bracket => "]"

end Delimiter

inductive TokenKind where
  | command
  | text
  | opener (d : Delimiter)
  | closer (d : Delimiter)
  | newline
  | math (display : Bool)
  | endOfInput
  deriving DecidableEq

/-- Where something stands in a source. Tokens that were not scanned may lack a line or a column. -/
structure Location where
  offset : Int
  line : Option Int
  column : Option Int
  deriving DecidableEq

structure Token where
  kind : TokenKind
  content : String
  location : Location
  deriving DecidableEq

def lineBreakName : String := "\\\\"

end TexHtml
