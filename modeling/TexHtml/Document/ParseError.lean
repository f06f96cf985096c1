import TexHtml.Token.Basic

namespace TexHtml

structure ParseError where
  detail : String
  expected : String
  location : Location
  deriving DecidableEq

namespace ParseError

def unclosed (d : Delimiter) (opener : Token) : ParseError :=
  ⟨"Expected '" ++ d.closing ++ "'", d.closing, opener.location⟩

def tooDeep (limit : Int) (d : Delimiter) (opener : Token) : ParseError :=
  ⟨s!"Nesting deeper than {limit} levels", d.closing, opener.location⟩

/-- A column is shown only behind a line. -/
def place (l : Location) : String :=
  match l.line, l.column with
  | none, _ => s!" (offset {l.offset})"
  | some line, none => s!" at line {line} (offset {l.offset})"
  | some line, some column => s!" at line {line}, column {column} (offset {l.offset})"

def message (e : ParseError) : String := e.detail ++ place e.location

end ParseError

end TexHtml
