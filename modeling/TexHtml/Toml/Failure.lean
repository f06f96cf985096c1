import TexHtml.Number.Integer
import TexHtml.Value.Text

namespace TexHtml.Toml

abbrev Key := List String

inductive Reason where
  | invalidStatement
  | expectedNewline
  | declaredTwice (key : Key)
  | immutableNamespace (key : Key)
  | redefinedNamespace (key : Key)
  | overwritesValue
  | expectedTableEnd
  | expectedArrayEnd
  | expectedEquals
  | invalidKeyStart
  | unclosedArray
  | unclosedInlineTable
  | duplicateKey (part : String)
  | badEscape
  | invalidHex
  | notScalar
  | unterminatedString
  | illegalCharacter (c : Char)
  | invalidCharacter (c : Char)
  | expectedText (text : String)
  | invalidDate
  | invalidValue
  | overlong (error : DigitError)

def keyText (key : Key) : String := Value.bracketed "(" ")" true (key.map Text.quoted)

namespace Reason

def message : Reason → String
  | invalidStatement => "Invalid statement"
  | expectedNewline => "Expected newline or end of document after a statement"
  | declaredTwice key => "Cannot declare " ++ keyText key ++ " twice"
  | immutableNamespace key => "Cannot mutate immutable namespace " ++ keyText key
  | redefinedNamespace key => "Cannot redefine namespace " ++ keyText key
  | overwritesValue => "Cannot overwrite a value"
  | expectedTableEnd => "Expected ']' at the end of a table declaration"
  | expectedArrayEnd => "Expected ']]' at the end of an array declaration"
  | expectedEquals => "Expected '=' after a key in a key/value pair"
  | invalidKeyStart => "Invalid initial character for a key part"
  | unclosedArray => "Unclosed array"
  | unclosedInlineTable => "Unclosed inline table"
  | duplicateKey part => "Duplicate inline table key " ++ Text.quoted part
  | badEscape => "Unescaped '\\' in a string"
  | invalidHex => "Invalid hex value"
  | notScalar => "Escaped character is not a Unicode scalar value"
  | unterminatedString => "Unterminated string"
  | illegalCharacter c => "Illegal character " ++ Text.quoted (String.ofList [c])
  | invalidCharacter c => "Found invalid character " ++ Text.quoted (String.ofList [c])
  | expectedText text => "Expected " ++ Text.quoted text
  | invalidDate => "Invalid date or datetime"
  | invalidValue => "Invalid value"
  | overlong error => error.message

end Reason

structure Failure where
  reason : Reason
  left : Nat

namespace Failure

def place (source : List Char) (left : Nat) : String :=
  let before := source.take (source.length - left)
  if left = 0 then "end of document"
  else
    let line := before.count '\n' + 1
    let column := (before.reverse.takeWhile (· != '\n')).length + 1
    s!"line {line}, column {column}"

def message (f : Failure) (source : List Char) : String :=
  f.reason.message ++ " (at " ++ place source f.left ++ ")"

end Failure

def fail {α : Type} (reason : Reason) (rest : List Char) : Except Failure α :=
  .error ⟨reason, rest.length⟩

end TexHtml.Toml
