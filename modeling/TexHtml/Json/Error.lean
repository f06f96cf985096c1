import TexHtml.Fault.Misuse
import TexHtml.Number.Integer

namespace TexHtml.Json

inductive Error where
  | unordered (left right : String)
  | keyType (typeName : String)
  | notWritable (typeName : String)
  /-- A number that JSON does not have, shown only when lines are indented. -/
  | outOfRange (number : Option String)
  | overlong (error : DigitError)
  | unknownOption (name : String)
  | indentType (typeName : String)
  | indentOverflow
  | indentTooLong
  | notCallable (typeName : String)
  | separatorCount (expected : Nat) (given : Option Nat)
  | separatorsType (typeName : String)
  /-- A separator is no text; `place` is its number among the parts of a style. -/
  | separatorType (place : Nat) (typeName : String)
  | pieceType (index : Nat) (typeName : String)
  | misused (error : Misuse)

namespace Error

def message : Error → String
  | unordered left right =>
    "'<' not supported between instances of '" ++ left ++ "' and '" ++ right ++ "'"
  | keyType t => "keys must be str, int, float, bool or None, not " ++ t
  | notWritable t => "Object of type " ++ t ++ " is not JSON serializable"
  | outOfRange none => "Out of range float values are not JSON compliant"
  | outOfRange (some n) => "Out of range float values are not JSON compliant: " ++ n
  | overlong error => error.message
  | unknownOption name =>
    "JSONEncoder.__init__() got an unexpected keyword argument '" ++ name ++ "'"
  | indentType t => "can't multiply sequence by non-int of type '" ++ t ++ "'"
  | indentOverflow => "cannot fit 'int' into an index-sized integer"
  | indentTooLong => ""
  | notCallable t => "'" ++ t ++ "' object is not callable"
  | separatorCount expected none => s!"too many values to unpack (expected {expected})"
  | separatorCount expected (some given) =>
    s!"not enough values to unpack (expected {expected}, got {given})"
  | separatorsType t => "cannot unpack non-iterable " ++ t ++ " object"
  | separatorType place t => s!"make_encoder() argument {place} must be str, not {t}"
  | pieceType index t => s!"sequence item {index}: expected str instance, {t} found"
  | misused error => error.message

end Error

end TexHtml.Json
