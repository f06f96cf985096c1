namespace TexHtml

inductive Misuse where
  | lacksMember (typeName member : String)
  | notIterable (typeName : String)
  | notMapping (typeName : String)
  | notSearchable (typeName : String)
  | notHashable (typeName : String)
  | pairNotSequence (index : Nat)
  | pairLength (index length : Nat)
  | notAddable (typeName : String)
  | onlyConcatenates (typeName : String)
  | octetsAndText
  | sequenceIndex (sequence indexType : String)
  | textIndexOfText
  | indexOutOfRange (assigning : Bool)
  | indexOverflow
  | octetsWanted
  | notFormat (typeName : String)
  | octetFormat
  | notPath (typeName : String)
  | octetPath
  | notEncoding (typeName : String)
  | nullInName
  | loggerName
  | keywordType
  | repeatedName (caller name : String)
  | keywordsNotMapping (caller typeName : String)
  | notText
  | emptyResult

namespace Misuse

def message : Misuse → String
  | lacksMember t m => "'" ++ t ++ "' object has no attribute '" ++ m ++ "'"
  | notIterable t => "'" ++ t ++ "' object is not iterable"
  | notMapping t => "'" ++ t ++ "' object is not a mapping"
  | notSearchable t => "argument of type '" ++ t ++ "' is not iterable"
  | notHashable t => "unhashable type: '" ++ t ++ "'"
  | pairNotSequence i => s!"cannot convert dictionary update sequence element #{i} to a sequence"
  | pairLength i n => s!"dictionary update sequence element #{i} has length {n}; 2 is required"
  | notAddable t => "unsupported operand type(s) for +: '" ++ t ++ "' and 'str'"
  | onlyConcatenates t => "can only concatenate " ++ t ++ " (not \"str\") to " ++ t
  | octetsAndText => "can't concat str to bytes"
  | sequenceIndex t i => t ++ " indices must be integers or slices, not " ++ i
  | textIndexOfText => "string indices must be integers, not 'str'"
  | indexOutOfRange assigning =>
    if assigning then "list assignment index out of range" else "list index out of range"
  | indexOverflow => "cannot fit 'int' into an index-sized integer"
  | octetsWanted => "a bytes-like object is required, not 'str'"
  | notFormat t => "expected string or bytes-like object, got '" ++ t ++ "'"
  | octetFormat => "cannot use a string pattern on a bytes-like object"
  | notPath t => "expected str, bytes or os.PathLike object, not " ++ t
  | octetPath =>
    "argument should be a str object or an os.PathLike object returning str, not <class 'bytes'>"
  | notEncoding t => "open() argument 'encoding' must be str or None, not " ++ t
  | nullInName => "embedded null character"
  | loggerName => "A logger name must be a string"
  | keywordType => "keywords must be strings"
  | repeatedName caller name =>
    caller ++ "() got multiple values for argument '" ++ name ++ "'"
  | keywordsNotMapping caller t => caller ++ "() argument after ** must be a mapping, not " ++ t
  | notText => "Input must be a string"
  | emptyResult => "ParseResult holds neither a document nor an error"

end Misuse

end TexHtml
