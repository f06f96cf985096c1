import TexHtml.Text.Printable

/-!
Quoted text, as it is shown in messages: single quotes unless only double ones avoid an escape, and
escapes for the quote, the backslash and all that cannot be printed.
-/

namespace TexHtml.Text

def hexDigit (n : Nat) : Char :=
  if n < 10 then Char.ofNat (48 + n) else Char.ofNat (87 + n)

def hex : (width : Nat) → (n : Nat) → List Char
  | 0, _ => []
  | width + 1, n => hex width (n / 16) ++ [hexDigit (n % 16)]

def numericEscape (n : Nat) : List Char :=
  if n < 256 then '\\' :: 'x' :: hex 2 n
  else if n < 65536 then '\\' :: 'u' :: hex 4 n
  else '\\' :: 'U' :: hex 8 n

/-- The quotation mark for a text: a double one only if the text has single ones and no double. -/
def quoteMark (s : List Char) : Char :=
  if s.contains '\'' && !s.contains '"' then '"' else '\''

def quoteChar (plain : Char → Bool) (q c : Char) : List Char :=
  if c = q || c = '\\' then ['\\', c]
  else if c = '\n' then ['\\', 'n']
  else if c = '\r' then ['\\', 'r']
  else if c = '\t' then ['\\', 't']
  else if plain c then [c]
  else numericEscape c.toNat

def quoteWith (plain : Char → Bool) (s : List Char) : List Char :=
  let q := quoteMark s
  q :: (s.flatMap (quoteChar plain q) ++ [q])

def quoted (s : String) : String := String.ofList (quoteWith isPrintable s.toList)

def isPrintableAscii (c : Char) : Bool := 32 ≤ c.toNat && c.toNat < 127

def quotedAscii (s : String) : String := String.ofList (quoteWith isPrintableAscii s.toList)

def quotedBytes (bs : List UInt8) : String :=
  String.ofList ('b' :: quoteWith isPrintableAscii (bs.map fun b => Char.ofNat b.toNat))

end TexHtml.Text
