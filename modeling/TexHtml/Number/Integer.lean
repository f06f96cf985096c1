import TexHtml.Text.CharClass

/-!
Whole numbers. There is a limit on their digits when they are read or written in decimal; other
bases have none. Those that count something or are the position of something have 64 bits with a
sign. Text is read with digits of any script, single underscores between them, a sign in front, and
blanks around it all.
-/

namespace TexHtml.Text

def hexDigit? (c : Char) : Option Nat :=
  if '0' ≤ c && c ≤ '9' then some (c.toNat - 48)
  else if 'a' ≤ c && c ≤ 'f' then some (c.toNat - 87)
  else if 'A' ≤ c && c ≤ 'F' then some (c.toNat - 55)
  else none

def hexNumber? (ds : List Char) : Option Nat :=
  ds.foldl (fun n? c => n?.bind fun n => (hexDigit? c).map fun d => n * 16 + d) (some 0)

def sign (s : List Char) : Bool × List Char :=
  match s with
  | '-' :: rest => (true, rest)
  | '+' :: rest => (false, rest)
  | s => (false, s)

def expect? (c : Char) (s : List Char) : Option (List Char) :=
  match s with
  | d :: rest => if d = c then some rest else none
  | [] => none

end TexHtml.Text

namespace TexHtml

def digitLimit : Nat := 4300

inductive DigitError where
  | reading (digits : Nat)
  | writing
  deriving DecidableEq

namespace DigitError

def message (e : DigitError) : String :=
  let found :=
    match e with
    | reading digits => s!": value has {digits} digits"
    | writing => ""
  s!"Exceeds the limit ({digitLimit} digits) for integer string conversion" ++ found ++
    "; use sys.set_int_max_str_digits() to increase the limit"

end DigitError

def integerText (n : Int) : Except DigitError String :=
  if n.natAbs < Nat.pow 10 digitLimit then .ok (toString n) else .error .writing

def indexBound : Nat := Nat.pow 2 63

def isIndex (n : Int) : Bool := -(indexBound : Int) ≤ n && n < indexBound

def digitValues? : List Char → Option (List Nat)
  | [] => none
  | [c] => (Text.digitValue? c).map ([·])
  | c :: '_' :: rest => do return (← Text.digitValue? c) :: (← digitValues? rest)
  | c :: rest => do return (← Text.digitValue? c) :: (← digitValues? rest)

/-- The information separators are no blanks around a number. -/
def isNumberMargin (c : Char) : Bool := Text.isBlank c && !(28 ≤ c.toNat && c.toNat ≤ 31)

def readInteger? (s : String) : Option Int :=
  let (negative, body) := Text.sign (Text.trim isNumberMargin s.toList)
  match digitValues? body with
  | none => none
  | some ds =>
    let n : Nat := ds.foldl (fun n d => n * 10 + d) 0
    if digitLimit < ds.length then none else some (if negative then -(n : Int) else n)

end TexHtml
