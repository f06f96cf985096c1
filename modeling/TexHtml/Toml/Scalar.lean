import TexHtml.Toml.Lexeme

namespace TexHtml.Toml

def isDigit (c : Char) : Bool := '0' ≤ c && c ≤ '9'

def number (ds : List Char) : Nat := ds.foldl (fun n c => n * 10 + (c.toNat - 48)) 0

def digitsIn (isDigit : Char → Bool) : List Char → List Char × List Char
  | [] => ([], [])
  | '_' :: c :: rest =>
    if isDigit c then (c :: (digitsIn isDigit rest).1, (digitsIn isDigit rest).2)
    else ([], '_' :: c :: rest)
  | c :: rest =>
    if isDigit c then (c :: (digitsIn isDigit rest).1, (digitsIn isDigit rest).2)
    else ([], c :: rest)

def digits? (isDigit : Char → Bool) (s : List Char) : Option (List Char × List Char) :=
  match s with
  | c :: rest =>
    if isDigit c then some (c :: (digitsIn isDigit rest).1, (digitsIn isDigit rest).2) else none
  | [] => none

def based? (s : List Char) : Option (Nat × List Char) :=
  let read (base : Nat) (isDigit : Char → Bool) (s : List Char) : Option (Nat × List Char) :=
    (digits? isDigit s).map fun p =>
      (p.1.foldl (fun n c => n * base + (Text.hexDigit? c).getD 0) 0, p.2)
  match s with
  | '0' :: 'x' :: rest => read 16 (fun c => (Text.hexDigit? c).isSome) rest
  | '0' :: 'b' :: rest => read 2 (fun c => c = '0' || c = '1') rest
  | '0' :: 'o' :: rest => read 8 (fun c => '0' ≤ c && c ≤ '7') rest
  | _ => none

def wholePart? (s : List Char) : Option (List Char × List Char) :=
  match s with
  | '0' :: rest => some (['0'], rest)
  | s => digits? isDigit s

def fraction? (s : List Char) : Option (List Char × List Char) :=
  match s with
  | '.' :: rest => digits? isDigit rest
  | _ => none

def power? (s : List Char) : Option (Int × List Char) :=
  match s with
  | c :: rest =>
    if c = 'e' || c = 'E' then
      (digits? isDigit (Text.sign rest).2).map fun p =>
        (if (Text.sign rest).1 then -(number p.1 : Int) else number p.1, p.2)
    else none
  | [] => none

def integer (negative : Bool) (ds : List Char) : Except DigitError Value :=
  if digitLimit < ds.length then .error (.reading ds.length)
  else .ok (.int (if negative then -(number ds : Int) else number ds))

/-- A decimal number: whole unless it has a fraction or a power of ten. A whole one can be too long,
which counts only once it is known to be whole. -/
def decimal? (s : List Char) : Option (Except DigitError Value × List Char) :=
  let (negative, body) := Text.sign s
  (wholePart? body).map fun (whole, rest) =>
    let fraction := fraction? rest
    let rest := (fraction.map Prod.snd).getD rest
    let power := power? rest
    let rest := (power.map Prod.snd).getD rest
    if fraction.isNone && power.isNone then
      (integer negative whole, rest)
    else
      let places := (fraction.map Prod.fst).getD []
      let exponent := (power.map Prod.fst).getD 0
      let digits := number (whole ++ places)
      (.ok (.float (.ofDecimal negative digits (exponent - places.length))), rest)

def number? (s : List Char) : Option (Except DigitError Value × List Char) :=
  match based? s with
  | some (n, rest) => some (.ok (.int n), rest)
  | none => decimal? s

def special? (s : List Char) : Option (Value × List Char) :=
  let (negative, body) := Text.sign s
  match body with
  | 'i' :: 'n' :: 'f' :: rest => some (.float (.infinite negative), rest)
  | 'n' :: 'a' :: 'n' :: rest => some (.float .nan, rest)
  | _ => none

def fixed? (width low high : Nat) (s : List Char) : Option (Nat × List Char) :=
  let ds := s.take width
  if ds.length = width && ds.all isDigit && low ≤ number ds && number ds ≤ high then
    some (number ds, s.drop width)
  else none

/-- The fraction of a second in microseconds; digits behind the sixth are dropped. -/
def microseconds (s : List Char) : Nat × List Char :=
  match s with
  | '.' :: rest =>
    match rest.takeWhile isDigit with
    | [] => (0, s)
    | ds => (number ((ds ++ List.replicate 6 '0').take 6), rest.dropWhile isDigit)
  | s => (0, s)

def time? (s : List Char) : Option (Time × List Char) := do
  let (hour, s) ← fixed? 2 0 23 s
  let s ← Text.expect? ':' s
  let (minute, s) ← fixed? 2 0 59 s
  let s ← Text.expect? ':' s
  let (second, s) ← fixed? 2 0 59 s
  let (micro, s) := microseconds s
  return (⟨hour, minute, second, micro⟩, s)

def date? (s : List Char) : Option (Date × List Char) := do
  let (year, s) ← fixed? 4 0 9999 s
  let s ← Text.expect? '-' s
  let (month, s) ← fixed? 2 1 12 s
  let s ← Text.expect? '-' s
  let (day, s) ← fixed? 2 1 31 s
  return (⟨year, month, day⟩, s)

def offset? (s : List Char) : Option (Int × List Char) :=
  match s with
  | c :: rest =>
    if c = 'Z' || c = 'z' then some (0, rest)
    else if c = '+' || c = '-' then do
      let (hours, s) ← fixed? 2 0 23 rest
      let s ← Text.expect? ':' s
      let (minutes, s) ← fixed? 2 0 59 s
      let distance : Int := hours * 60 + minutes
      return (if c = '-' then -distance else distance, s)
    else none
  | [] => none

def isLeapYear (y : Nat) : Bool := y % 4 = 0 && (y % 100 ≠ 0 || y % 400 = 0)

def daysInMonth (y m : Nat) : Nat :=
  if m = 2 then if isLeapYear y then 29 else 28
  else if m = 4 || m = 6 || m = 9 || m = 11 then 30
  else 31

def isCalendarDate (d : Date) : Bool := 1 ≤ d.year && d.day ≤ daysInMonth d.year d.month

def moment? (s : List Char) : Option (Date × Value × List Char) := do
  let (date, rest) ← date? s
  let clock : Option (Time × List Char) :=
    match rest with
    | c :: behind => if c = 'T' || c = 't' || c = ' ' then time? behind else none
    | [] => none
  match clock with
  | none => return (date, .date date, rest)
  | some (time, rest) =>
    match offset? rest with
    | none => return (date, .dateTime ⟨date, time, none⟩, rest)
    | some (distance, rest) => return (date, .dateTime ⟨date, time, some distance⟩, rest)

def readScalar (s : List Char) : Except Failure (Value × List Char) :=
  match moment? s with
  | some (date, v, rest) => if isCalendarDate date then .ok (v, rest) else fail .invalidDate s
  | none =>
    match time? s with
    | some (t, rest) => .ok (.time t, rest)
    | none =>
      match number? s with
      | some (.ok v, rest) => .ok (v, rest)
      | some (.error e, rest) => fail (.overlong e) rest
      | none =>
        match special? s with
        | some (v, rest) => .ok (v, rest)
        | none => fail .invalidValue s

end TexHtml.Toml
