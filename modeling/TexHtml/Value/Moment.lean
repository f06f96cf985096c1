namespace TexHtml

structure Date where
  year : Nat
  month : Nat
  day : Nat
  deriving DecidableEq

structure Time where
  hour : Nat
  minute : Nat
  second : Nat
  microsecond : Nat
  deriving DecidableEq

structure DateTime where
  date : Date
  time : Time
  offset : Option Int
  deriving DecidableEq

def zeroPadded (width n : Nat) : String :=
  let ds := Nat.toDigits 10 n
  String.ofList (List.replicate (width - ds.length) '0' ++ ds)

namespace Date

def text (d : Date) : String :=
  zeroPadded 4 d.year ++ "-" ++ zeroPadded 2 d.month ++ "-" ++ zeroPadded 2 d.day

def expression (d : Date) : String := s!"datetime.date({d.year}, {d.month}, {d.day})"

end Date

namespace Time

/-- Microseconds are written only if there are any, and then with six digits. -/
def text (t : Time) : String :=
  let clock := zeroPadded 2 t.hour ++ ":" ++ zeroPadded 2 t.minute ++ ":" ++ zeroPadded 2 t.second
  if t.microsecond = 0 then clock else clock ++ "." ++ zeroPadded 6 t.microsecond

def fields (t : Time) : List Nat :=
  if t.microsecond ≠ 0 then [t.hour, t.minute, t.second, t.microsecond]
  else if t.second ≠ 0 then [t.hour, t.minute, t.second]
  else [t.hour, t.minute]

def expression (t : Time) : String :=
  "datetime.time(" ++ ", ".intercalate (t.fields.map toString) ++ ")"

end Time

namespace DateTime

def offsetText (minutes : Int) : String :=
  let sign := if minutes < 0 then "-" else "+"
  sign ++ zeroPadded 2 (minutes.natAbs / 60) ++ ":" ++ zeroPadded 2 (minutes.natAbs % 60)

def text (m : DateTime) : String :=
  m.date.text ++ " " ++ m.time.text ++ (m.offset.map offsetText).getD ""

/-- A distance from UTC as the expression that builds it; days are counted down and seconds up. -/
def offsetExpression (minutes : Int) : String :=
  let delta :=
    if minutes < 0 then s!"days=-1, seconds={86400 + minutes * 60}" else s!"seconds={minutes * 60}"
  if minutes = 0 then "datetime.timezone.utc"
  else "datetime.timezone(datetime.timedelta(" ++ delta ++ "))"

def expression (m : DateTime) : String :=
  let numbers := [m.date.year, m.date.month, m.date.day] ++ m.time.fields
  let zone := (m.offset.map fun o => ", tzinfo=" ++ offsetExpression o).getD ""
  "datetime.datetime(" ++ ", ".intercalate (numbers.map toString) ++ zone ++ ")"

end DateTime

end TexHtml
