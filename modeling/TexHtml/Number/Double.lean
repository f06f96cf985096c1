/-!
Numbers of the IEEE 754 format binary64, given by sign, significand and exponent. A decimal is read
as the nearest of them, a tie going to the even significand.
-/

namespace TexHtml

/-- A finite number is `significand * 2 ^ exponent` with its sign; zero has a sign too. -/
inductive Double where
  | nan
  | infinite (negative : Bool)
  | finite (negative : Bool) (significand : Nat) (exponent : Int)
  deriving DecidableEq

namespace Double

/-- The quotient rounded to the nearest whole number, a tie going to the even one. -/
def roundDiv (num den : Nat) : Nat :=
  let q := num / den
  let r := num % den
  if 2 * r < den then q
  else if den < 2 * r then q + 1
  else if q % 2 = 0 then q else q + 1

def scaledQuotient (num den : Nat) (q : Int) : Nat :=
  if 0 ≤ q then roundDiv num (den * Nat.pow 2 q.toNat)
  else roundDiv (num * Nat.pow 2 (-q).toNat) den

def leastExponent : Int := -1074

def exponentFor (num den : Nat) : Int :=
  let guess : Int := (Nat.log2 num : Int) - Nat.log2 den - 52
  -- the guess is right or one too large
  let low := guess - 1
  let fits : Bool :=
    if 0 ≤ low then num < den * Nat.pow 2 (low.toNat + 53)
    else num * Nat.pow 2 (-low).toNat < den * Nat.pow 2 53
  max (if fits then low else guess) leastExponent

def ofQuotient (negative : Bool) (num den : Nat) : Double :=
  if num = 0 then .finite negative 0 leastExponent
  else
    let q := exponentFor num den
    let m := scaledQuotient num den q
    let (m, q) := if m = Nat.pow 2 53 then (Nat.pow 2 52, q + 1) else (m, q)
    if 971 < q then .infinite negative else .finite negative m q

def digitCount (n : Nat) : Nat := (Nat.toDigits 10 n).length

/-- The number nearest to `n * 10 ^ e`. Far outside the range of the format no power is computed. -/
def ofDecimal (negative : Bool) (n : Nat) (e : Int) : Double :=
  if n = 0 then .finite negative 0 leastExponent
  else if 400 < digitCount n + e then .infinite negative
  else if digitCount n + e < -400 then .finite negative 0 leastExponent
  else if 0 ≤ e then ofQuotient negative (n * Nat.pow 10 e.toNat) 1
  else ofQuotient negative n (Nat.pow 10 (-e).toNat)

def ofInt (n : Int) : Double := ofQuotient (n < 0) n.natAbs 1

def isZero : Double → Bool
  | .finite _ m _ => m = 0
  | _ => false

def quotient? : Double → Option (Int × Nat)
  | .finite negative m q =>
    let n : Nat := if 0 ≤ q then m * Nat.pow 2 q.toNat else m
    let d : Nat := if 0 ≤ q then 1 else Nat.pow 2 (-q).toNat
    some (if negative then -(n : Int) else n, d)
  | _ => none

end Double

end TexHtml
