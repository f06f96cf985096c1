import TexHtml.Number.Decimal

namespace TexHtml.Places

/-- Digits with a point in front of the last `places` of them. A point with nothing behind it is
written only if `pointed` holds. -/
def pointAt (places : Nat) (pointed : Bool) (ds : List Char) : List Char :=
  let ds := Double.padLeft (places + 1) '0' ds
  let whole := ds.take (ds.length - places)
  if places = 0 then if pointed then whole ++ ['.'] else whole
  else whole ++ '.' :: ds.drop (ds.length - places)

def fixed (places : Nat) (pointed : Bool) (num den : Nat) : List Char :=
  pointAt places pointed (Nat.toDigits 10 (Double.roundDiv (num * Nat.pow 10 places) den))

def leadingDigits (places : Nat) (num den : Nat) : Nat × Int :=
  if num = 0 then (0, 0)
  else
    let e := Double.leadingExponent num den
    let shift := (places : Int) - e
    let n :=
      if 0 ≤ shift then Double.roundDiv (num * Nat.pow 10 shift.toNat) den
      else Double.roundDiv num (den * Nat.pow 10 (-shift).toNat)
    if n = Nat.pow 10 (places + 1) then (Nat.pow 10 places, e + 1) else (n, e)

def trimZeros (ds : List Char) : List Char :=
  if ds.contains '.' then
    let back := ds.reverse.dropWhile (· = '0')
    (if back.head? = some '.' then back.drop 1 else back).reverse
  else ds

def scientific (places : Nat) (pointed trimmed : Bool) (num den : Nat) : List Char :=
  let (n, e) := leadingDigits places num den
  let mantissa := pointAt places pointed (Nat.toDigits 10 n)
  (if trimmed then trimZeros mantissa else mantissa) ++ Double.exponentText Double.layout e

/-- `num / den` with `digits` digits in all, without zeros at the end unless `pointed` holds.
Scientific notation is used below 0.0001 and where the digits do not reach the point. -/
def general (digits : Nat) (pointed : Bool) (num den : Nat) : List Char :=
  let digits := max digits 1
  let e := (leadingDigits (digits - 1) num den).2
  if -4 ≤ e ∧ e < digits then
    let text := fixed (digits - 1 - e).toNat pointed num den
    if pointed then text else trimZeros text
  else scientific (digits - 1) pointed (!pointed) num den

end TexHtml.Places
