import TexHtml.Number.Double

/-!
Decimals. `Double.shortest` finds the decimal with the fewest digits that reads back as a given
number, and of those the nearest; `Double.text` writes it.
-/

namespace TexHtml

structure Decimal where
  digits : Nat
  exponent : Int

namespace Decimal

def stripZeros : Nat → Decimal → Decimal
  | 0, d => d
  | n + 1, d =>
    if d.digits ≠ 0 ∧ d.digits % 10 = 0 then stripZeros n ⟨d.digits / 10, d.exponent + 1⟩ else d

end Decimal

namespace Double

def leadingExponent (num den : Nat) : Int :=
  if den ≤ num then (digitCount (num / den) : Int) - 1
  else
    match (List.range 400).find? fun j => den ≤ num * Nat.pow 10 (j + 1) with
    | some j => -(j + 1 : Int)
    | none => -400

/-- The point of the grid of multiples of `10 ^ p` that lies between `lo / den` and `hi / den` and
is nearest to `v / den`, if one of the two neighbours of `v / den` does. The bounds belong to the
interval if `closed` holds. -/
def gridPoint? (v lo hi den : Nat) (closed : Bool) (p : Int) : Option Decimal :=
  let s := if 0 ≤ p then 1 else Nat.pow 10 (-p).toNat
  let t := if 0 ≤ p then den * Nat.pow 10 p.toNat else den
  let within (x : Nat) : Bool :=
    if closed then lo * s ≤ x * t && x * t ≤ hi * s else lo * s < x * t && x * t < hi * s
  let below := v * s / t
  let above := below + 1
  match within below, within above with
  | false, false => none
  | true, false => some ⟨below, p⟩
  | false, true => some ⟨above, p⟩
  | true, true =>
    let down := v * s - below * t
    let up := above * t - v * s
    if down < up || (down = up && below % 2 = 0) then some ⟨below, p⟩ else some ⟨above, p⟩

def shortest (m : Nat) (q : Int) : Decimal :=
  let scale := q - 2
  let factor := if 0 ≤ scale then Nat.pow 2 scale.toNat else 1
  let den := if 0 ≤ scale then 1 else Nat.pow 2 (-scale).toNat
  let v := 4 * m * factor
  let hi := (4 * m + 2) * factor
  let lo := (if m = Nat.pow 2 52 ∧ leastExponent < q then 4 * m - 1 else 4 * m - 2) * factor
  let e := leadingExponent v den
  match (List.range 17).findSome? fun (n : Nat) => gridPoint? v lo hi den (m % 2 = 0) (e - n) with
  | some d => d.stripZeros 20
  | none => ⟨m, q⟩

structure Layout where
  leastPositional : Int
  endPositional : Int
  exponentWidth : Nat

/-- Positional for exponents from -4 to 15, with at least one digit behind the point; exponents have
a sign and at least two digits. -/
def layout : Layout := ⟨-4, 16, 2⟩

def padLeft (width : Nat) (fill : Char) (s : List Char) : List Char :=
  List.replicate (width - s.length) fill ++ s

def exponentText (l : Layout) (e : Int) : List Char :=
  'e' :: (if e < 0 then '-' else '+') :: padLeft l.exponentWidth '0' (Nat.toDigits 10 e.natAbs)

def decimalText (l : Layout) (d : Decimal) : List Char :=
  let ds := Nat.toDigits 10 d.digits
  let e := (ds.length : Int) + d.exponent - 1
  if l.leastPositional ≤ e ∧ e < l.endPositional then
    if e < 0 then '0' :: '.' :: (List.replicate (-e - 1).toNat '0' ++ ds)
    else if 0 ≤ d.exponent then ds ++ List.replicate d.exponent.toNat '0' ++ ['.', '0']
    else ds.take (e.toNat + 1) ++ '.' :: ds.drop (e.toNat + 1)
  else
    match ds with
    | [] => []
    | first :: [] => first :: exponentText l e
    | first :: more => first :: '.' :: (more ++ exponentText l e)

def text : Double → String
  | .nan => "nan"
  | .infinite negative => if negative then "-inf" else "inf"
  | .finite negative m q =>
    let body := if m = 0 then ['0', '.', '0'] else decimalText layout (shortest m q)
    String.ofList (if negative then '-' :: body else body)

end Double

end TexHtml
