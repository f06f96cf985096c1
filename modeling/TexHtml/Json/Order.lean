import TexHtml.Json.Error
import TexHtml.Sorting.Basic
import TexHtml.Value.Basic

/-!
The order of the keys of a table. Keys that are all text are sorted by code points. For other keys
the first comparison of two that have no order is an error.
-/

namespace TexHtml.Json

inductive Extended where
  | below
  | between (num : Int) (den : Nat)
  | above

def extended? : Value → Option Extended
  | .float (.infinite true) => some .below
  | .float (.infinite false) => some .above
  | v => v.quotient?.map fun q => .between q.1 q.2

def Extended.less : Extended → Extended → Bool
  | below, below => false
  | below, _ => true
  | between _ _, below => false
  | between a b, between c d => a * d < c * b
  | between _ _, above => true
  | above, _ => false

def isNumber : Value → Bool
  | .bool _ => true
  | .int _ => true
  | .float _ => true
  | _ => false

mutual

def less : Value → Value → Except Error Bool
  | .str s, .str t => .ok (s < t)
  | .bytes a, .bytes b => .ok (a < b)
  | .tuple a, .tuple b => lessItems a b
  | a, b =>
    if isNumber a && isNumber b then
      match extended? a, extended? b with
      | some x, some y => .ok (x.less y)
      | _, _ => .ok false
    else .error (.unordered a.typeName b.typeName)

def lessItems : List Value → List Value → Except Error Bool
  | _, [] => .ok false
  | [], _ :: _ => .ok true
  | a :: as, b :: bs => if a.sameKey b then lessItems as bs else less a b

end

variable {α : Type}

def textKeyLE (a b : Value × α) : Bool :=
  match a.1.str?, b.1.str? with
  | some s, some t => !(t < s : Bool)
  | _, _ => true

def sortEntries (entries : List (Value × α)) : Except Error (List (Value × α)) :=
  if entries.all fun e => e.1.str?.isSome then .ok (entries.mergeSort textKeyLE)
  else Sorting.sort (fun a b => less a.1 b.1) entries

end TexHtml.Json
