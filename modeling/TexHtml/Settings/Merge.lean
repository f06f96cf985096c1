import TexHtml.Fault.Misuse
import TexHtml.Number.Integer
import TexHtml.Value.Basic

namespace TexHtml.Settings

mutual

/-- The entries of `base` with new ones laid over them. Keys of `base` keep their places. -/
def merge (base : List (Value × Value)) : List (Value × Value) → List (Value × Value)
  | [] => base
  | (key, value) :: rest =>
    merge (Entries.insert base key (overlay (Entries.get? base key) value)) rest

def overlay (old : Option Value) : Value → Value
  | .table new =>
    match old with
    | some (.table entries) => .table (merge entries new)
    | _ => .table new
  | v => v

end

def listIndex (length : Nat) (assigning : Bool) (key : Value) : Except Misuse Nat :=
  let position (n : Int) : Except Misuse Nat :=
    let i := if n < 0 then n + length else n
    if !isIndex n then .error .indexOverflow
    else if 0 ≤ i ∧ i < length then .ok i.toNat
    else .error (.indexOutOfRange assigning)
  match key with
  | .int n => position n
  | .bool b => position (if b then 1 else 0)
  | key => .error (.sequenceIndex "list" key.typeName)

/-- Lays entries over a list: each key is a position. A key that equals an item is looked up first.
-/
def mergeIntoList : (items : List Value) → List (Value × Value) → Except Misuse (List Value)
  | items, [] => .ok items
  | items, (key, value) :: rest => do
    let old ←
      if items.any fun item => item.sameKey key then
        let i ← listIndex items.length false key
        pure items[i]?
      else pure none
    let i ← listIndex items.length true key
    mergeIntoList (items.set i (overlay old value)) rest

def mergeValues (base new : Value) : Except Misuse Value :=
  let withEntries (f : List (Value × Value) → Except Misuse Value) : Except Misuse Value :=
    match new with
    | .table entries => f entries
    | v => .error (.lacksMember v.typeName "items")
  match base with
  | .table entries => withEntries fun new => .ok (.table (merge entries new))
  | .list items => withEntries fun new => (mergeIntoList items new).map .list
  | v => .error (.lacksMember v.typeName "copy")

end TexHtml.Settings
