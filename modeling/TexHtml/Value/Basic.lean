import TexHtml.Node.Basic
import TexHtml.Number.Decimal
import TexHtml.Value.Moment

namespace TexHtml

/-- Entries of a table stand in the order of insertion. Keys may be of any type that is not itself a
list or a table. -/
inductive Value where
  | null
  | bool (b : Bool)
  | int (n : Int)
  | float (x : Double)
  | str (s : String)
  | bytes (octets : List UInt8)
  | list (items : List Value)
  | tuple (items : List Value)
  | table (entries : List (Value × Value))
  | node (n : Node)
  | date (d : Date)
  | time (t : Time)
  | dateTime (m : DateTime)

instance : Inhabited Value := ⟨.null⟩

namespace Value

def typeName : Value → String
  | null => "NoneType"
  | bool _ => "bool"
  | int _ => "int"
  | float _ => "float"
  | str _ => "str"
  | bytes _ => "bytes"
  | list _ => "list"
  | tuple _ => "tuple"
  | table _ => "dict"
  | node n => n.typeName
  | date _ => "datetime.date"
  | time _ => "datetime.time"
  | dateTime _ => "datetime.datetime"

def shortTypeName : Value → String
  | date _ => "date"
  | time _ => "time"
  | dateTime _ => "datetime"
  | v => v.typeName

def truthy : Value → Bool
  | null => false
  | bool b => b
  | int n => n ≠ 0
  | float x => !x.isZero
  | str s => s ≠ ""
  | bytes octets => !octets.isEmpty
  | list items => !items.isEmpty
  | tuple items => !items.isEmpty
  | table entries => !entries.isEmpty
  | _ => true

def str? : Value → Option String
  | str s => some s
  | _ => none

def quotient? : Value → Option (Int × Nat)
  | bool b => some (if b then 1 else 0, 1)
  | int n => some (n, 1)
  | float x => x.quotient?
  | _ => none

mutual

/-- Whether two values are the same key of a table. Numbers are compared by value, so that 1, 1.0
and true are one key; no two nodes and no two lists are. -/
def sameKey : Value → Value → Bool
  | null, null => true
  | str s, str t => s = t
  | bytes a, bytes b => a = b
  | tuple a, tuple b => sameKeys a b
  | date a, date b => a = b
  | time a, time b => a = b
  | dateTime a, dateTime b => a = b
  | float (.infinite a), float (.infinite b) => a = b
  | a, b =>
    match a.quotient?, b.quotient? with
    | some (n, d), some (k, e) => n * e = k * d
    | _, _ => false

def sameKeys : List Value → List Value → Bool
  | [], [] => true
  | a :: as, b :: bs => sameKey a b && sameKeys as bs
  | _, _ => false

end

end Value

abbrev Entries := List (Value × Value)

namespace Entries

def get? (entries : Entries) (key : Value) : Option Value :=
  (entries.find? fun e => e.1.sameKey key).map Prod.snd

def find? (entries : Entries) (key : String) : Option Value := get? entries (.str key)

def insert (entries : Entries) (key value : Value) : Entries :=
  match entries with
  | [] => [(key, value)]
  | (k, v) :: rest =>
    if k.sameKey key then (k, value) :: rest else (k, v) :: insert rest key value

/-- The entries in the order given; of equal keys the first spelling stays with the last value. -/
def ofPairs (pairs : List (Value × Value)) : Entries :=
  pairs.foldl (fun entries e => insert entries e.1 e.2) []

end Entries

end TexHtml
