import TexHtml.Fault.Misuse
import TexHtml.Value.Basic

/-!
Looking into a value whose type is not known: whether it holds a text key and what stands there.
Only a table does well on both, but other types fail in different ways. So do values that text is
added to.
-/

namespace TexHtml.Value

def occursIn (word : List Char) : List Char → Bool
  | [] => word.isEmpty
  | c :: rest => word.isPrefixOf (c :: rest) || occursIn word rest

/-- A table holds its keys, a sequence its items, and a text every part of it. -/
def holds (v : Value) (key : String) : Except Misuse Bool :=
  match v with
  | .table entries => .ok (Entries.find? entries key).isSome
  | .str s => .ok (occursIn key.toList s.toList)
  | .list items => .ok (items.any fun item => item.sameKey (.str key))
  | .tuple items => .ok (items.any fun item => item.sameKey (.str key))
  | .bytes _ => .error .octetsWanted
  | v => .error (.notSearchable v.typeName)

def item (v : Value) (key : String) : Except Misuse Value :=
  match v with
  | .table entries => .ok ((Entries.find? entries key).getD .null)
  | .str _ => .error .textIndexOfText
  | v => .error (.sequenceIndex v.typeName "str")

def lookup (v : Value) (key : String) (default : Value) : Except Misuse Value :=
  match v with
  | .table entries => .ok ((Entries.find? entries key).getD default)
  | v => .error (.lacksMember v.typeName "get")

def additionFault : Value → Misuse
  | .list _ => .onlyConcatenates "list"
  | .tuple _ => .onlyConcatenates "tuple"
  | .bytes _ => .octetsAndText
  | v => .notAddable v.typeName

end TexHtml.Value
