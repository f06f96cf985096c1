import TexHtml.Html.Options

namespace TexHtml.Compiler

def items? : Value → Option (List Value)
  | .list items => some items
  | .tuple items => some items
  | .str s => some (s.toList.map fun c => .str (String.ofList [c]))
  | .bytes octets => some (octets.map fun b => .int b.toNat)
  | .table entries => some (entries.map Prod.fst)
  | _ => none

mutual

def unhashable? : Value → Option String
  | .list _ => some "list"
  | .table _ => some "dict"
  | .tuple items => unhashableAmong? items
  | _ => none

def unhashableAmong? : List Value → Option String
  | [] => none
  | v :: rest => unhashable? v <|> unhashableAmong? rest

end

def entriesOfPairs (index : Nat) (entries : Entries) : List Value → Except Misuse Entries
  | [] => .ok entries
  | pair :: rest =>
    match items? pair with
    | none => .error (.pairNotSequence index)
    | some [key, value] =>
      match unhashable? key with
      | some t => .error (.notHashable t)
      | none => entriesOfPairs (index + 1) (entries.insert key value) rest
    | some parts => .error (.pairLength index parts.length)

def entriesOf (v : Value) : Except Misuse Entries :=
  match v with
  | .table entries => .ok entries
  | v =>
    match items? v with
    | none => .error (.notIterable v.typeName)
    | some pairs => entriesOfPairs 0 [] pairs

def directKeys : List String := ["inject_math_script", "math_script", "escape_html"]

/-- The options in a value. Direct settings win over those under `html_options`. -/
def readOptions (v : Value) : Except Misuse Html.Options :=
  let given : Except Misuse Entries :=
    if !v.truthy then .ok []
    else
      match v with
      | .table entries => .ok entries
      | v => .error (.lacksMember v.typeName "get")
  match given with
  | .error e => .error e
  | .ok given =>
    match entriesOf ((given.find? "html_options").getD (.table [])) with
    | .error e => .error e
    | .ok extra =>
      .ok (.ofEntries (directKeys.foldl
        (fun entries key =>
          match given.find? key with
          | some value => entries.insert (.str key) value
          | none => entries)
        extra))

end TexHtml.Compiler
