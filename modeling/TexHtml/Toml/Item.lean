import TexHtml.Toml.Scalar

namespace TexHtml.Toml

def updateNest (throughArrays : Bool) (change : Entries → Option Entries) :
    Key → Entries → Option Entries
  | [], table => change table
  | part :: key, table =>
    match table.find? part with
    | none =>
      (updateNest throughArrays change key []).map fun inner =>
        table.insert (.str part) (.table inner)
    | some (.table inner) =>
      (updateNest throughArrays change key inner).map fun inner =>
        table.insert (.str part) (.table inner)
    | some (.list items) =>
      match throughArrays, items.getLast? with
      | true, some (.table inner) =>
        (updateNest throughArrays change key inner).map fun inner =>
          table.insert (.str part) (.list (items.dropLast ++ [.table inner]))
      | _, _ => none
    | some _ => none

def addEntry (part : String) (value : Value) (table : Entries) : Option Entries :=
  match table.find? part with
  | some _ => none
  | none => some (table.insert (.str part) value)

def addTable (part : String) (table : Entries) : Option Entries :=
  match table.find? part with
  | none => some (table.insert (.str part) (.list [.table []]))
  | some (.list items) => some (table.insert (.str part) (.list (items ++ [.table []])))
  | some _ => none

def isFrozen (frozen : List Key) (key : Key) : Bool :=
  !key.isEmpty && frozen.any fun f => f.isPrefixOf key

def isContainer : Value → Bool
  | .table _ => true
  | .list _ => true
  | _ => false

mutual

/-- The value that the text begins with; `depth` is more than twice the length of the text, since no
character takes more than two nested steps. -/
def readValue : (depth : Nat) → List Char → Except Failure (Value × List Char)
  | 0, s => fail .invalidValue s
  | depth + 1, s =>
    match readString? (depth + 1) s with
    | some (.ok (text, rest)) => .ok (.str (String.ofList text), rest)
    | some (.error e) => .error e
    | none =>
      match s with
      | 't' :: 'r' :: 'u' :: 'e' :: rest => .ok (.bool true, rest)
      | 'f' :: 'a' :: 'l' :: 's' :: 'e' :: rest => .ok (.bool false, rest)
      | '[' :: rest => do
        let rest ← skipFiller depth rest
        let (items, rest) ← readItems depth rest
        return (.list items, rest)
      | '{' :: rest =>
        match skipBlanks rest with
        | '}' :: rest => .ok (.table [], rest)
        | rest => do
          let (table, rest) ← readEntries depth [] [] rest
          return (.table table, rest)
      | s => readScalar s

def readItems : (depth : Nat) → List Char → Except Failure (List Value × List Char)
  | 0, s => fail .unclosedArray s
  | depth + 1, s =>
    match s with
    | ']' :: rest => .ok ([], rest)
    | s => do
      let (item, rest) ← readValue depth s
      match ← skipFiller depth rest with
      | ']' :: rest => return ([item], rest)
      | ',' :: rest =>
        let rest ← skipFiller depth rest
        let (items, rest) ← readItems depth rest
        return (item :: items, rest)
      | rest => fail .unclosedArray rest

def readEntries : (depth : Nat) → (frozen : List Key) → (table : Entries) → List Char →
    Except Failure (Entries × List Char)
  | 0, _, _, s => fail .unclosedInlineTable s
  | depth + 1, frozen, table, s => do
    let (key, rest) ← readKey depth s
    match rest with
    | '=' :: rest =>
      let (value, rest) ← readValue depth (skipBlanks rest)
      if isFrozen frozen key then fail (.immutableNamespace key) rest
      else
        let part := key.getLast?.getD ""
        match updateNest false some key.dropLast table with
        | none => fail .overwritesValue rest
        | some _ =>
          match updateNest false (addEntry part value) key.dropLast table with
          | none => fail (.duplicateKey part) rest
          | some table =>
            match skipBlanks rest with
            | '}' :: rest => return (table, rest)
            | ',' :: rest =>
              let frozen := if isContainer value then key :: frozen else frozen
              readEntries depth frozen table (skipBlanks rest)
            | rest => fail .unclosedInlineTable rest
    | rest => fail .expectedEquals rest

end

end TexHtml.Toml
