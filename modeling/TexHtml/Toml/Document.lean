import TexHtml.Toml.Item

namespace TexHtml.Toml

/-- What has been read so far. Tables that dotted keys open are closed to headers from the next
header on. -/
structure State where
  table : Entries
  header : Key
  declared : List Key
  frozen : List Key
  pending : List Key

namespace State

def start : State := ⟨[], [], [], [], []⟩

def settle (st : State) : State := { st with declared := st.pending ++ st.declared, pending := [] }

def free (st : State) (key : Key) : State :=
  { st with
    declared := st.declared.filter fun k => !key.isPrefixOf k
    frozen := st.frozen.filter fun k => !key.isPrefixOf k }

end State

def leadingKeys (header key : Key) : List Key :=
  (List.range (key.length - 1)).map fun i => header ++ key.take (i + 1)

def readTableHeader (bound : Nat) (st : State) (s : List Char) :
    Except Failure (State × List Char) := do
  let (key, rest) ← readKey bound (skipBlanks s)
  if st.declared.contains key || isFrozen st.frozen key then fail (.declaredTwice key) rest
  else
    match updateNest true some key st.table with
    | none => fail .overwritesValue rest
    | some table =>
      match rest with
      | ']' :: rest =>
        return ({ st with table, header := key, declared := key :: st.declared }, rest)
      | rest => fail .expectedTableEnd rest

def readArrayHeader (bound : Nat) (st : State) (s : List Char) :
    Except Failure (State × List Char) := do
  let (key, rest) ← readKey bound (skipBlanks s)
  if isFrozen st.frozen key then fail (.immutableNamespace key) rest
  else
    let st := st.free key
    match updateNest true (addTable (key.getLast?.getD "")) key.dropLast st.table with
    | none => fail .overwritesValue rest
    | some table =>
      match rest with
      | ']' :: ']' :: rest =>
        return ({ st with table, header := key, declared := key :: st.declared }, rest)
      | rest => fail .expectedArrayEnd rest

def readEntry (bound : Nat) (st : State) (s : List Char) :
    Except Failure (State × List Char) := do
  let (key, rest) ← readKey bound s
  match rest with
  | '=' :: rest =>
    let (value, rest) ← readValue (2 * bound) (skipBlanks rest)
    let leading := leadingKeys st.header key
    match leading.find? fun k => st.declared.contains k with
    | some k => fail (.redefinedNamespace k) rest
    | none =>
      let parent := st.header ++ key.dropLast
      if isFrozen st.frozen parent then fail (.immutableNamespace parent) rest
      else
        match updateNest true (addEntry (key.getLast?.getD "") value) parent st.table with
        | none => fail .overwritesValue rest
        | some table =>
          let frozen := if isContainer value then (st.header ++ key) :: st.frozen else st.frozen
          return ({ st with table, frozen, pending := leading ++ st.pending }, rest)
  | rest => fail .expectedEquals rest

def readStatement (bound : Nat) (st : State) (s : List Char) :
    Except Failure (State × List Char) :=
  match s with
  | [] => .ok (st, [])
  | '[' :: '[' :: rest => readArrayHeader bound st.settle rest
  | '[' :: rest => readTableHeader bound st.settle rest
  | c :: rest =>
    if isBareKeyChar c || c = '"' || c = '\'' then readEntry bound st (c :: rest)
    else if c = '#' || c = '\n' then .ok (st, c :: rest)
    else fail .invalidStatement (c :: rest)

def readLines : (bound : Nat) → State → List Char → Except Failure Entries
  | 0, st, _ => .ok st.table
  | bound + 1, st, s => do
    let (st, rest) ← readStatement (bound + 1) st (skipBlanks s)
    match ← skipComment (skipBlanks rest) with
    | [] => return st.table
    | '\n' :: rest => readLines bound st rest
    | rest => fail .expectedNewline rest

def unifyLineEnds : List Char → List Char
  | '\r' :: '\n' :: rest => '\n' :: unifyLineEnds rest
  | c :: rest => c :: unifyLineEnds rest
  | [] => []

inductive ReadError where
  | malformed (message : String)
  | overlong (error : DigitError)

def ReadError.ofFailure (source : List Char) (f : Failure) : ReadError :=
  match f.reason with
  | .overlong e => .overlong e
  | _ => .malformed (f.message source)

def read (source : String) : Except ReadError Entries :=
  let s := unifyLineEnds source.toList
  (readLines (s.length + 1) .start s).mapError (.ofFailure s)

end TexHtml.Toml
