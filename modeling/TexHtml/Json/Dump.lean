import TexHtml.Json.Pieces
import TexHtml.Json.Write
import TexHtml.Number.Integer
import TexHtml.Value.Access
import TexHtml.Value.Named

/-!
JSON text with the conventions of this library: keys sorted, characters outside ASCII written as
they are, values without a JSON form written as text, and no blanks unless lines are indented. A
table of options can change each of these.
-/

namespace TexHtml.Json

def compactStyle : Style := ⟨none, ",", ":", false, true, false, true, .asText⟩

def indentedStyle (indent : String) : Style :=
  ⟨some indent, ",", ": ", false, true, false, true, .asText⟩

def optionNames : List String :=
  ["compact", "skipkeys", "ensure_ascii", "check_circular", "allow_nan", "cls", "indent",
   "separators", "default", "sort_keys"]

def checkKnown (names : List String) : Except Error Unit :=
  match names.find? fun name => !optionNames.contains name with
  | none => .ok ()
  | some "self" => .error (.misused (.repeatedName "JSONEncoder.__init__" "self"))
  | some name => .error (.unknownOption name)

def checkOptions (compact : Option Value) (options : Entries) : Except Error Unit :=
  let taken := if compact.isSome then ["data", "compact"] else ["data"]
  let named := do
    options.checkNames "jsonDumps" taken
    options.checkNames "dumps" ["obj"]
    options.names
  match named, (options.find? "cls").getD .null with
  | .error e, _ => .error (.misused e)
  | .ok names, .null => checkKnown names
  | .ok _, v => .error (.notCallable v.typeName)

/-- A count of blanks or the indentation itself. There is room for `capacity` blanks. -/
def readIndent (capacity : Nat) : Value → Except Error (Option String)
  | .null => .ok none
  | .str s => .ok (some s)
  | .int n =>
    if !isIndex n then .error .indentOverflow
    else if capacity < n.toNat then .error .indentTooLong
    else .ok (some (String.ofList (List.replicate n.toNat ' ')))
  | .bool b => .ok (some (if b then " " else ""))
  | v => .error (.indentType v.typeName)

structure Separators where
  item : Value
  key : Value

def readSeparators (v : Value) : Except Error Separators :=
  let pair : List Value → Except Error Separators
    | [item, key] => .ok ⟨item, key⟩
    | [] => .error (.separatorCount 2 (some 0))
    | [_] => .error (.separatorCount 2 (some 1))
    | _ => .error (.separatorCount 2 none)
  match v with
  | .list items => pair items
  | .tuple items => pair items
  | .table entries => pair (entries.map Prod.fst)
  | .str s => pair (s.toList.map fun c => .str (String.ofList [c]))
  | .bytes octets => pair (octets.map fun b => .int b.toNat)
  | v => .error (.separatorsType v.typeName)

def readFallback : Option Value → Fallback
  | none => .asText
  | some .null => .refuse
  | some v => .broken v.typeName

def looseSeparators (indented : Bool) : Separators :=
  ⟨.str (if indented then "," else ", "), .str ": "⟩

def separatorsFor (given : Option Value) (compact indented : Bool) : Except Error Separators :=
  match given with
  | some .null => .ok (looseSeparators indented)
  | some v => readSeparators v
  | none => .ok (if compact then ⟨.str ",", .str ":"⟩ else looseSeparators indented)

def isIndented (options : Entries) : Bool :=
  match options.find? "indent" with
  | none => false
  | some .null => false
  | some _ => true

/-- Unless it is said otherwise, the form is compact exactly if the options do not mention an
indentation. -/
def isCompact (compact : Option Value) (options : Entries) : Bool :=
  match (compact.or (options.find? "compact")).getD .null with
  | .null => (options.find? "indent").isNone
  | v => v.truthy

def separatorTypeName : Value → String
  | .null => "None"
  | v => v.typeName

def writeLine (style : String → String → Style) (separators : Separators) (data : Value) :
    Except Error String :=
  match separators.key, separators.item with
  | .str key, .str item => write (style item key) 0 data
  | .str _, item => .error (.separatorType 6 (separatorTypeName item))
  | key, _ => .error (.separatorType 5 (separatorTypeName key))

def isFilled : Value → Bool
  | .list items => !items.isEmpty
  | .tuple items => !items.isEmpty
  | .table entries => !entries.isEmpty
  | _ => false

/-- On indented lines a separator has to be text only where it is written: line ends are added to
the item separator of whatever has members, and the pieces are joined when all have been found. -/
def writeLines (style : String → String → Style) (separators : Separators) (data : Value) :
    Except Error String :=
  match separators.item, separators.key with
  | .str item, .str key => write (style item key) 0 data
  | .str item, key =>
    (write (style item "") 0 data).bind fun text =>
      match keySeparatorPlace? data with
      | none => .ok text
      | some place => .error (.pieceType place key.typeName)
  | item, _ =>
    if isFilled data then .error (.misused item.additionFault) else write (style "" "") 0 data

def dump (capacity : Nat) (data : Value) (compact : Option Value) (options : Entries) :
    Except Error String :=
  let flag (name : String) (default : Bool) : Bool :=
    ((options.find? name).map Value.truthy).getD default
  let style (indent : Option String) (item key : String) : Style :=
    ⟨indent, item, key, flag "ensure_ascii" false, flag "sort_keys" true,
     flag "skipkeys" false, flag "allow_nan" true, readFallback (options.find? "default")⟩
  match checkOptions compact options with
  | .error e => .error e
  | .ok () =>
    match separatorsFor (options.find? "separators") (isCompact compact options)
      (isIndented options) with
    | .error e => .error e
    | .ok separators =>
      match data, readIndent capacity ((options.find? "indent").getD .null) with
      | .str s, _ => .ok (quote (flag "ensure_ascii" false) s)
      | data, .ok none => writeLine (style none) separators data
      | data, .ok (some indent) => writeLines (style (some indent)) separators data
      | _, .error e => .error e

end TexHtml.Json
