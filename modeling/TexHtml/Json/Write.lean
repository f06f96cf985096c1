import TexHtml.Json.Order
import TexHtml.Value.Text

namespace TexHtml.Json

inductive Fallback where
  | asText
  | refuse
  | broken (typeName : String)

structure Style where
  indent : Option String
  itemSeparator : String
  keySeparator : String
  asciiOnly : Bool
  sortKeys : Bool
  skipKeys : Bool
  allowNaN : Bool
  fallback : Fallback

def surrogates (n : Nat) : Nat × Nat :=
  (0xD800 + (n - 0x10000) / 0x400, 0xDC00 + (n - 0x10000) % 0x400)

def unitEscape (n : Nat) : List Char := '\\' :: 'u' :: Text.hex 4 n

def escapeChar (asciiOnly : Bool) (c : Char) : List Char :=
  if c = '"' then ['\\', '"']
  else if c = '\\' then ['\\', '\\']
  else if c = '\n' then ['\\', 'n']
  else if c = '\r' then ['\\', 'r']
  else if c = '\t' then ['\\', 't']
  else if c = '\x0c' then ['\\', 'f']
  else if c = '\x08' then ['\\', 'b']
  else if c.toNat < 32 then unitEscape c.toNat
  else if asciiOnly && 127 ≤ c.toNat then
    if c.toNat < 0x10000 then unitEscape c.toNat
    else unitEscape (surrogates c.toNat).1 ++ unitEscape (surrogates c.toNat).2
  else [c]

def quote (asciiOnly : Bool) (s : String) : String :=
  String.ofList ('"' :: (s.toList.flatMap (escapeChar asciiOnly) ++ ['"']))

def number (style : Style) (x : Double) : Except Error String :=
  let special (name : String) : Except Error String :=
    if style.allowNaN then .ok name
    else .error (.outOfRange (style.indent.map fun _ => x.text))
  match x with
  | .nan => special "NaN"
  | .infinite true => special "-Infinity"
  | .infinite false => special "Infinity"
  | x => .ok x.text

def integer (n : Int) : Except Error String := (integerText n).mapError .overlong

def keyText (style : Style) : Value → Except Error (Option String)
  | .str s => .ok (some s)
  | .float x => (number style x).map some
  | .bool b => .ok (some (if b then "true" else "false"))
  | .null => .ok (some "null")
  | .int n => (integer n).map some
  | v => if style.skipKeys then .ok none else .error (.keyType v.shortTypeName)

def lineBreak (style : Style) (level : Nat) : String :=
  match style.indent with
  | none => ""
  | some indent => "\n" ++ String.join (List.replicate level indent)

def enclose (style : Style) (level : Nat) (opening closing : String) (parts : List String) :
    String :=
  opening ++ lineBreak style (level + 1) ++
    (style.itemSeparator ++ lineBreak style (level + 1)).intercalate parts ++
    lineBreak style level ++ closing

def members (style : Style) :
    List (Value × Except Error String) → Except Error (List String)
  | [] => .ok []
  | (key, value) :: rest =>
    match keyText style key with
    | .error e => .error e
    | .ok none => members style rest
    | .ok (some k) =>
      match value with
      | .error e => .error e
      | .ok v => (members style rest).map
          ((quote style.asciiOnly k ++ style.keySeparator ++ v) :: ·)

def arrange (style : Style) (entries : List (Value × Except Error String)) :
    Except Error (List (Value × Except Error String)) :=
  if style.sortKeys then sortEntries entries else .ok entries

def fallback (style : Style) (v : Value) : Except Error String :=
  match style.fallback with
  | .asText => (v.text.mapError .overlong).map (quote style.asciiOnly)
  | .refuse => .error (.notWritable v.shortTypeName)
  | .broken t => .error (.notCallable t)

mutual

def write (style : Style) (level : Nat) : Value → Except Error String
  | .null => .ok "null"
  | .bool b => .ok (if b then "true" else "false")
  | .int n => integer n
  | .float x => number style x
  | .str s => .ok (quote style.asciiOnly s)
  | .list items => (writeItems style (level + 1) items).map fun parts =>
      if parts.isEmpty then "[]" else enclose style level "[" "]" parts
  | .tuple items => (writeItems style (level + 1) items).map fun parts =>
      if parts.isEmpty then "[]" else enclose style level "[" "]" parts
  | .table entries =>
    match writeEntries style (level + 1) entries with
    | [] => .ok "\x7b\x7d"
    | written => ((arrange style written).bind (members style)).map
        (enclose style level "\x7b" "\x7d")
  | .bytes octets => fallback style (.bytes octets)
  | .node n => fallback style (.node n)
  | .date d => fallback style (.date d)
  | .time t => fallback style (.time t)
  | .dateTime m => fallback style (.dateTime m)

def writeItems (style : Style) (level : Nat) : List Value → Except Error (List String)
  | [] => .ok []
  | v :: rest =>
    match write style level v with
    | .error e => .error e
    | .ok part => (writeItems style level rest).map (part :: ·)

def writeEntries (style : Style) (level : Nat) :
    List (Value × Value) → List (Value × Except Error String)
  | [] => []
  | (key, value) :: rest => (key, write style level value) :: writeEntries style level rest

end

end TexHtml.Json
