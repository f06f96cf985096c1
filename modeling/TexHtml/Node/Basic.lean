import TexHtml.Text.Quoted

namespace TexHtml

inductive NodeKind where
  | text
  | command
  | math
  | group
  deriving DecidableEq

namespace NodeKind

def name : NodeKind → String
  | text => "text"
  | command => "command"
  | math => "math"
  | group => "group"

end NodeKind

/-- A foreign leaf is something that stands in a tree without being one of the four forms: a node of
another type, which declares a kind, or no node at all. Reading a source never gives one. -/
inductive Node where
  | text (content : String)
  | math (content : String) (display : Bool)
  | group (children : List Node)
  | command (name : String) (required optional : List Node)
  | foreign (typeName : String) (kind : Option NodeKind)

instance : Inhabited Node := ⟨.text ""⟩

namespace Node

def kind? : Node → Option NodeKind
  | text _ => some .text
  | math _ _ => some .math
  | group _ => some .group
  | command _ _ _ => some .command
  | foreign _ kind => kind

def typeName : Node → String
  | text _ => "TexText"
  | math _ _ => "TexMath"
  | group _ => "TexGroup"
  | command _ _ _ => "TexCommand"
  | foreign name _ => name

def briefly (n : Node) : String :=
  n.typeName ++ "(type=" ++ (n.kind?.map NodeKind.name).getD "" ++ ")"

def boolName (b : Bool) : String := if b then "True" else "False"

def describe : Node → String
  | text content => "TexText(" ++ Text.quoted content ++ ")"
  | math content display =>
    "TexMath(" ++ Text.quoted content ++ ", display_mode=" ++ boolName display ++ ")"
  | group children => s!"TexGroup(children={children.length})"
  | command name required optional =>
    "TexCommand(" ++ Text.quoted name ++
      s!", required={required.length}, optional={optional.length})"
  | n => n.briefly

mutual

/-- A node and all below it in document order: optional arguments stand before required ones. -/
def flatten : Node → List Node
  | group children => group children :: flattenAll children
  | command name required optional =>
    command name required optional :: (flattenAll optional ++ flattenAll required)
  | n => [n]

def flattenAll : List Node → List Node
  | [] => []
  | n :: rest => flatten n ++ flattenAll rest

end

mutual

def literalText : Node → String
  | text content => content
  | group children => literalTextAll children
  | _ => ""

def literalTextAll : List Node → String
  | [] => ""
  | n :: rest => literalText n ++ literalTextAll rest

end

mutual

def height : Node → Nat
  | group children => heightBelow children
  | command _ required optional => max (heightBelow optional) (heightBelow required)
  | _ => 0

def heightBelow : List Node → Nat
  | [] => 0
  | n :: rest => max (height n + 1) (heightBelow rest)

end

mutual

/-- The type of the first leaf, required arguments before optional ones, that is no node at all. -/
def firstAlien? : Node → Option String
  | group children => firstAlienAmong? children
  | command _ required optional => firstAlienAmong? required <|> firstAlienAmong? optional
  | foreign name none => some name
  | _ => none

def firstAlienAmong? : List Node → Option String
  | [] => none
  | n :: rest => firstAlien? n <|> firstAlienAmong? rest

end

end Node

end TexHtml
