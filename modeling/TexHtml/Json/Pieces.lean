import TexHtml.Value.Basic

/-!
The pieces that indented text is made of. Brackets, line ends, keys and separators are pieces, and
so is each simple value; an item of an array takes the bracket or separator in front of it into its
own piece if it is simple. The order of the members of a table makes no difference to the number of
pieces in front of the first key separator.
-/

namespace TexHtml.Json

def isWritableKey : Value → Bool
  | .null => true
  | .bool _ => true
  | .int _ => true
  | .float _ => true
  | .str _ => true
  | _ => false

def leadingPieces (v : Value) : Nat := if isWritableKey v then 0 else 1

mutual

/-- The number of pieces after a value, if there are `before` in front of it. The number of pieces
in front of the first key separator is the error. -/
def countPieces (before : Nat) : Value → Except Nat Nat
  | .list [] => .ok (before + 1)
  | .list (item :: rest) => (countItems before (item :: rest)).map (· + 2)
  | .tuple [] => .ok (before + 1)
  | .tuple (item :: rest) => (countItems before (item :: rest)).map (· + 2)
  | .table [] => .ok (before + 1)
  | .table (entry :: rest) =>
    if (entry :: rest).any fun e => isWritableKey e.1 then .error (before + 3)
    else .ok (before + 4)
  | _ => .ok (before + 1)

def countItems (before : Nat) : List Value → Except Nat Nat
  | [] => .ok before
  | v :: rest =>
    match countPieces (before + leadingPieces v) v with
    | .ok before => countItems before rest
    | .error place => .error place

end

def keySeparatorPlace? (v : Value) : Option Nat :=
  match countPieces 0 v with
  | .ok _ => none
  | .error place => some place

end TexHtml.Json
