/-!
Lines of text. A line ends at a newline, at a carriage return, or at both together. A text that is
broken into lines of a given width consists of pieces that stay together: blanks, and words, which
may also be divided behind a hyphen that has two letters on either side. A line takes as many pieces
as fit. A piece that is too long for any line is cut where the line ends.
-/

namespace TexHtml.Text

def unifyNewlines : List Char → List Char
  | '\r' :: '\n' :: rest => '\n' :: unifyNewlines rest
  | '\r' :: rest => '\n' :: unifyNewlines rest
  | c :: rest => c :: unifyNewlines rest
  | [] => []

def splitNewlines : List Char → List (List Char)
  | [] => [[]]
  | c :: rest =>
    if c = '\n' then [] :: splitNewlines rest
    else
      match splitNewlines rest with
      | [] => [[c]]
      | line :: lines => (c :: line) :: lines

def lines (cs : List Char) : List (List Char) := splitNewlines (unifyNewlines cs)

/-- Whether a word may be divided behind a hyphen; what stands before it is given backwards. -/
def isDivided (before after : List Char) : Bool :=
  match before, after with
  | b :: a :: _, c :: d :: _ => a.isAlpha && b.isAlpha && c.isAlpha && d.isAlpha
  | _, _ => false

def piecesFrom (piece : List Char) : List Char → List (List Char)
  | [] => [piece.reverse]
  | c :: rest =>
    if c = ' ' then piece.reverse :: [' '] :: piecesFrom [] rest
    else if c = '-' && isDivided piece rest then ('-' :: piece).reverse :: piecesFrom [] rest
    else piecesFrom (c :: piece) rest

def pieces (s : List Char) : List (List Char) := (piecesFrom [] s).filter (!·.isEmpty)

def fitting (width : Nat) : (used : Nat) → List (List Char) → List (List Char) × List (List Char)
  | _, [] => ([], [])
  | used, piece :: rest =>
    if used + piece.length ≤ width then
      let (line, rest) := fitting width (used + piece.length) rest
      (piece :: line, rest)
    else ([], piece :: rest)

def cutLong (width : Nat) (line rest : List (List Char)) : List (List Char) × List (List Char) :=
  match rest with
  | piece :: rest =>
    if width < piece.length then
      let space := width - line.flatten.length
      (line ++ [piece.take space], piece.drop space :: rest)
    else (line, piece :: rest)
  | [] => (line, [])

def isBlankPiece (piece : List Char) : Bool := piece.all (· = ' ')

def trimLine (line : List (List Char)) : List (List Char) :=
  match line.getLast? with
  | some piece => if isBlankPiece piece then line.dropLast else line
  | none => line

def dropBlank (first : Bool) (rest : List (List Char)) : List (List Char) :=
  match first, rest with
  | false, piece :: more => if isBlankPiece piece then more else rest
  | _, _ => rest

def linesOf (width : Nat) : (rounds : Nat) → (first : Bool) → List (List Char) →
    List (List Char)
  | 0, _, _ => []
  | _ + 1, _, [] => []
  | rounds + 1, first, piece :: more =>
    let (line, rest) := fitting width 0 (dropBlank first (piece :: more))
    let (line, rest) := cutLong width line rest
    let lines := linesOf width rounds false rest
    let shown := trimLine line
    if shown.isEmpty then lines else shown.flatten :: lines

def wrap (width : Nat) (s : String) : List String :=
  (linesOf width (s.length + 1) true (pieces s.toList)).map String.ofList

end TexHtml.Text
