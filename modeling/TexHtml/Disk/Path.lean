/-!
Paths as text and as lists of parts. Writing a path in its normal form drops empty parts and single
points; double points stay, since only the disk can tell where they lead.
-/

namespace TexHtml

def slashParts (s : List Char) : List String :=
  let pieces := s.foldr
    (fun c acc =>
      if c = '/' then [] :: acc
      else
        match acc with
        | [] => [[c]]
        | piece :: rest => (c :: piece) :: rest) [[]]
  pieces.map String.ofList

def namedParts (s : List Char) : List String :=
  (slashParts s).filter fun p => p ≠ "" && p ≠ "."

/-- The slashes that a path keeps at its start: two if it has exactly two, else one if it has any.
-/
def leadingSlashes (s : List Char) : String :=
  match (s.takeWhile (· = '/')).length with
  | 0 => ""
  | 2 => "//"
  | _ => "/"

structure Path where
  root : String
  parts : List String
  deriving DecidableEq

namespace Path

def ofText (s : String) : Path := ⟨leadingSlashes s.toList, namedParts s.toList⟩

def text (p : Path) : String :=
  if p.root = "" && p.parts.isEmpty then "." else p.root ++ "/".intercalate p.parts

def components (p : Path) : List String := if p.root = "" then p.parts else p.root :: p.parts

def parent (p : Path) : Path := { p with parts := p.parts.dropLast }

def child (p : Path) (names : List String) : Path := { p with parts := p.parts ++ names }

def withoutDoublePoints (parts : List String) : List String :=
  (parts.foldl (fun back p => if p = ".." then back.drop 1 else p :: back) []).reverse

/-- The path that a text means from the directory `here`, worked out without looking at the disk. -/
def absolute (here : List String) (s : String) : Path :=
  let p := ofText s
  if p.root = "" then ⟨"/", withoutDoublePoints (here ++ p.parts)⟩
  else ⟨p.root, withoutDoublePoints p.parts⟩

end Path

end TexHtml
