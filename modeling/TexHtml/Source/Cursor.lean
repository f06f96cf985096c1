namespace TexHtml

/-- Characters before the place, the line it is in and the column, both counted from one. -/
structure Place where
  offset : Nat
  line : Nat
  column : Nat
  deriving DecidableEq

namespace Place

def start : Place := ⟨0, 1, 1⟩

def after (p : Place) (c : Char) : Place :=
  if c = '\n' then ⟨p.offset + 1, p.line + 1, 1⟩ else ⟨p.offset + 1, p.line, p.column + 1⟩

def afterAll (p : Place) (cs : List Char) : Place := cs.foldl after p

end Place

structure Cursor where
  place : Place
  rest : List Char
  deriving DecidableEq

namespace Cursor

def start (text : List Char) : Cursor := ⟨Place.start, text⟩

def skip (c : Cursor) (n : Nat) : Cursor := ⟨c.place.afterAll (c.rest.take n), c.rest.drop n⟩

def span (c : Cursor) (p : Char → Bool) : List Char × Cursor :=
  (c.rest.takeWhile p, ⟨c.place.afterAll (c.rest.takeWhile p), c.rest.dropWhile p⟩)

def skipIf (c : Cursor) (ch : Char) : Cursor :=
  if c.rest.head? = some ch then c.skip 1 else c

theorem skip_rest_length (c : Cursor) (n : Nat) : (c.skip n).rest.length = c.rest.length - n := by
  simp [skip]

theorem span_rest_length (c : Cursor) (p : Char → Bool) :
    (c.span p).2.rest.length ≤ c.rest.length := by
  have h := congrArg List.length (List.takeWhile_append_dropWhile (p := p) (l := c.rest))
  rw [List.length_append] at h
  simp only [span]
  omega

theorem skipIf_rest_length (c : Cursor) (ch : Char) :
    (c.skipIf ch).rest.length ≤ c.rest.length := by
  unfold skipIf
  split
  · rw [skip_rest_length]; omega
  · exact Nat.le_refl _

end Cursor

end TexHtml
