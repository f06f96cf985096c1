import TexHtml.Proofs.Shapes

namespace TexHtml

namespace Place

theorem afterAll_append (p : Place) (cs ds : List Char) :
    p.afterAll (cs ++ ds) = (p.afterAll cs).afterAll ds := List.foldl_append

theorem afterAll_cons (p : Place) (c : Char) (cs : List Char) :
    p.afterAll (c :: cs) = (p.after c).afterAll cs := rfl

theorem offset_afterAll (p : Place) (cs : List Char) :
    (p.afterAll cs).offset = p.offset + cs.length := by
  induction cs generalizing p with
  | nil => rfl
  | cons c cs ih =>
    have hc : (p.after c).offset = p.offset + 1 := by
      rw [after]
      split <;> rfl
    rw [afterAll_cons, ih, hc, List.length_cons]
    omega

theorem line_afterAll (p : Place) (cs : List Char) :
    (p.afterAll cs).line = p.line + cs.count '\n' := by
  induction cs generalizing p with
  | nil => rfl
  | cons c cs ih =>
    rw [afterAll_cons, ih, after, List.count_cons]
    by_cases hc : c = '\n'
    · simp only [if_pos hc, beq_iff_eq]
      omega
    · simp only [if_neg hc, beq_iff_eq]
      omega

end Place

namespace Cursor

def Moves (c c' : Cursor) : Prop :=
  ∃ read, c.rest = read ++ c'.rest ∧ c'.place = c.place.afterAll read

theorem Moves.refl (c : Cursor) : c.Moves c := ⟨[], rfl, rfl⟩

theorem Moves.trans {c c' c'' : Cursor} (h : c.Moves c') (h' : c'.Moves c'') : c.Moves c'' := by
  obtain ⟨read, hr, hp⟩ := h
  obtain ⟨read', hr', hp'⟩ := h'
  refine ⟨read ++ read', ?_, ?_⟩
  · rw [hr, hr', List.append_assoc]
  · rw [hp', hp, Place.afterAll_append]

theorem moves_skip (c : Cursor) (n : Nat) : c.Moves (c.skip n) :=
  ⟨c.rest.take n, (List.take_append_drop n c.rest).symm, rfl⟩

theorem moves_span (c : Cursor) (p : Char → Bool) : c.Moves (c.span p).2 :=
  ⟨c.rest.takeWhile p, List.takeWhile_append_dropWhile.symm, rfl⟩

theorem moves_skipIf (c : Cursor) (ch : Char) : c.Moves (c.skipIf ch) := by
  rw [skipIf]
  split
  · exact moves_skip c 1
  · exact .refl c

def Passes (c : Cursor) (r : Option Token × Cursor) : Prop :=
  c.Moves r.2 ∧ ∀ t ∈ r.1, t.location = c.place.location

theorem Moves.passes {c c' : Cursor} (h : c.Moves c') (kind : TokenKind) (content : List Char) :
    c.Passes (some (c.token kind content), c') := ⟨h, by simp [token]⟩

theorem Moves.passes_none {c c' : Cursor} (h : c.Moves c') : c.Passes (none, c') := ⟨h, by simp⟩

theorem passes_command (c : Cursor) : c.Passes (some c.command.1, c.command.2) := by
  have hbody : c.Moves (c.skip 1) := moves_skip c 1
  rw [command]
  split
  · exact hbody.passes _ _
  · split
    · exact (hbody.trans (moves_skip _ 1)).passes _ _
    · split
      · exact (hbody.trans (moves_span _ Text.isLetter)).passes _ _
      · exact (hbody.trans (moves_skip _ 1)).passes _ _

theorem passes_math (c : Cursor) : c.Passes (some c.math.1, c.math.2) := by
  have hbody : c.Moves (c.skip 1) := moves_skip c 1
  rw [math]
  split
  · have hinner := (hbody.trans (moves_skip _ 1)).trans (moves_span _ (· != '$'))
    exact ((hinner.trans (moves_skipIf _ '$')).trans (moves_skipIf _ '$')).passes _ _
  · have hinner := hbody.trans (moves_span _ (· != '$'))
    exact (hinner.trans (moves_skipIf _ '$')).passes _ _

theorem passes_textRun (c : Cursor) : c.Passes c.textRun := by
  have hrun := moves_span c fun ch => !endsText ch
  rw [textRun]
  split
  · exact hrun.passes_none
  · exact hrun.passes _ _

theorem passes_step (c : Cursor) (ch : Char) : c.Passes (c.step ch) := by
  have hskip : c.Moves (c.skip 1) := moves_skip c 1
  rw [step]
  split
  · exact passes_command c
  · split
    · exact passes_math c
    · split
      · exact hskip.passes _ _
      · split
        · exact hskip.passes _ _
        · split
          · exact hskip.passes_none
          · exact passes_textRun c

end Cursor

namespace Shape

def place (p : Place) (a : Shape) : Token := ⟨a.1, a.2, p.location⟩

theorem place_shape (t : Token) {p : Place} (h : t.location = p.location) :
    t.shape.place p = t := by
  rw [place, ← h]
  rfl

end Shape

theorem Cursor.step_of_lexeme {c : Cursor} {read rest : List Char} {shape : Option Shape}
    (hl : Lexeme read shape rest) (h : c.rest = read ++ rest) :
    ∃ ch us, c.rest = ch :: us ∧
      c.step ch = (shape.map (Shape.place c.place), ⟨c.place.afterAll read, rest⟩) := by
  obtain ⟨ch, us, hc, hs, hrest⟩ := Cursor.steps_of_lexeme hl h
  obtain ⟨⟨read', hr, hp⟩, hlocation⟩ := Cursor.passes_step c ch
  have hread : read' = read := by
    rw [hrest, h] at hr
    exact (List.append_cancel_right hr).symm
  have htoken : (c.step ch).1 = shape.map (Shape.place c.place) := by
    cases ht : (c.step ch).1 with
    | none =>
      rw [← hs, ht]
      rfl
    | some t =>
      rw [← hs, ht]
      exact congrArg some (Shape.place_shape t (hlocation t ht)).symm
  refine ⟨ch, us, hc, ?_⟩
  rw [← htoken, ← hrest, ← hread, ← hp]

inductive Reads : Place → List Char → List Token → List Char → Prop
  | nil {p : Place} {rest : List Char} : Reads p [] [] rest
  | cons {p : Place} {read more rest : List Char} {shape : Option Shape} {ts : List Token}
      (first : Lexeme read shape (more ++ rest)) (tail : Reads (p.afterAll read) more ts rest) :
      Reads p (read ++ more) ((shape.map (Shape.place p)).toList ++ ts) rest

namespace Reads

theorem tokens {p : Place} {read rest : List Char} {ts : List Token} (h : Reads p read ts rest) :
    (⟨p, read ++ rest⟩ : Cursor).tokens = ts ++ (⟨p.afterAll read, rest⟩ : Cursor).tokens := by
  induction h with
  | nil => rfl
  | @cons p read more rest shape ts first tail ih =>
    obtain ⟨ch, us, hc, hs⟩ := Cursor.step_of_lexeme (c := ⟨p, read ++ (more ++ rest)⟩) first rfl
    rw [List.append_assoc, Cursor.tokens_cons hc, hs, ih, Place.afterAll_append, List.append_assoc]

theorem exists_of_text (p : Place) (cs : List Char) : ∃ ts, Reads p cs ts [] := by
  obtain ⟨shapes, hs⟩ := exists_scans cs
  induction hs generalizing p with
  | nil => exact ⟨[], .nil⟩
  | cons first tail ih =>
    obtain ⟨ts, ht⟩ := ih (p.afterAll _)
    exact ⟨_, .cons (by rwa [List.append_nil]) ht⟩

theorem exists_lexeme {p : Place} {read rest : List Char} {ts : List Token}
    (h : Reads p read ts rest) : ∀ t ∈ ts, ∃ (q : Place) (a : Shape) (used behind : List Char),
      t = a.place q ∧ Lexeme used (some a) behind := by
  induction h with
  | nil => simp
  | @cons p read more rest shape ts first tail ih =>
    refine List.forall_mem_append.mpr ⟨?_, ih⟩
    intro t ht
    obtain ⟨a, ha, rfl⟩ : ∃ a, shape = some a ∧ Shape.place p a = t := by simpa using ht
    subst ha
    exact ⟨p, a, read, more ++ rest, rfl, first⟩

theorem no_end {p : Place} {read rest : List Char} {ts : List Token} (h : Reads p read ts rest) :
    ∀ t ∈ ts, t.kind ≠ .endOfInput := by
  intro t ht
  obtain ⟨q, ⟨kind, s⟩, used, behind, rfl, hl⟩ := h.exists_lexeme t ht
  rintro rfl
  exact hl.proper

end Reads

def endToken (p : Place) : Token := ⟨.endOfInput, "", p.location⟩

theorem Reads.tokens_eq {p : Place} {cs : List Char} {ts : List Token} (h : Reads p cs ts []) :
    (⟨p, cs⟩ : Cursor).tokens = ts ++ [endToken (p.afterAll cs)] := by
  have ht := h.tokens
  rw [List.append_nil] at ht
  exact ht.trans (congrArg (ts ++ ·) (Cursor.tokens_nil rfl))

theorem Reads.tokenize_eq {text : String} {ts : List Token} (h : Reads .start text.toList ts []) :
    tokenize text = ts ++ [endToken (Place.start.afterAll text.toList)] := h.tokens_eq

theorem exists_place_of_mem_tokenize {text : String} {t : Token} (h : t ∈ tokenize text) :
    ∃ p : Place, t.location = p.location := by
  obtain ⟨ts, hts⟩ := Reads.exists_of_text .start text.toList
  rw [hts.tokenize_eq] at h
  rcases List.mem_append.mp h with ht | ht
  · obtain ⟨q, a, used, behind, rfl, -⟩ := hts.exists_lexeme t ht
    exact ⟨q, rfl⟩
  · rw [List.mem_singleton.mp ht]
    exact ⟨_, rfl⟩

end TexHtml
