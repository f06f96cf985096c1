import Mathlib.Data.List.Basic
import Mathlib.Data.List.Induction
import TexHtml.Proofs.Placement
import TexHtml.Proofs.Relocation
import TexHtml.Token.Scanner

namespace TexHtml

def WholeLines (cs : List Char) : Prop := cs = [] ∨ cs.getLast? = some '\n'

/-- A place in a text whose line and column follow from its offset. -/
structure Place.Marks (text : List Char) (p : Place) : Prop where
  within : p.offset ≤ text.length
  line : p.line = 1 + (text.take p.offset).count '\n'
  column : ∃ lines, lines <+: text.take p.offset ∧ WholeLines lines ∧
    (∀ others, others <+: text.take p.offset → WholeLines others → others.length ≤ lines.length) ∧
    p.column = p.offset - lines.length + 1

def Location.Marks (text : List Char) (l : Location) : Prop :=
  ∃ p : Place, l = p.location ∧ p.Marks text

namespace Place

theorem afterAll_concat (p : Place) (cs : List Char) (c : Char) :
    p.afterAll (cs ++ [c]) = (p.afterAll cs).after c := p.afterAll_append cs [c]

theorem column_afterAll (cs : List Char) :
    ∃ lines tail, cs = lines ++ tail ∧ WholeLines lines ∧ '\n' ∉ tail ∧
      (start.afterAll cs).column = tail.length + 1 := by
  induction cs using List.reverseRecOn with
  | nil => exact ⟨[], [], rfl, .inl rfl, by simp, rfl⟩
  | append_singleton cs c ih =>
    obtain ⟨lines, tail, rfl, hlines, htail, hcolumn⟩ := ih
    rw [afterAll_concat, after]
    by_cases hc : c = '\n'
    · refine ⟨lines ++ tail ++ [c], [], by simp, .inr ?_, by simp, ?_⟩
      · rw [List.getLast?_concat, hc]
      · rw [if_pos hc]
        rfl
    · refine ⟨lines, tail ++ [c], by simp, hlines, ?_, ?_⟩
      · simpa [htail] using Ne.symm hc
      · rw [if_neg hc, List.length_append, hcolumn]
        rfl

theorem length_le_of_wholeLines {lines tail others : List Char} (htail : '\n' ∉ tail)
    (hstart : others <+: lines ++ tail) (hothers : WholeLines others) :
    others.length ≤ lines.length := by
  obtain ⟨behind, hsplit⟩ := hstart
  rcases List.append_eq_append_iff.mp hsplit with ⟨more, rfl, -⟩ | ⟨more, rfl, rfl⟩
  · rw [List.length_append]
    omega
  · -- what the longer one has in addition ends in a newline, and so does not stand in the tail
    by_cases hmore : more = []
    · exact Nat.le_of_eq (by rw [hmore, List.append_nil])
    · rcases hothers with hnil | hlast
      · exact absurd (List.append_eq_nil_iff.mp hnil).2 hmore
      · rw [List.getLast?_append_of_ne_nil _ hmore] at hlast
        exact absurd (List.mem_append_left behind (List.mem_of_getLast? hlast)) htail

theorem marks_afterAll (read rest : List Char) : (start.afterAll read).Marks (read ++ rest) := by
  have hoffset : (start.afterAll read).offset = read.length := by
    rw [offset_afterAll]
    exact Nat.zero_add _
  have htake : (read ++ rest).take (start.afterAll read).offset = read := by
    rw [hoffset, List.take_left]
  obtain ⟨lines, tail, hread, hlines, htail, hcolumn⟩ := column_afterAll read
  constructor
  · rw [hoffset, List.length_append]
    omega
  · rw [htake, line_afterAll]
    rfl
  · rw [htake, hcolumn, hoffset]
    refine ⟨lines, ⟨tail, hread.symm⟩, hlines, ?_, ?_⟩
    · intro others hothers
      rw [hread] at hothers
      exact length_le_of_wholeLines htail hothers
    · rw [hread, List.length_append]
      omega

end Place

namespace Cursor

theorem Moves.marks {text : List Char} {c : Cursor} (h : (start text).Moves c) :
    c.place.Marks text := by
  obtain ⟨read, hrest, hplace⟩ := h
  have htext : text = read ++ c.rest := hrest
  rw [hplace, htext]
  exact Place.marks_afterAll read c.rest

theorem exists_moves_of_mem_tokens {c : Cursor} {t : Token} (h : t ∈ c.tokens) :
    ∃ c', c.Moves c' ∧ t.location = c'.place.location := by
  induction hn : c.rest.length using Nat.strongRecOn generalizing c with
  | ind n ih =>
    cases hr : c.rest with
    | nil =>
      rw [tokens_nil hr, List.mem_singleton] at h
      exact ⟨c, .refl c, by rw [h]; rfl⟩
    | cons ch cs =>
      obtain ⟨hmoves, hlocation⟩ := passes_step c ch
      rw [tokens_cons hr, List.mem_append] at h
      rcases h with h | h
      · exact ⟨c, .refl c, hlocation t (by simpa using h)⟩
      · obtain ⟨c', hc', ht⟩ := ih _ (hn ▸ step_rest_length hr) h rfl
        exact ⟨c', hmoves.trans hc', ht⟩

theorem moves_scan (c : Cursor) : c.Moves c.scan.2 := by
  induction hn : c.rest.length using Nat.strongRecOn generalizing c with
  | ind n ih =>
    cases hr : c.rest with
    | nil =>
      rw [scan_nil hr]
      exact .refl c
    | cons ch cs =>
      rw [scan_cons hr]
      exact (passes_step c ch).1.trans (ih _ (hn ▸ step_rest_length hr) _ rfl)

end Cursor

namespace Scanner

inductive Operation where
  | scanAll
  | ensureScanned
  | advance (n : Int)
  | scanCommand
  | scanMath
  | scanText
  | takeWhile (p : Char → Bool)

def perform (s : Scanner) : Operation → Scanner
  | .scanAll => s.scanAll
  | .ensureScanned => s.ensureScanned
  | .advance n => s.advance n
  | .scanCommand => s.scanCommand
  | .scanMath => s.scanMath
  | .scanText => s.scanText
  | .takeWhile p => (s.takeWhile p).2

def performAll (s : Scanner) (operations : List Operation) : Scanner := operations.foldl perform s

structure Follows (text : List Char) (s : Scanner) : Prop where
  text_eq : s.text = text
  cursor : (Cursor.start text).Moves s.cursor
  tokens : ∀ t ∈ s.tokens, ∃ c, (Cursor.start text).Moves c ∧ t.location = c.place.location

variable {text : List Char} {s : Scanner}

theorem Follows.pass (h : Follows text s) {r : Option Token × Cursor} (hr : s.cursor.Passes r) :
    Follows text { s with cursor := r.2, tokens := s.tokens ++ r.1.toList } := by
  refine ⟨h.text_eq, h.cursor.trans hr.1, ?_⟩
  intro t ht
  rcases List.mem_append.mp ht with ht | ht
  · exact h.tokens t ht
  · exact ⟨s.cursor, h.cursor, hr.2 t (by simpa using ht)⟩

theorem Follows.move (h : Follows text s) {c : Cursor} (hc : s.cursor.Moves c) :
    Follows text { s with cursor := c } := ⟨h.text_eq, h.cursor.trans hc, h.tokens⟩

theorem Follows.scanAll (h : Follows text s) : Follows text s.scanAll := by
  refine ⟨h.text_eq, ?_, ?_⟩
  · rw [← h.text_eq]
    exact Cursor.moves_scan _
  · intro t ht
    rw [← h.text_eq]
    exact Cursor.exists_moves_of_mem_tokens ht

theorem Follows.perform (h : Follows text s) (operation : Operation) :
    Follows text (s.perform operation) := by
  cases operation with
  | scanAll => exact h.scanAll
  | ensureScanned =>
    rw [Scanner.perform, ensureScanned]
    split
    · exact h.scanAll
    · exact h
  | advance n => exact h.move (Cursor.moves_skip _ _)
  | scanCommand => exact h.pass (Cursor.passes_command _)
  | scanMath => exact h.pass (Cursor.passes_math _)
  | scanText => exact h.pass (Cursor.passes_textRun _)
  | takeWhile p => exact h.move (Cursor.moves_span _ p)

theorem Follows.performAll (h : Follows text s) (operations : List Operation) :
    Follows text (s.performAll operations) := by
  induction operations generalizing s with
  | nil => exact h
  | cons operation operations ih => exact ih (h.perform operation)

theorem follows_start (text : String) : Follows text.toList (start text) :=
  ⟨rfl, .refl _, by simp [start]⟩

theorem Follows.marks_of_mem (h : Follows text s) {t : Token} (ht : t ∈ s.tokens) :
    t.location.Marks text := by
  obtain ⟨c, hc, hlocation⟩ := h.tokens t ht
  exact ⟨c.place, hlocation, hc.marks⟩

theorem Follows.marks_of_parse (h : Follows text s) {limit : Int} {e : ParseError}
    (he : parse s.tokens limit = .error e) : e.location.Marks text := by
  obtain ⟨t, ht, hlocation⟩ := exists_token_of_parse_error he
  exact hlocation ▸ h.marks_of_mem ht

/-- Behind every sequence of operations, and so behind each operation of a sequence, the scanner and
its tokens have the line and the column of their offset. So have all tokens of a text and the errors
of reading them. -/
theorem coordinates_of_performAll (text : String) (operations : List Operation) :
    ((start text).performAll operations).cursor.place.Marks text.toList ∧
      (∀ t ∈ ((start text).performAll operations).tokens, t.location.Marks text.toList) ∧
      (∀ t ∈ tokenize text, t.location.Marks text.toList) ∧
      ∀ (limit : Int) (e : ParseError),
        parse ((start text).performAll operations).tokens limit = .error e ∨
            parse (tokenize text) limit = .error e → e.location.Marks text.toList := by
  have hrun := (follows_start text).performAll operations
  have hall : Follows text.toList (start text).scanAll := (follows_start text).scanAll
  refine ⟨hrun.cursor.marks, fun t => hrun.marks_of_mem, fun t => hall.marks_of_mem, ?_⟩
  rintro limit e (he | he)
  · exact hrun.marks_of_parse he
  · exact hall.marks_of_parse he

def scattered : String := "$a\n$\\\n b\x7b"

def scatteredOperations : List Operation :=
  [.scanMath, .advance (-3), .scanCommand, .takeWhile Text.isBlank, .advance 1]

theorem exists_error_scattered :
    ∃ e, parse (tokenize scattered) nestingLimit = .error e ∧ e.location = ⟨8, some 3, some 3⟩ := by
  have h : (parse (tokenize scattered) nestingLimit).map (fun _ => ()) =
      .error ⟨"Expected '\x7d'", "\x7d", 8, some 3, some 3⟩ := by decide +kernel
  cases hparse : parse (tokenize scattered) nestingLimit with
  | ok document => rw [hparse] at h; cases h
  | error e => rw [hparse] at h; cases h; exact ⟨_, rfl, rfl⟩

theorem coordinates_of_performAll_scattered :
    (((start scattered).performAll scatteredOperations).cursor.place = ⟨8, 3, 3⟩ ∧
        Place.Marks scattered.toList ⟨8, 3, 3⟩) ∧
      (∃ t ∈ ((start scattered).performAll scatteredOperations).tokens,
        t.location = ⟨4, some 2, some 2⟩ ∧ t.location.Marks scattered.toList) ∧
      (∃ t ∈ tokenize scattered, t.location.Marks scattered.toList) ∧
      ∃ e, parse (tokenize scattered) nestingLimit = .error e ∧
        e.location = ⟨8, some 3, some 3⟩ ∧ e.location.Marks scattered.toList := by
  obtain ⟨hplace, htokens, hall, herrors⟩ := coordinates_of_performAll scattered scatteredOperations
  obtain ⟨e, he, hlocation⟩ := exists_error_scattered
  have hcursor : ((start scattered).performAll scatteredOperations).cursor.place = ⟨8, 3, 3⟩ := by
    decide +kernel
  have hheld : (⟨.command, "\n", 4, some 2, some 2⟩ : Token) ∈
      ((start scattered).performAll scatteredOperations).tokens := by decide +kernel
  have hopener : (⟨.opener .brace, "\x7b", 8, some 3, some 3⟩ : Token) ∈ tokenize scattered := by
    decide +kernel
  exact ⟨⟨hcursor, hcursor ▸ hplace⟩, ⟨_, hheld, rfl, htokens _ hheld⟩, ⟨_, hopener, hall _ hopener⟩,
    e, he, hlocation, herrors nestingLimit e (.inr he)⟩

end Scanner

end TexHtml
