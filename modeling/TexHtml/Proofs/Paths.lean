import Mathlib.Data.List.TakeWhile
import TexHtml.Disk.Path

namespace TexHtml

structure IsPart (part : String) : Prop where
  ne_empty : part ≠ ""
  ne_point : part ≠ "."
  no_slash : '/' ∉ part.toList

instance (part : String) : Decidable (IsPart part) :=
  decidable_of_iff (part ≠ "" ∧ part ≠ "." ∧ '/' ∉ part.toList)
    ⟨fun h => ⟨h.1, h.2.1, h.2.2⟩, fun h => ⟨h.ne_empty, h.ne_point, h.no_slash⟩⟩

theorem splitOn_slash (s : List Char) : ('/' :: s).splitOn '/' = [] :: s.splitOn '/' := by
  simp [List.splitOn, List.splitOnP_cons_eq_if_modifyHead]

theorem exists_splitOn (s : List Char) : ∃ piece rest, s.splitOn '/' = piece :: rest ∧
    ∀ c ≠ '/', (c :: s).splitOn '/' = (c :: piece) :: rest := by
  obtain ⟨piece, rest, hs⟩ := List.exists_cons_of_ne_nil (List.splitOnP_ne_nil (· == '/') s)
  refine ⟨piece, rest, hs, fun c hc => ?_⟩
  simp [List.splitOn, List.splitOnP_cons_eq_if_modifyHead, hs, hc]

theorem slashParts_eq (s : List Char) : slashParts s = (s.splitOn '/').map String.ofList := by
  rw [slashParts]
  congr 1
  induction s with
  | nil => rfl
  | cons c s ih =>
    rw [List.foldr_cons, ih]
    by_cases hc : c = '/'
    · rw [if_pos hc, hc, splitOn_slash]
    · obtain ⟨piece, rest, hs, hcons⟩ := exists_splitOn s
      rw [if_neg hc, hcons c hc, hs]

theorem slashParts_slash (s : List Char) : slashParts ('/' :: s) = "" :: slashParts s := by
  rw [slashParts_eq, slashParts_eq, splitOn_slash]
  rfl

theorem namedParts_slash (s : List Char) : namedParts ('/' :: s) = namedParts s := by
  rw [namedParts, slashParts_slash, List.filter_cons_of_neg (by simp), namedParts]

theorem mem_of_mem_splitOn {s piece : List Char} (h : piece ∈ s.splitOn '/') {c : Char}
    (hc : c ∈ piece) : c ∈ s ∧ c ≠ '/' := by
  induction s generalizing piece with
  | nil =>
    cases List.mem_singleton.mp h
    cases hc
  | cons d s ih =>
    have hrest {piece : List Char} (hpiece : piece ∈ s.splitOn '/') (hc : c ∈ piece) :
        c ∈ d :: s ∧ c ≠ '/' := (ih hpiece hc).imp_left (List.mem_cons_of_mem d)
    by_cases hd : d = '/'
    · rw [hd, splitOn_slash, List.mem_cons] at h
      rcases h with rfl | h
      · cases hc
      · exact hrest h hc
    · obtain ⟨head, rest, hs, hcons⟩ := exists_splitOn s
      rw [hs] at hrest
      rw [hcons d hd, List.mem_cons] at h
      rcases h with rfl | h
      · rcases List.mem_cons.mp hc with rfl | hc
        · exact ⟨List.mem_cons_self, hd⟩
        · exact hrest List.mem_cons_self hc
      · exact hrest (List.mem_cons_of_mem head h) hc

theorem mem_of_mem_namedParts {s : List Char} {part : String} (h : part ∈ namedParts s) {c : Char}
    (hc : c ∈ part.toList) : c ∈ s ∧ c ≠ '/' := by
  rw [namedParts, List.mem_filter, slashParts_eq, List.mem_map] at h
  obtain ⟨⟨piece, hpiece, rfl⟩, -⟩ := h
  rw [String.toList_ofList] at hc
  exact mem_of_mem_splitOn hpiece hc

theorem isPart_of_mem_namedParts {s : List Char} {part : String} (h : part ∈ namedParts s) :
    IsPart part := by
  have hnamed := (List.mem_filter.mp h).2
  simp only [ne_eq, Bool.and_eq_true, decide_eq_true_eq] at hnamed
  exact ⟨hnamed.1, hnamed.2, fun hslash => (mem_of_mem_namedParts h hslash).2 rfl⟩

theorem mem_intercalate {parts : List String} {c : Char}
    (h : c ∈ ("/".intercalate parts).toList) : c = '/' ∨ ∃ part ∈ parts, c ∈ part.toList := by
  rw [String.toList_intercalate] at h
  induction parts with
  | nil => simp at h
  | cons part parts ih =>
    by_cases hne : parts = []
    · refine .inr ⟨part, List.mem_cons_self, ?_⟩
      simpa [hne] using h
    · rw [List.map_cons, List.intercalate_cons_of_ne_nil (by simpa using hne)] at h
      rw [List.mem_append, List.mem_append] at h
      rcases h with (h | h) | h
      · exact .inr ⟨part, List.mem_cons_self, h⟩
      · exact .inl (by simpa using h)
      · exact (ih h).imp_right fun ⟨p, hp, hc⟩ => ⟨p, List.mem_cons_of_mem part hp, hc⟩

theorem slashParts_intercalate {parts : List String} (hne : parts ≠ [])
    (h : ∀ part ∈ parts, IsPart part) : slashParts ("/".intercalate parts).toList = parts := by
  have hsplit := @List.splitOn_intercalate _ (parts.map String.toList) _ _ '/'
    (by simpa using fun part hpart => (h part hpart).no_slash) (by simpa using hne)
  rw [slashParts_eq, String.toList_intercalate]
  change (List.splitOn '/' (['/'].intercalate _)).map _ = _
  rw [hsplit, List.map_map]
  simp [Function.comp_def]

theorem filter_parts {parts : List String} (h : ∀ part ∈ parts, IsPart part) :
    parts.filter (fun p => p ≠ "" && p ≠ ".") = parts := by
  apply List.filter_eq_self.mpr
  intro part hpart
  simp [(h part hpart).ne_empty, (h part hpart).ne_point]

namespace Path

structure Normal (p : Path) : Prop where
  root : p.root = "" ∨ p.root = "/" ∨ p.root = "//"
  parts : ∀ part ∈ p.parts, IsPart part

theorem normal_ofText (s : String) : (ofText s).Normal := by
  constructor
  · change leadingSlashes s.toList = _ ∨ leadingSlashes s.toList = _ ∨ leadingSlashes s.toList = _
    unfold leadingSlashes
    split <;> simp
  · exact fun part hpart => isPart_of_mem_namedParts hpart

theorem normal_child {p : Path} (h : p.Normal) {names : List String}
    (hnames : ∀ name ∈ names, IsPart name) : (p.child names).Normal := by
  refine ⟨h.root, fun part hpart => ?_⟩
  rcases List.mem_append.mp hpart with hpart | hpart
  · exact h.parts part hpart
  · exact hnames part hpart

theorem head_intercalate {parts : List String} (h : ∀ part ∈ parts, IsPart part) :
    ("/".intercalate parts).toList.head? ≠ some '/' := by
  cases parts with
  | nil => simp
  | cons part parts =>
    obtain ⟨c, cs, hpart⟩ : ∃ c cs, part.toList = c :: cs :=
      List.exists_cons_of_ne_nil (by simpa using (h part List.mem_cons_self).ne_empty)
    have hc : c ≠ '/' := by
      rintro rfl
      exact (h part List.mem_cons_self).no_slash (by simp [hpart])
    cases parts <;> simp [String.toList_intercalate, hpart, hc]

theorem leadingSlashes_append {root s : List Char} (hroot : ∀ c ∈ root, c = '/')
    (hs : s.head? ≠ some '/') : leadingSlashes (root ++ s) = leadingSlashes root := by
  have htake : s.takeWhile (· = '/') = [] := by
    cases s with
    | nil => rfl
    | cons c s => exact List.takeWhile_cons_of_neg (by simpa using hs)
  rw [leadingSlashes, List.takeWhile_append_of_pos (by simpa using hroot), htake, List.append_nil,
    leadingSlashes, List.takeWhile_eq_self_iff.mpr (by simpa using hroot)]

theorem leadingSlashes_text {p : Path} (h : p.Normal) : leadingSlashes p.text.toList = p.root := by
  rw [text]
  split
  · rename_i hempty
    simp only [Bool.and_eq_true, decide_eq_true_eq] at hempty
    rw [hempty.1]
    rfl
  · rw [String.toList_append]
    obtain hroot | hroot | hroot := h.root
    all_goals
      rw [hroot, leadingSlashes_append (by simp) (head_intercalate h.parts)]
      rfl

theorem text_eq {p : Path} (h : p.root ≠ "" ∨ p.parts ≠ []) :
    p.text = p.root ++ "/".intercalate p.parts := by
  rw [text, if_neg]
  simpa [imp_iff_not_or] using h

theorem namedParts_intercalate {parts : List String} (h : ∀ part ∈ parts, IsPart part) :
    namedParts ("/".intercalate parts).toList = parts := by
  by_cases hne : parts = []
  · rw [hne]
    decide
  · rw [namedParts, slashParts_intercalate hne h, filter_parts h]

theorem namedParts_text {p : Path} (h : p.Normal) : namedParts p.text.toList = p.parts := by
  rw [text]
  split
  · rename_i hempty
    simp only [Bool.and_eq_true, List.isEmpty_iff] at hempty
    rw [hempty.2]
    decide
  · rw [String.toList_append]
    obtain hroot | hroot | hroot := h.root <;> rw [hroot]
    · exact namedParts_intercalate h.parts
    · exact (namedParts_slash _).trans (namedParts_intercalate h.parts)
    · exact (namedParts_slash _).trans ((namedParts_slash _).trans (namedParts_intercalate h.parts))

theorem ofText_text {p : Path} (h : p.Normal) : ofText p.text = p := by
  rw [ofText, leadingSlashes_text h, namedParts_text h]

theorem text_part (name : String) : text ⟨"", [name]⟩ = name := by
  simp [text]

theorem ofText_part {name : String} (h : IsPart name) : ofText name = ⟨"", [name]⟩ := by
  have hnormal : Normal ⟨"", [name]⟩ := ⟨.inl rfl, by simpa using h⟩
  have hpath := ofText_text hnormal
  rwa [text_part] at hpath

theorem text_ne_empty {p : Path} (h : p.Normal) : p.text ≠ "" := by
  intro hempty
  have hparts := namedParts_text h
  have hroot := leadingSlashes_text h
  rw [hempty] at hparts hroot
  have hroot' : p.root = "" := hroot.symm
  have hparts' : p.parts = [] := hparts.symm
  rw [text] at hempty
  simp [hroot', hparts'] at hempty

theorem mem_text {p : Path} (h : p.Normal) {c : Char} (hc : c ∈ p.text.toList) :
    c = '.' ∨ c = '/' ∨ ∃ part ∈ p.parts, c ∈ part.toList := by
  rw [text] at hc
  split at hc
  · exact .inl (by simpa using hc)
  · rw [String.toList_append, List.mem_append] at hc
    rcases hc with hc | hc
    · refine .inr (.inl ?_)
      obtain hroot | hroot | hroot := h.root
      · simp [hroot] at hc
      · simpa [hroot] using hc
      · simpa [hroot] using hc
    · exact .inr (mem_intercalate hc)

theorem slashParts_text {p : Path} (h : p.Normal) (hne : p.parts ≠ []) :
    ∃ blanks, (∀ s ∈ blanks, s = "") ∧ slashParts p.text.toList = blanks ++ p.parts := by
  have hparts := slashParts_intercalate hne h.parts
  have hslash (s : List Char) {parts : List String} (hs : slashParts s = parts) :
      slashParts ('/' :: s) = "" :: parts := (slashParts_slash s).trans (congrArg _ hs)
  rw [text_eq (.inr hne), String.toList_append]
  obtain hroot | hroot | hroot := h.root <;> rw [hroot]
  · exact ⟨[], by simp, hparts⟩
  · exact ⟨[""], by simp, hslash _ hparts⟩
  · exact ⟨["", ""], by simp, hslash _ (hslash _ hparts)⟩

end Path

end TexHtml
