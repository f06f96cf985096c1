import TexHtml.Proofs.Lexeme

namespace TexHtml

namespace Shape

def stops : List Char := ['\\', '\x7b', '\x7d', '[', ']', '$', '\n']

def IsText (s : String) : Prop :=
  s ≠ "" ∧ (∀ c ∈ s.toList, c ∉ stops) ∧ ∀ c ∈ s.toList.head?, Text.isBlank c = false

def IsWord (s : String) : Prop := s ≠ "" ∧ ∀ c ∈ s.toList, Text.isLetter c

-- Membership is decided on the list of characters and not by trying every character.
instance (s : String) : Decidable (IsWord s) :=
  decidable_of_iff (s ≠ "" ∧ s.toList.all Text.isLetter) (by simp [IsWord])

def IsSymbol (s : String) : Prop :=
  ∃ c, s = String.ofList [c] ∧ Text.isLetter c = false ∧ c ≠ '\\'

def Proper : Shape → Prop
  | (.text, s) => IsText s
  | (.command, s) => IsWord s ∨ s = "\\\\" ∨ IsSymbol s ∨ s = ""
  | (.math _, s) => '$' ∉ s.toList
  | (.newline, s) => s = "\n"
  | (.opener .brace, s) => s = "\x7b"
  | (.opener .bracket, s) => s = "["
  | (.closer .brace, s) => s = "\x7d"
  | (.closer .bracket, s) => s = "]"
  | (.endOfInput, _) => False

def OpenEnded (a : Shape) : Prop := a = (.command, "") ∨ a = (.math false, "")

def Precedes (a b : Shape) : Prop :=
  (a.1 = .text → b.1 ≠ .text) ∧ (OpenEnded a → b.1 = .endOfInput)

def WellFormed : List Shape → Prop
  | [] => False
  | [a] => a = (.endOfInput, "")
  | a :: b :: rest => Proper a ∧ Precedes a b ∧ WellFormed (b :: rest)

def spelling : Shape → List Char
  | (.command, s) => if s = "\\\\" then ['\\', '\\'] else '\\' :: s.toList
  | (.math false, s) => if s = "" then ['$'] else '$' :: (s.toList ++ ['$'])
  | (.math true, s) => '$' :: '$' :: (s.toList ++ ['$', '$'])
  | (_, s) => s.toList

/-- How a token is written in front of any other: a name of letters needs a blank behind it. -/
def spell (a : Shape) : List Char :=
  if a.1 = .command ∧ IsWord a.2 then spelling a ++ [' '] else spelling a

instance (s : String) : Decidable (IsText s) :=
  decidable_of_iff
    (s ≠ "" ∧ (s.toList.all fun c => c ∉ stops) ∧ s.toList.head?.all fun c => Text.isBlank c = false)
    (by simp [IsText, Option.all_eq_true])

instance (s : String) : Decidable (IsSymbol s) :=
  decidable_of_iff
    (s.toList.any fun c => s = String.ofList [c] ∧ Text.isLetter c = false ∧ c ≠ '\\') <| by
    simp only [List.any_eq_true, decide_eq_true_eq]
    constructor
    · rintro ⟨c, -, h⟩
      exact ⟨c, h⟩
    · rintro ⟨c, rfl, h⟩
      exact ⟨c, by simp, rfl, h⟩

instance decidableProper : (a : Shape) → Decidable (Proper a)
  | (.text, s) => inferInstanceAs (Decidable (IsText s))
  | (.command, s) => inferInstanceAs (Decidable (IsWord s ∨ s = "\\\\" ∨ IsSymbol s ∨ s = ""))
  | (.math _, s) => inferInstanceAs (Decidable ('$' ∉ s.toList))
  | (.newline, s) => inferInstanceAs (Decidable (s = "\n"))
  | (.opener .brace, s) => inferInstanceAs (Decidable (s = "\x7b"))
  | (.opener .bracket, s) => inferInstanceAs (Decidable (s = "["))
  | (.closer .brace, s) => inferInstanceAs (Decidable (s = "\x7d"))
  | (.closer .bracket, s) => inferInstanceAs (Decidable (s = "]"))
  | (.endOfInput, _) => inferInstanceAs (Decidable False)

instance (a : Shape) : Decidable (OpenEnded a) := inferInstanceAs (Decidable (_ ∨ _))

instance (a b : Shape) : Decidable (Precedes a b) := inferInstanceAs (Decidable ((_ → _) ∧ (_ → _)))

instance decidableWellFormed : (ws : List Shape) → Decidable (WellFormed ws)
  | [] => inferInstanceAs (Decidable False)
  | [a] => inferInstanceAs (Decidable (a = (.endOfInput, "")))
  | a :: b :: rest =>
    have := decidableWellFormed (b :: rest)
    inferInstanceAs (Decidable (Proper a ∧ Precedes a b ∧ WellFormed (b :: rest)))

theorem mem_stops {c : Char} : c ∈ stops ↔ endsText c := by
  simp [stops, endsText, or_assoc]

theorem not_isLetter_of_endsText {c : Char} (h : endsText c) : Text.isLetter c = false := by
  rw [← mem_stops] at h
  simp only [stops, List.mem_cons, List.not_mem_nil, or_false] at h
  rcases h with rfl | rfl | rfl | rfl | rfl | rfl | rfl <;> decide

theorem delimiterKind?_eq_some {c : Char} {kind : TokenKind} (h : delimiterKind? c = some kind) :
    c = '\x7b' ∧ kind = .opener .brace ∨ c = '\x7d' ∧ kind = .closer .brace ∨
      c = '[' ∧ kind = .opener .bracket ∨ c = ']' ∧ kind = .closer .bracket := by
  simp only [delimiterKind?] at h
  grind

theorem proper_delimiter {c : Char} {kind : TokenKind} (h : delimiterKind? c = some kind) :
    Proper (kind, String.ofList [c]) := by
  obtain ⟨rfl, rfl⟩ | ⟨rfl, rfl⟩ | ⟨rfl, rfl⟩ | ⟨rfl, rfl⟩ := delimiterKind?_eq_some h <;> rfl

end Shape

open Shape

namespace Lexeme

variable {read rest : List Char} {a : Shape}

theorem proper (h : Lexeme read (some a) rest) : Proper a := by
  cases h with
  | newline => rfl
  | delimiter hk => exact proper_delimiter hk
  | lineBreak => exact .inr (.inl rfl)
  | name hne hl hr => exact .inl ⟨by simpa using hne, by simpa using hl⟩
  | symbol hl hc => exact .inr (.inr (.inl ⟨_, rfl, hl, hc⟩))
  | backslash => exact .inr (.inr (.inr rfl))
  | inline hne hd => simpa [Proper] using hd
  | inlineOpen hd => simpa [Proper] using hd
  | display hd => simpa [Proper] using hd
  | displayHalf hd hr => simpa [Proper] using hd
  | displayOpen hd => simpa [Proper] using hd
  | text hne hc hb hr =>
    refine ⟨by simpa using hne, ?_, by simpa using hb⟩
    intro c hm
    rw [mem_stops, hc c (by simpa using hm)]
    simp

theorem rest_of_openEnded (h : Lexeme read (some a) rest) (ho : OpenEnded a) : rest = [] := by
  cases h <;> simp_all [OpenEnded, lineBreakName]

theorem rest_of_text (h : Lexeme read (some a) rest) (ha : a.1 = .text) :
    ∀ c ∈ rest.head?, endsText c := by
  cases h with
  | text hne hc hb hr => exact hr
  | delimiter hk =>
    obtain ⟨-, rfl⟩ | ⟨-, rfl⟩ | ⟨-, rfl⟩ | ⟨-, rfl⟩ := delimiterKind?_eq_some hk <;> cases ha
  | _ => cases ha

end Lexeme

theorem Scans.nil_eq {shapes : List Shape} (h : Scans [] shapes) :
    shapes = [(.endOfInput, "")] := by
  generalize hr : ([] : List Char) = cs at h
  cases h with
  | nil => rfl
  | cons first tail => exact absurd (List.append_eq_nil_iff.mp hr.symm).1 first.read_ne_nil

theorem Scans.exists_cons {cs : List Char} {shapes : List Shape} (h : Scans cs shapes) :
    ∃ a rest, shapes = a :: rest := by
  induction h with
  | nil => exact ⟨_, [], rfl⟩
  | @cons _ _ shape _ first tail ih =>
    cases shape with
    | none => exact ih
    | some a => exact ⟨a, _, rfl⟩

theorem Scans.head_ne_text {cs : List Char} {a : Shape} {rest : List Shape}
    (h : Scans cs (a :: rest)) (hc : ∀ c ∈ cs.head?, endsText c) : a.1 ≠ .text := by
  generalize hs : a :: rest = shapes at h
  cases h with
  | nil =>
    cases hs
    simp
  | @cons read _ shape _ first tail =>
    cases first with
    | blank hb he => simp [he] at hc
    | text hne he hb hr =>
      cases read with
      | nil => exact absurd rfl hne
      | cons ch read => simp [he ch (by simp)] at hc
    | delimiter hk =>
      cases hs
      obtain ⟨-, rfl⟩ | ⟨-, rfl⟩ | ⟨-, rfl⟩ | ⟨-, rfl⟩ := delimiterKind?_eq_some hk <;> simp
    | _ =>
      cases hs
      simp

theorem Scans.wellFormed {cs : List Char} {shapes : List Shape} (h : Scans cs shapes) :
    WellFormed shapes := by
  induction h with
  | nil => rfl
  | @cons read rest shape shapes first tail ih =>
    cases shape with
    | none => exact ih
    | some a =>
      obtain ⟨b, others, rfl⟩ := tail.exists_cons
      refine ⟨first.proper, ⟨?_, ?_⟩, ih⟩
      · intro ha
        exact tail.head_ne_text (first.rest_of_text ha)
      · intro ho
        have hr : rest = [] := first.rest_of_openEnded ho
        subst hr
        cases tail.nil_eq
        rfl

namespace Shape

theorem Proper.lexeme {a : Shape} {rest : List Char} (h : Proper a)
    (ht : a.1 = .text → ∀ c ∈ rest.head?, endsText c)
    (hw : a.1 = .command → IsWord a.2 → ∀ c ∈ rest.head?, Text.isLetter c = false)
    (ho : OpenEnded a → rest = []) : Lexeme (spelling a) (some a) rest := by
  obtain ⟨kind, s⟩ := a
  cases kind with
  | text =>
    obtain ⟨hne, hc, hb⟩ := h
    have hl := Lexeme.text (by simpa using hne)
      (fun c hm => by simpa [mem_stops] using hc c hm) hb (ht rfl)
    rwa [String.ofList_toList] at hl
  | command =>
    rcases h with hword | rfl | ⟨c, rfl, hl, hc⟩ | rfl
    · have hb : s ≠ "\\\\" := by
        rintro rfl
        revert hword
        decide
      have hl := Lexeme.name (by simpa using hword.1) hword.2 (hw rfl hword)
      rw [String.ofList_toList] at hl
      rwa [spelling, if_neg hb]
    · exact .lineBreak
    · have hb : String.ofList [c] ≠ "\\\\" := by
        intro he
        have := congrArg String.toList he
        simp at this
      rw [spelling, if_neg hb, String.toList_ofList]
      exact .symbol hl hc
    · rw [ho (.inl rfl)]
      exact .backslash
  | math display =>
    cases display with
    | true =>
      have hl : Lexeme _ _ rest := .display h
      rwa [String.ofList_toList] at hl
    | false =>
      by_cases he : s = ""
      · subst he
        rw [ho (.inr rfl)]
        exact .inlineOpen (by simp)
      · have hl : Lexeme _ _ rest := .inline (by simpa using he) h
        rw [String.ofList_toList] at hl
        rwa [spelling, if_neg he]
  | newline =>
    cases h
    exact .newline
  | opener d =>
    cases d with
    | brace =>
      cases h
      exact .delimiter rfl
    | bracket =>
      cases h
      exact .delimiter rfl
  | closer d =>
    cases d with
    | brace =>
      cases h
      exact .delimiter rfl
    | bracket =>
      cases h
      exact .delimiter rfl
  | endOfInput => cases h

theorem WellFormed.head_eq_end {b : Shape} {rest : List Shape} (h : WellFormed (b :: rest))
    (hb : b.1 = .endOfInput) : b = (.endOfInput, "") ∧ rest = [] := by
  cases rest with
  | nil => exact ⟨h, rfl⟩
  | cons c rest =>
    obtain ⟨kind, s⟩ := b
    cases hb
    exact h.1.elim

theorem spell_head {b : Shape} (h : Proper b) (hb : b.1 ≠ .text) :
    ∃ c cs, spell b = c :: cs ∧ endsText c := by
  obtain ⟨kind, s⟩ := b
  have hs : ∃ c cs, spelling (kind, s) = c :: cs ∧ endsText c := by
    cases kind with
    | text => exact absurd rfl hb
    | command =>
      rw [spelling]
      split <;> exact ⟨'\\', _, rfl, rfl⟩
    | math display =>
      cases display with
      | true => exact ⟨'$', _, rfl, rfl⟩
      | false =>
        rw [spelling]
        split <;> exact ⟨'$', _, rfl, rfl⟩
    | newline =>
      cases h
      exact ⟨_, _, rfl, rfl⟩
    | opener d =>
      cases d <;> cases h <;> exact ⟨_, _, rfl, rfl⟩
    | closer d =>
      cases d <;> cases h <;> exact ⟨_, _, rfl, rfl⟩
    | endOfInput => cases h
  obtain ⟨c, cs, he, hc⟩ := hs
  rw [spell, he]
  split
  · exact ⟨c, cs ++ [' '], rfl, hc⟩
  · exact ⟨c, cs, rfl, hc⟩

theorem WellFormed.spell_head {b : Shape} {rest : List Shape} (h : WellFormed (b :: rest))
    (hb : b.1 ≠ .text) : ∀ c ∈ ((b :: rest).flatMap spell).head?, endsText c := by
  cases rest with
  | nil =>
    cases h
    simp [spell, spelling]
  | cons a rest =>
    obtain ⟨c, cs, hs, hc⟩ := Shape.spell_head h.1 hb
    simpa [hs] using hc

theorem WellFormed.scans {shapes : List Shape} (h : WellFormed shapes) :
    Scans (shapes.flatMap spell) shapes := by
  match shapes, h with
  | [a], h =>
    cases h
    exact .nil
  | a :: b :: rest, ⟨hp, hab, hrest⟩ =>
    have ih := WellFormed.scans hrest
    have ht : a.1 = .text → ∀ c ∈ ((b :: rest).flatMap spell).head?, endsText c :=
      fun ha => hrest.spell_head (hab.1 ha)
    have ho : OpenEnded a → (b :: rest).flatMap spell = [] := by
      intro hopen
      obtain ⟨rfl, rfl⟩ := hrest.head_eq_end (hab.2 hopen)
      rfl
    rw [List.flatMap_cons, spell]
    split
    · rename_i hw
      have hopen : ¬ OpenEnded a := by
        rintro (rfl | rfl)
        · exact hw.2.1 rfl
        · cases hw.1
      have hl : Lexeme (spelling a) (some a) (' ' :: (b :: rest).flatMap spell) :=
        hp.lexeme (fun ha => by rw [hw.1] at ha; cases ha) (fun _ _ => by simp; decide)
          (fun hc => absurd hc hopen)
      have hs : Scans ([' '] ++ (b :: rest).flatMap spell) (b :: rest) :=
        .cons (.blank (by decide) (by decide)) ih
      rw [List.append_assoc]
      exact .cons hl hs
    · rename_i hw
      exact .cons (hp.lexeme ht (fun ha hword => absurd ⟨ha, hword⟩ hw) ho) ih

end Shape

/-- The shapes of the tokens of a text are well formed, and every well-formed sequence of shapes is
that of the tokens of the text that spells it. -/
theorem tokenize_shapes :
    (∀ text, WellFormed ((tokenize text).map Token.shape)) ∧
      ∀ shapes, WellFormed shapes →
        (tokenize (String.ofList (shapes.flatMap spell))).map Token.shape = shapes := by
  constructor
  · intro text
    exact (scans_iff.mpr rfl).wellFormed
  · intro shapes h
    apply scans_iff.mp
    rw [String.toList_ofList]
    exact h.scans

def Shape.mixed : List Shape :=
  [(.command, "b"), (.text, "a b"), (.newline, "\n"), (.math true, ""), (.math false, "x"),
    (.command, "\\\\"), (.opener .brace, "\x7b"), (.command, "\x7b"), (.closer .brace, "\x7d"),
    (.math false, ""), (.endOfInput, "")]

theorem tokenize_shapes_mixed :
    WellFormed mixed ∧ String.ofList (mixed.flatMap spell) = "\\b a b\n$$$$$x$\\\\\x7b\\\x7b\x7d$" ∧
      (tokenize "\\b a b\n$$$$$x$\\\\\x7b\\\x7b\x7d$").map Token.shape = mixed := by
  have hm : WellFormed mixed := by decide +kernel
  have hs : String.ofList (mixed.flatMap spell) = "\\b a b\n$$$$$x$\\\\\x7b\\\x7b\x7d$" := by
    decide +kernel
  refine ⟨hm, hs, ?_⟩
  rw [← hs]
  exact tokenize_shapes.2 mixed hm

end TexHtml
