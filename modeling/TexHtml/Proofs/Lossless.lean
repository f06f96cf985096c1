import TexHtml.Proofs.Placement

namespace TexHtml

namespace Lossless

def IsGap (cs : List Char) : Prop := ∀ c ∈ cs, Text.isBlank c ∧ c ≠ '\n'

/-- The lexeme in front of `after` is a way to write the token. Math may lack some of the dollar
signs that close it. -/
def Spells (t : Token) (lexeme after : List Char) : Prop :=
  match t.kind with
  | .command =>
    lexeme = if t.content = lineBreakName then ['\\', '\\'] else '\\' :: t.content.toList
  | .math false =>
    lexeme = ['$'] ++ t.content.toList ++ ['$'] ∨ (lexeme = ['$'] ++ t.content.toList ∧ after = [])
  | .math true =>
    lexeme = ['$', '$'] ++ t.content.toList ++ ['$', '$'] ∨
      (lexeme = ['$', '$'] ++ t.content.toList ++ ['$'] ∧ after.head? ≠ some '$') ∨
      (lexeme = ['$', '$'] ++ t.content.toList ∧ after = [])
  | .endOfInput => False
  | _ => lexeme = t.content.toList

structure Piece where
  gap : List Char
  lexeme : List Char
  token : Token

def written (pieces : List Piece) : List Char := pieces.flatMap fun x => x.gap ++ x.lexeme

theorem written_cons (x : Piece) (pieces : List Piece) :
    written (x :: pieces) = x.gap ++ x.lexeme ++ written pieces := rfl

theorem spells_of_delimiter {c : Char} {kind : TokenKind} (h : delimiterKind? c = some kind)
    (p : Place) (after : List Char) : Spells (Shape.place p (kind, String.ofList [c])) [c] after := by
  obtain ⟨rfl, rfl⟩ | ⟨rfl, rfl⟩ | ⟨rfl, rfl⟩ | ⟨rfl, rfl⟩ := Shape.delimiterKind?_eq_some h <;>
    simp [Spells, Shape.place]

theorem spells_of_command {cs : List Char} (h : cs ≠ ['\\', '\\']) (p : Place) (after : List Char) :
    Spells (Shape.place p (.command, String.ofList cs)) ('\\' :: cs) after := by
  have hb : String.ofList cs ≠ lineBreakName := by
    intro he
    apply h
    simpa [lineBreakName] using congrArg String.toList he
  simp only [Spells, Shape.place, if_neg hb, String.toList_ofList]

theorem spells_of_lexeme {read rest : List Char} {a : Shape} (h : Lexeme read (some a) rest)
    (p : Place) : Spells (a.place p) read rest := by
  cases h with
  | newline => simp [Spells, Shape.place]
  | delimiter hk => exact spells_of_delimiter hk p rest
  | lineBreak => simp [Spells, Shape.place]
  | @name cs _ hne hl hr =>
    apply spells_of_command
    rintro rfl
    exact absurd (hl '\\' (by simp)) (by decide)
  | symbol hl hc => exact spells_of_command (by simp) p rest
  | backslash => exact spells_of_command (by simp : ([] : List Char) ≠ ['\\', '\\']) p []
  | inline hne hd => simp [Spells, Shape.place]
  | inlineOpen hd => simp [Spells, Shape.place]
  | display hd => simp [Spells, Shape.place]
  | displayHalf hd hr => simp [Spells, Shape.place, hr]
  | displayOpen hd => simp [Spells, Shape.place]
  | text hne hc hb hr => simp [Spells, Shape.place]

theorem isGap_of_lexeme {read rest : List Char} (h : Lexeme read none rest) : IsGap read := by
  cases h with
  | blank hb hc =>
    obtain ⟨-, -, hn, -⟩ := endsText_eq_false_iff.mp hc
    simpa [IsGap, hb] using hn

inductive Laid : Nat → List Piece → List Char → Prop
  | nil {n : Nat} {rest : List Char} : Laid n [] rest
  | cons {n : Nat} {x : Piece} {pieces : List Piece} {rest : List Char} (hg : IsGap x.gap)
      (hne : x.lexeme ≠ []) (hn : x.token.location.offset = (n + x.gap.length : Nat))
      (hs : Spells x.token x.lexeme (written pieces ++ rest))
      (tail : Laid (n + (x.gap ++ x.lexeme).length) pieces rest) : Laid n (x :: pieces) rest

/-- Blanks that have been read already, back to the offset `n`, are the beginning of the gap in front
of the next token. -/
theorem exists_pieces {p : Place} {read rest : List Char} {ts : List Token}
    (h : Reads p read ts rest) {gap : List Char} (hg : IsGap gap) {n : Nat}
    (hn : p.offset = n + gap.length) :
    ∃ pieces last, gap ++ read = written pieces ++ last ∧ ts = pieces.map Piece.token ∧
      IsGap last ∧ Laid n pieces (last ++ rest) := by
  induction h generalizing gap n with
  | nil => exact ⟨[], gap, by simp [written], rfl, hg, .nil⟩
  | @cons p read more rest shape ts first tail ih =>
    cases shape with
    | none =>
      -- the blank joins the gap that is growing
      have hg' : IsGap (gap ++ read) := List.forall_mem_append.mpr ⟨hg, isGap_of_lexeme first⟩
      have hn' : (p.afterAll read).offset = n + (gap ++ read).length := by
        rw [Place.offset_afterAll, hn, List.length_append]
        omega
      obtain ⟨pieces, last, hw, hts, hl, hlaid⟩ := ih hg' hn'
      exact ⟨pieces, last, by rw [← hw, List.append_assoc], hts, hl, hlaid⟩
    | some a =>
      have hn' : (p.afterAll read).offset = n + (gap ++ read).length + ([] : List Char).length := by
        rw [Place.offset_afterAll, hn, List.length_append, List.length_nil]
        omega
      obtain ⟨pieces, last, hw, hts, hl, hlaid⟩ := ih (by simp [IsGap]) hn'
      rw [List.nil_append] at hw
      refine ⟨⟨gap, read, a.place p⟩ :: pieces, last, ?_, ?_, hl, ?_⟩
      · rw [written_cons, hw]
        simp only [List.append_assoc]
      · rw [hts]
        rfl
      · refine .cons hg first.read_ne_nil (congrArg Int.ofNat hn) ?_ hlaid
        rw [← List.append_assoc, ← hw]
        exact spells_of_lexeme first p

theorem Laid.split {n : Nat} {before after : List Piece} {x : Piece} {rest : List Char}
    (h : Laid n (before ++ x :: after) rest) :
    IsGap x.gap ∧ x.token.location.offset = (n + (written before ++ x.gap).length : Nat) ∧
      Spells x.token x.lexeme (written after ++ rest) := by
  induction before generalizing n with
  | nil =>
    cases h with
    | cons hg hne hn hs tail => exact ⟨hg, hn, hs⟩
  | cons y before ih =>
    cases h with
    | cons hg hne hn hs tail =>
      obtain ⟨hg', hn', hs'⟩ := ih tail
      refine ⟨hg', ?_, hs'⟩
      rw [hn', written_cons]
      simp only [List.length_append]
      omega

theorem Laid.offset_le {n : Nat} {pieces : List Piece} {rest : List Char} (h : Laid n pieces rest) :
    ∀ x ∈ pieces, (n : Int) ≤ x.token.location.offset := by
  induction h with
  | nil => simp
  | cons hg hne hn hs tail ih =>
    refine List.forall_mem_cons.mpr ⟨by omega, ?_⟩
    intro y hy
    have := ih y hy
    omega

theorem Laid.increasing {n : Nat} {pieces : List Piece} {rest : List Char}
    (h : Laid n pieces rest) :
    pieces.Pairwise fun x y => x.token.location.offset < y.token.location.offset := by
  induction h with
  | nil => exact .nil
  | @cons n x pieces rest hg hne hn hs tail ih =>
    refine .cons ?_ ih
    intro y hy
    have hpos : 0 < x.lexeme.length := List.length_pos_iff.mpr hne
    have hle := tail.offset_le y hy
    rw [List.length_append] at hle
    omega

/-- A text is made of one piece for each of its tokens and a last gap. Every token but the end of the
input is spelled at the offset that it names, and the end of the input stands behind all
characters. -/
theorem tokenize_lossless (text : String) :
    ∃ (pieces : List Piece) (last : List Char) (e : Token),
      text.toList = written pieces ++ last ∧
      tokenize text = pieces.map Piece.token ++ [e] ∧
      (e.kind = .endOfInput ∧ e.location.offset = text.length) ∧
      IsGap last ∧
      (∀ (before : List Piece) (x : Piece) (after : List Piece), pieces = before ++ x :: after →
        IsGap x.gap ∧ x.token.location.offset = (written before ++ x.gap).length ∧
          Spells x.token x.lexeme (written after ++ last)) ∧
      pieces.Pairwise fun x y => x.token.location.offset < y.token.location.offset := by
  obtain ⟨ts, hts⟩ := Reads.exists_of_text .start text.toList
  have hg : IsGap [] := by simp [IsGap]
  obtain ⟨pieces, last, hw, hp, hl, hlaid⟩ := exists_pieces hts hg (n := 0) rfl
  rw [List.append_nil] at hlaid
  refine ⟨pieces, last, endToken (Place.start.afterAll text.toList), hw, ?_, ⟨rfl, ?_⟩, hl, ?_,
    hlaid.increasing⟩
  · rw [hts.tokenize_eq, hp]
  · have ho := Place.offset_afterAll .start text.toList
    rw [String.length_toList, Place.start, Nat.zero_add] at ho
    exact congrArg Int.ofNat ho
  · rintro before x after rfl
    simpa using hlaid.split

end Lossless

end TexHtml
