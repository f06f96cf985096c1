import TexHtml.Token.Scan

namespace TexHtml

abbrev Shape := TokenKind × String

def Token.shape (t : Token) : Shape := (t.kind, t.content)

/-- The characters that one step reads, the shape of the token that they give, and the characters
behind them. -/
inductive Lexeme : List Char → Option Shape → List Char → Prop
  | blank {c : Char} {rest : List Char} (hb : Text.isBlank c) (hc : endsText c = false) :
      Lexeme [c] none rest
  | newline {rest : List Char} : Lexeme ['\n'] (some (.newline, "\n")) rest
  | delimiter {c : Char} {kind : TokenKind} {rest : List Char} (hk : delimiterKind? c = some kind) :
      Lexeme [c] (some (kind, String.ofList [c])) rest
  | lineBreak {rest : List Char} : Lexeme ['\\', '\\'] (some (.command, lineBreakName)) rest
  | name {cs rest : List Char} (hne : cs ≠ []) (hl : ∀ c ∈ cs, Text.isLetter c)
      (hr : ∀ c ∈ rest.head?, Text.isLetter c = false) :
      Lexeme ('\\' :: cs) (some (.command, String.ofList cs)) rest
  | symbol {c : Char} {rest : List Char} (hl : Text.isLetter c = false) (hc : c ≠ '\\') :
      Lexeme ['\\', c] (some (.command, String.ofList [c])) rest
  | backslash : Lexeme ['\\'] (some (.command, "")) []
  | inline {cs rest : List Char} (hne : cs ≠ []) (hd : '$' ∉ cs) :
      Lexeme ('$' :: (cs ++ ['$'])) (some (.math false, String.ofList cs)) rest
  | inlineOpen {cs : List Char} (hd : '$' ∉ cs) :
      Lexeme ('$' :: cs) (some (.math false, String.ofList cs)) []
  | display {cs rest : List Char} (hd : '$' ∉ cs) :
      Lexeme ('$' :: '$' :: (cs ++ ['$', '$'])) (some (.math true, String.ofList cs)) rest
  | displayHalf {cs rest : List Char} (hd : '$' ∉ cs) (hr : rest.head? ≠ some '$') :
      Lexeme ('$' :: '$' :: (cs ++ ['$'])) (some (.math true, String.ofList cs)) rest
  | displayOpen {cs : List Char} (hd : '$' ∉ cs) :
      Lexeme ('$' :: '$' :: cs) (some (.math true, String.ofList cs)) []
  | text {cs rest : List Char} (hne : cs ≠ []) (hc : ∀ c ∈ cs, endsText c = false)
      (hb : ∀ c ∈ cs.head?, Text.isBlank c = false) (hr : ∀ c ∈ rest.head?, endsText c) :
      Lexeme cs (some (.text, String.ofList cs)) rest

section Runs

variable {p : Char → Bool} {cs rest : List Char}

theorem takeWhile_run (hc : ∀ c ∈ cs, p c) (hr : ∀ c ∈ rest.head?, p c = false) :
    (cs ++ rest).takeWhile p = cs := by
  rw [List.takeWhile_append_of_pos hc]
  cases rest with
  | nil => simp
  | cons c rest => simp [hr c rfl]

theorem dropWhile_run (hc : ∀ c ∈ cs, p c) (hr : ∀ c ∈ rest.head?, p c = false) :
    (cs ++ rest).dropWhile p = rest := by
  rw [List.dropWhile_append_of_pos hc]
  cases rest with
  | nil => rfl
  | cons c rest => simp [hr c rfl]

theorem exists_run (p : Char → Bool) (cs : List Char) :
    ∃ us vs, cs = us ++ vs ∧ (∀ c ∈ us, p c) ∧ ∀ c ∈ vs.head?, p c = false := by
  induction cs with
  | nil => exact ⟨[], [], rfl, by simp, by simp⟩
  | cons c cs ih =>
    cases hp : p c with
    | false => exact ⟨[], c :: cs, rfl, by simp, by simp [hp]⟩
    | true =>
      obtain ⟨us, vs, rfl, hu, hv⟩ := ih
      exact ⟨c :: us, vs, rfl, by simpa [hp] using hu, hv⟩

end Runs

theorem endsText_eq_false_iff {c : Char} : endsText c = false ↔
    c ≠ '\\' ∧ c ≠ '$' ∧ c ≠ '\n' ∧ delimiterKind? c = none := by
  constructor
  · intro h
    simp only [endsText, Bool.or_eq_false_iff, decide_eq_false_iff_not] at h
    simp only [delimiterKind?]
    grind
  · rintro ⟨h1, h2, h3, h4⟩
    exact Cursor.endsText_eq_false h1 h2 h3 h4

namespace Cursor

def Steps (c : Cursor) (shape : Option Shape) (rest : List Char) : Prop :=
  ∃ ch us, c.rest = ch :: us ∧ (c.step ch).1.map Token.shape = shape ∧ (c.step ch).2.rest = rest

variable {c : Cursor} {ch : Char} {cs rest : List Char}

theorem steps_single (h : c.rest = ch :: rest) (hb : ch ≠ '\\') (hd : ch ≠ '$')
    {kind : TokenKind} (hk : (if ch = '\n' then some .newline else delimiterKind? ch) = some kind) :
    c.Steps (some (kind, String.ofList [ch])) rest := by
  refine ⟨ch, rest, h, ?_⟩
  rw [step, if_neg hb, if_neg hd]
  by_cases hn : ch = '\n'
  · rw [if_pos hn] at hk ⊢
    cases hk
    exact ⟨rfl, by simp [skip, h]⟩
  · rw [if_neg hn] at hk ⊢
    rw [hk]
    exact ⟨rfl, by simp [skip, h]⟩

theorem steps_blank (h : c.rest = ch :: rest) (hb : Text.isBlank ch) (hc : endsText ch = false) :
    c.Steps none rest := by
  obtain ⟨h1, h2, h3, h4⟩ := endsText_eq_false_iff.mp hc
  refine ⟨ch, rest, h, ?_⟩
  simp [step, h1, h2, h3, h4, hb, skip, h]

theorem steps_text (h : c.rest = cs ++ rest) (hne : cs ≠ []) (hc : ∀ c ∈ cs, endsText c = false)
    (hb : ∀ c ∈ cs.head?, Text.isBlank c = false) (hr : ∀ c ∈ rest.head?, endsText c) :
    c.Steps (some (.text, String.ofList cs)) rest := by
  cases cs with
  | nil => exact absurd rfl hne
  | cons ch cs =>
    obtain ⟨h1, h2, h3, h4⟩ := endsText_eq_false_iff.mp (hc ch (by simp))
    have hb' : Text.isBlank ch = false := hb ch rfl
    have ht : c.rest.takeWhile (fun ch => !endsText ch) = ch :: cs := by
      rw [h]
      exact takeWhile_run (by simpa using hc) (by simpa using hr)
    have hd : c.rest.dropWhile (fun ch => !endsText ch) = rest := by
      rw [h]
      exact dropWhile_run (by simpa using hc) (by simpa using hr)
    refine ⟨ch, cs ++ rest, h, ?_⟩
    simp [step, h1, h2, h3, h4, hb', textRun, span, ht, hd, token, Token.shape]

theorem steps_command (h : c.rest = '\\' :: cs) {shape : Shape}
    (hs : c.command.1.shape = shape) (hr : c.command.2.rest = rest) : c.Steps (some shape) rest := by
  refine ⟨'\\', cs, h, ?_⟩
  simp [step, hs, hr]

theorem steps_math (h : c.rest = '$' :: cs) {shape : Shape}
    (hs : c.math.1.shape = shape) (hr : c.math.2.rest = rest) : c.Steps (some shape) rest := by
  refine ⟨'$', cs, h, ?_⟩
  simp [step, hs, hr]

theorem command_name (h : c.rest = '\\' :: (cs ++ rest)) (hne : cs ≠ [])
    (hl : ∀ c ∈ cs, Text.isLetter c) (hr : ∀ c ∈ rest.head?, Text.isLetter c = false) :
    c.command.1.shape = (.command, String.ofList cs) ∧ c.command.2.rest = rest := by
  have hb : (c.skip 1).rest = cs ++ rest := by simp [skip, h]
  have ht := takeWhile_run hl hr
  have hd := dropWhile_run hl hr
  cases cs with
  | nil => exact absurd rfl hne
  | cons ch cs =>
    have hch : Text.isLetter ch := hl ch (by simp)
    have hbs : ch ≠ '\\' := by
      rintro rfl
      revert hch
      decide
    rw [command]
    simp only [hb, List.cons_append, if_neg hbs, if_pos hch, span, token, Token.shape]
    simp only [List.cons_append] at ht hd
    rw [ht, hd]
    exact ⟨rfl, rfl⟩

theorem skipIf_rest (c : Cursor) (ch : Char) :
    (c.skipIf ch).rest = if c.rest.head? = some ch then c.rest.tail else c.rest := by
  rw [skipIf]
  split <;> simp [skip]

theorem ne_dollar_run {after : List Char} (hd : '$' ∉ cs) (ha : ∀ ch ∈ after.head?, ch = '$') :
    (cs ++ after).takeWhile (· != '$') = cs ∧ (cs ++ after).dropWhile (· != '$') = after := by
  have hc : ∀ ch ∈ cs, (ch != '$') = true := by
    intro ch hch
    simp only [bne_iff_ne]
    rintro rfl
    exact hd hch
  have hr : ∀ ch ∈ after.head?, (ch != '$') = false := by
    intro ch hch
    simp [ha ch hch]
  exact ⟨takeWhile_run hc hr, dropWhile_run hc hr⟩

theorem math_inline (after : List Char) (h : c.rest = '$' :: (cs ++ after))
    (hh : (cs ++ after).head? ≠ some '$') (hd : '$' ∉ cs) (ha : ∀ ch ∈ after.head?, ch = '$') :
    c.math.1.shape = (.math false, String.ofList cs) ∧
      c.math.2.rest = if after.head? = some '$' then after.tail else after := by
  have hb : (c.skip 1).rest = cs ++ after := by simp [skip, h]
  obtain ⟨ht, hr⟩ := ne_dollar_run hd ha
  rw [math]
  simp only [hb, if_neg hh, skipIf_rest, span, ht, hr, token, Token.shape, and_self]

theorem math_display (after : List Char) (h : c.rest = '$' :: '$' :: (cs ++ after))
    (hd : '$' ∉ cs) (ha : ∀ ch ∈ after.head?, ch = '$') :
    c.math.1.shape = (.math true, String.ofList cs) ∧
      c.math.2.rest =
        let behind := if after.head? = some '$' then after.tail else after
        if behind.head? = some '$' then behind.tail else behind := by
  have hb : (c.skip 1).rest = '$' :: (cs ++ after) := by simp [skip, h]
  have hb' : ((c.skip 1).skip 1).rest = cs ++ after := by simp [skip, h]
  obtain ⟨ht, hr⟩ := ne_dollar_run hd ha
  rw [math]
  simp only [hb, hb', List.head?_cons, if_true, skipIf_rest, span, ht, hr, token, Token.shape,
    and_self]

theorem steps_of_lexeme {read : List Char} {shape : Option Shape} (hl : Lexeme read shape rest)
    (h : c.rest = read ++ rest) : c.Steps shape rest := by
  cases hl with
  | blank hb hc => exact steps_blank h hb hc
  | newline => exact steps_single h (by decide) (by decide) rfl
  | @delimiter ch kind _ hk =>
    have hb : ch ≠ '\\' := by rintro rfl; cases hk
    have hd : ch ≠ '$' := by rintro rfl; cases hk
    have hn : ch ≠ '\n' := by rintro rfl; cases hk
    exact steps_single h hb hd (by rw [if_neg hn, hk])
  | lineBreak =>
    exact steps_command h (by simp [command, skip, h, token, Token.shape])
      (by simp [command, skip, h])
  | name hne hl hr =>
    obtain ⟨hs, hrest⟩ := command_name h hne hl hr
    exact steps_command h hs hrest
  | symbol hl hc =>
    exact steps_command h (by simp [command, skip, h, hl, hc, token, Token.shape])
      (by simp [command, skip, h, hl, hc])
  | backslash =>
    exact steps_command h (by simp [command, skip, h, token, Token.shape])
      (by simp [command, skip, h])
  | @inline cs _ hne hd =>
    have hh : (cs ++ '$' :: rest).head? ≠ some '$' := by
      cases cs with
      | nil => exact absurd rfl hne
      | cons ch cs => simpa using fun he : ch = '$' => hd (by simp [he])
    obtain ⟨hs, hrest⟩ := math_inline ('$' :: rest) (by simpa using h) hh hd (by simp)
    exact steps_math h hs hrest
  | @inlineOpen cs hd =>
    have hh : (cs ++ []).head? ≠ some '$' := by
      cases cs with
      | nil => simp
      | cons ch cs => simpa using fun he : ch = '$' => hd (by simp [he])
    obtain ⟨hs, hrest⟩ := math_inline [] h hh hd (by simp)
    exact steps_math h hs hrest
  | @display cs _ hd =>
    obtain ⟨hs, hrest⟩ := math_display ('$' :: '$' :: rest) (by simpa using h) hd (by simp)
    exact steps_math h hs hrest
  | @displayHalf cs _ hd hr =>
    obtain ⟨hs, hrest⟩ := math_display ('$' :: rest) (by simpa using h) hd (by simp)
    exact steps_math h hs (by simpa [hr] using hrest)
  | displayOpen hd =>
    obtain ⟨hs, hrest⟩ := math_display [] h hd (by simp)
    exact steps_math h hs hrest
  | text hne hc hb hr => exact steps_text h hne hc hb hr

end Cursor

theorem Lexeme.exists_command (rest : List Char) :
    ∃ read shape tail, Lexeme read shape tail ∧ '\\' :: rest = read ++ tail := by
  cases rest with
  | nil => exact ⟨['\\'], _, [], .backslash, rfl⟩
  | cons ch rest =>
    by_cases hb : ch = '\\'
    · subst hb
      exact ⟨['\\', '\\'], _, rest, .lineBreak, rfl⟩
    · by_cases hl : Text.isLetter ch
      · obtain ⟨us, vs, rfl, hu, hv⟩ := exists_run Text.isLetter rest
        exact ⟨'\\' :: ch :: us, _, vs, .name (by simp) (by simpa [hl] using hu) hv, rfl⟩
      · exact ⟨['\\', ch], _, rest, .symbol (by simpa using hl) hb, rfl⟩

theorem exists_dollar_run (rest : List Char) :
    ∃ us vs, rest = us ++ vs ∧ '$' ∉ us ∧ (vs = [] ∨ ∃ ws, vs = '$' :: ws) := by
  obtain ⟨us, vs, rfl, hu, hv⟩ := exists_run (· != '$') rest
  refine ⟨us, vs, rfl, fun hm => by simpa using hu _ hm, ?_⟩
  cases vs with
  | nil => exact .inl rfl
  | cons ch ws =>
    have hch : ch = '$' := by simpa using hv ch rfl
    exact .inr ⟨ws, by rw [hch]⟩

theorem Lexeme.exists_display (rest : List Char) :
    ∃ read shape tail, Lexeme read shape tail ∧ '$' :: '$' :: rest = read ++ tail := by
  obtain ⟨us, vs, rfl, hu, rfl | ⟨ws, rfl⟩⟩ := exists_dollar_run rest
  · exact ⟨'$' :: '$' :: us, _, [], .displayOpen hu, by simp⟩
  · by_cases hw : ws.head? = some '$'
    · obtain ⟨tail, rfl⟩ := List.head?_eq_some_iff.mp hw
      exact ⟨'$' :: '$' :: (us ++ ['$', '$']), _, tail, .display hu, by simp⟩
    · exact ⟨'$' :: '$' :: (us ++ ['$']), _, ws, .displayHalf hu hw, by simp⟩

theorem Lexeme.exists_inline (rest : List Char) (h : rest.head? ≠ some '$') :
    ∃ read shape tail, Lexeme read shape tail ∧ '$' :: rest = read ++ tail := by
  obtain ⟨us, vs, rfl, hu, rfl | ⟨ws, rfl⟩⟩ := exists_dollar_run rest
  · exact ⟨'$' :: us, _, [], .inlineOpen hu, by simp⟩
  · have hne : us ≠ [] := by
      rintro rfl
      exact h rfl
    exact ⟨'$' :: (us ++ ['$']), _, ws, .inline hne hu, by simp⟩

theorem Lexeme.exists_of_cons (ch : Char) (rest : List Char) :
    ∃ read shape tail, Lexeme read shape tail ∧ ch :: rest = read ++ tail := by
  by_cases hb : ch = '\\'
  · subst hb
    exact exists_command rest
  by_cases hd : ch = '$'
  · subst hd
    by_cases hh : rest.head? = some '$'
    · obtain ⟨tail, rfl⟩ := List.head?_eq_some_iff.mp hh
      exact exists_display tail
    · exact exists_inline rest hh
  by_cases hn : ch = '\n'
  · subst hn
    exact ⟨['\n'], _, rest, .newline, rfl⟩
  cases hk : delimiterKind? ch with
  | some kind => exact ⟨[ch], _, rest, .delimiter hk, rfl⟩
  | none =>
    have he : endsText ch = false := endsText_eq_false_iff.mpr ⟨hb, hd, hn, hk⟩
    by_cases hs : Text.isBlank ch
    · exact ⟨[ch], _, rest, .blank hs he, rfl⟩
    · obtain ⟨us, vs, rfl, hu, hv⟩ := exists_run (fun ch => !endsText ch) rest
      refine ⟨ch :: us, _, vs, .text (by simp) ?_ (by simpa using hs) (by simpa using hv), rfl⟩
      simpa [he] using hu

theorem Lexeme.read_ne_nil {read rest : List Char} {shape : Option Shape}
    (h : Lexeme read shape rest) : read ≠ [] := by
  cases h <;> simp_all

inductive Scans : List Char → List Shape → Prop
  | nil : Scans [] [(.endOfInput, "")]
  | cons {read rest : List Char} {shape : Option Shape} {shapes : List Shape}
      (first : Lexeme read shape rest) (tail : Scans rest shapes) :
      Scans (read ++ rest) (shape.toList ++ shapes)

theorem exists_scans (cs : List Char) : ∃ shapes, Scans cs shapes := by
  induction hn : cs.length using Nat.strongRecOn generalizing cs with
  | ind n ih =>
    cases cs with
    | nil => exact ⟨_, .nil⟩
    | cons ch cs =>
      obtain ⟨read, shape, tail, hl, hr⟩ := Lexeme.exists_of_cons ch cs
      have hlen : tail.length < n := by
        have hpos := List.length_pos_iff.mpr hl.read_ne_nil
        rw [← hn, hr, List.length_append]
        omega
      obtain ⟨shapes, hs⟩ := ih tail.length hlen tail rfl
      rw [hr]
      exact ⟨_, .cons hl hs⟩

theorem Cursor.scan_nil {c : Cursor} (h : c.rest = []) : c.scan = ([c.token .endOfInput []], c) := by
  rw [Cursor.scan]
  split
  · rfl
  · rename_i hc
    rw [h] at hc
    cases hc

theorem Cursor.scan_cons {c : Cursor} {ch : Char} {cs : List Char} (h : c.rest = ch :: cs) :
    c.scan = ((c.step ch).1.toList ++ (c.step ch).2.scan.1, (c.step ch).2.scan.2) := by
  rw [Cursor.scan]
  split
  · rename_i hc
    rw [h] at hc
    cases hc
  · rename_i hc
    rw [h] at hc
    cases hc
    rfl

theorem Cursor.tokens_nil {c : Cursor} (h : c.rest = []) : c.tokens = [c.token .endOfInput []] := by
  rw [Cursor.tokens, scan_nil h]

theorem Cursor.tokens_cons {c : Cursor} {ch : Char} {cs : List Char} (h : c.rest = ch :: cs) :
    c.tokens = (c.step ch).1.toList ++ (c.step ch).2.tokens := by
  rw [Cursor.tokens, scan_cons h, Cursor.tokens]

theorem Scans.tokens {cs : List Char} {shapes : List Shape} (h : Scans cs shapes) (c : Cursor)
    (hc : c.rest = cs) : c.tokens.map Token.shape = shapes := by
  induction h generalizing c with
  | nil =>
    rw [Cursor.tokens_nil hc]
    rfl
  | cons first tail ih =>
    obtain ⟨ch, us, hr, hs, hrest⟩ := Cursor.steps_of_lexeme first hc
    rw [Cursor.tokens_cons hr, List.map_append, ih _ hrest, ← hs]
    cases (c.step ch).1 <;> rfl

theorem scans_iff {text : String} {shapes : List Shape} :
    Scans text.toList shapes ↔ (tokenize text).map Token.shape = shapes := by
  constructor
  · intro h
    exact h.tokens (Cursor.start text.toList) rfl
  · rintro rfl
    obtain ⟨shapes, h⟩ := exists_scans text.toList
    have hs : (tokenize text).map Token.shape = shapes := h.tokens (Cursor.start text.toList) rfl
    rw [hs]
    exact h

end TexHtml
