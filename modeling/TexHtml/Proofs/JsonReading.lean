import Mathlib.Data.List.Induction
import TexHtml.Proofs.JsonText
import TexHtml.Proofs.Keys
import TexHtml.Number.Integer

namespace TexHtml.Json

open Value

def isSpace (c : Char) : Bool := c = ' ' || c = '\t' || c = '\n' || c = '\r'

def skipSpace (s : List Char) : List Char := s.dropWhile isSpace

def unit? (s : List Char) : Option Nat :=
  if (s.take 4).length = 4 then Text.hexNumber? (s.take 4) else none

def escape? (s : List Char) : Option (Char × Nat) :=
  match s with
  | [] => none
  | 'u' :: rest =>
    match unit? rest with
    | none => none
    | some high =>
      if high.isValidChar then some (Char.ofNat high, 5)
      else
        match rest.drop 4 with
        | '\\' :: 'u' :: behind =>
          match unit? behind with
          | none => none
          | some low =>
            if high < 0xDC00 && 0xDC00 ≤ low && low < 0xE000 then
              some (Char.ofNat (0x10000 + (high - 0xD800) * 0x400 + (low - 0xDC00)), 11)
            else none
        | _ => none
  | letter :: _ => ((('/', '/') :: shortEscapes).lookup letter).map fun c => (c, 1)

def readChars (s : List Char) : Option (List Char × List Char) :=
  match s with
  | [] => none
  | c :: rest =>
    if c = '"' then some ([], rest)
    else if c = '\\' then
      match escape? rest with
      | none => none
      | some (d, width) => (readChars (rest.drop width)).map (Prod.map (d :: ·) id)
    else if c.toNat < 32 then none
    else (readChars rest).map (Prod.map (c :: ·) id)
termination_by s.length
decreasing_by
  · rw [List.length_cons, List.length_drop]
    omega
  · exact Nat.lt_succ_self _

def readDigits (s : List Char) : Option (List Char × List Char) :=
  if (s.takeWhile Char.isDigit).isEmpty then none
  else some (s.takeWhile Char.isDigit, s.dropWhile Char.isDigit)

-- A whole part has no zero in front of other digits.
def readWhole (s : List Char) : Option (List Char × List Char) :=
  match readDigits s with
  | some ('0' :: _ :: _, _) => none
  | whole => whole

def readPlaces (s : List Char) : Option (Option (List Char) × List Char) :=
  match s with
  | [] => some (none, [])
  | c :: rest =>
    if c = '.' then (readDigits rest).map (Prod.map some id) else some (none, c :: rest)

def naturalNumber (digits : List Char) : Nat := Nat.ofDigitChars 10 digits 0

def signed (negative : Bool) (n : Nat) : Int := if negative then -n else n

def readPower (s : List Char) : Option (Option Int × List Char) :=
  match s with
  | [] => some (none, [])
  | c :: rest =>
    if c = 'e' || c = 'E' then
      (readDigits (Text.sign rest).2).map
        (Prod.map (fun digits => some (signed (Text.sign rest).1 (naturalNumber digits))) id)
    else some (none, c :: rest)

-- A number is whole unless it has places or a power.
def numberValue (negative : Bool) (whole : List Char) : Option (List Char) → Option Int → Value
  | none, none => .int (signed negative (naturalNumber whole))
  | places, power =>
    .float (.ofDecimal negative (naturalNumber (whole ++ places.getD []))
      (power.getD 0 - (places.getD []).length))

def beginsNumber (c : Char) : Bool := c = '-' || c.isDigit

def readMagnitude (negative : Bool) (s : List Char) : Option (Value × List Char) := do
  let (whole, s) ← readWhole s
  let (places, s) ← readPlaces s
  let (power, s) ← readPower s
  return (numberValue negative whole places power, s)

def readNumber (s : List Char) : Option (Value × List Char) :=
  match s with
  | '-' :: rest => readMagnitude true rest
  | s => readMagnitude false s

section Parts

variable {α : Type} (part : List Char → Option (α × List Char)) (closing : Char)

def readParts : (bound : Nat) → List Char → Option (List α × List Char)
  | 0, _ => none
  | bound + 1, s =>
    match part s with
    | none => none
    | some (a, rest) =>
      match skipSpace rest with
      | [] => none
      | c :: rest =>
        if c = closing then some ([a], rest)
        else if c = ',' then (readParts bound rest).map (Prod.map (a :: ·) id)
        else none

def readBracketed (bound : Nat) (s : List Char) : Option (List α × List Char) :=
  match skipSpace s with
  | [] => none
  | c :: rest => if c = closing then some ([], rest) else readParts part closing bound (c :: rest)

end Parts

def readMember (value : List Char → Option (Value × List Char)) (s : List Char) :
    Option ((String × Value) × List Char) := do
  let rest ← Text.expect? '"' (skipSpace s)
  let (name, rest) ← readChars rest
  let rest ← Text.expect? ':' (skipSpace rest)
  let (v, rest) ← value rest
  return ((String.ofList name, v), rest)

def readWord (s : List Char) : Option (Value × List Char) :=
  match s with
  | 'n' :: 'u' :: 'l' :: 'l' :: rest => some (.null, rest)
  | 't' :: 'r' :: 'u' :: 'e' :: rest => some (.bool true, rest)
  | 'f' :: 'a' :: 'l' :: 's' :: 'e' :: rest => some (.bool false, rest)
  | _ => none

-- If a name stands twice, its last value counts.
def tableOf (fields : List (String × Value)) : Value :=
  .table (Entries.ofPairs (fields.map fun f => (.str f.1, f.2)))

def readValue : (bound : Nat) → List Char → Option (Value × List Char)
  | 0, _ => none
  | bound + 1, s =>
    match skipSpace s with
    | [] => none
    | c :: rest =>
      if beginsNumber c then readNumber (c :: rest)
      else if c = '"' then (readChars rest).map (Prod.map (fun cs => .str (String.ofList cs)) id)
      else if c = '[' then
        (readBracketed (readValue bound) ']' bound rest).map (Prod.map .list id)
      else if c = '{' then
        (readBracketed (readMember (readValue bound)) '}' bound rest).map (Prod.map tableOf id)
      else readWord (c :: rest)

def read (text : String) : Option Value :=
  match readValue text.length text.toList with
  | none => none
  | some (v, rest) => if (skipSpace rest).isEmpty then some v else none

theorem skipSpace_cons {c : Char} (hc : isSpace c = false) (rest : List Char) :
    skipSpace (c :: rest) = c :: rest :=
  List.dropWhile_cons_of_neg (by simp [hc])

section Blanks

variable {blanks : List Char} (hblanks : blanks.all isSpace)

include hblanks

theorem skipSpace_append (s : List Char) : skipSpace (blanks ++ s) = skipSpace s :=
  List.dropWhile_append_of_pos (List.all_eq_true.mp hblanks)

theorem skipSpace_append_cons {c : Char} (hc : isSpace c = false) (rest : List Char) :
    skipSpace (blanks ++ c :: rest) = c :: rest := by
  rw [skipSpace_append hblanks, skipSpace_cons hc]

theorem readValue_append (bound : Nat) (s : List Char) :
    readValue bound (blanks ++ s) = readValue bound s := by
  cases bound with
  | zero => rfl
  | succ bound => rw [readValue, skipSpace_append hblanks, readValue]

theorem readMember_append (value : List Char → Option (Value × List Char)) (s : List Char) :
    readMember value (blanks ++ s) = readMember value s := by
  rw [readMember, skipSpace_append hblanks, readMember]

end Blanks

theorem escape?_letter {letter c : Char} (h : (letter, c) ∈ shortEscapes) (rest : List Char) :
    escape? (letter :: rest) = some (c, 1) := by
  simp only [shortEscapes, List.mem_cons, Prod.mk.injEq, List.not_mem_nil, or_false] at h
  rcases h with ⟨rfl, rfl⟩ | ⟨rfl, rfl⟩ | ⟨rfl, rfl⟩ | ⟨rfl, rfl⟩ | ⟨rfl, rfl⟩ | ⟨rfl, rfl⟩ |
    ⟨rfl, rfl⟩ <;> rfl

theorem escape?_unit {n : Nat} (h : n < 32) (rest : List Char) :
    escape? ('u' :: (Text.hex 4 n ++ rest)) = some (Char.ofNat n, 5) := by
  have hdigits : ∀ n < 32, (Text.hex 4 n).length = 4 ∧ Text.hexNumber? (Text.hex 4 n) = some n := by
    decide
  obtain ⟨hlength, hnumber⟩ := hdigits n h
  have hunit : unit? (Text.hex 4 n ++ rest) = some n := by
    rw [unit?, List.take_left' hlength, if_pos hlength, hnumber]
  rw [escape?, hunit]
  exact if_pos (.inl (by omega))

theorem readChars_escapeChar (c : Char) (rest : List Char) :
    readChars (escapeChar false c ++ rest) = (readChars rest).map (Prod.map (c :: ·) id) := by
  rcases escapeChar_cases c with ⟨letter, hmem, heq⟩ | ⟨hcontrol, heq⟩ | ⟨hquote, hslash, hlow, heq⟩
  · rw [heq, List.cons_append, readChars, if_neg (by decide), if_pos rfl, List.singleton_append,
      escape?_letter hmem]
    rfl
  · have hlength : ∀ n < 32, (Text.hex 4 n).length = 4 := by decide
    have hdrop : ('u' :: (Text.hex 4 c.toNat ++ rest)).drop 5 = rest := by
      rw [List.drop_succ_cons, List.drop_left' (hlength _ hcontrol)]
    rw [heq, unitEscape, List.cons_append, List.cons_append, readChars, if_neg (by decide),
      if_pos rfl, escape?_unit hcontrol]
    dsimp only
    rw [hdrop, Char.ofNat_toNat]
  · rw [heq, List.singleton_append, readChars, if_neg hquote, if_neg hslash,
      if_neg (Nat.not_lt.mpr hlow)]

theorem readChars_escaped (cs rest : List Char) :
    readChars (cs.flatMap (escapeChar false) ++ '"' :: rest) = some (cs, rest) := by
  induction cs with
  | nil => rw [List.flatMap_nil, List.nil_append, readChars, if_pos rfl]
  | cons c cs ih =>
    rw [List.flatMap_cons, List.append_assoc, readChars_escapeChar, ih]
    rfl

def endsValue (c : Char) : Bool := isSpace c || c = ',' || c = ']' || c = '}'

def Stops (rest : List Char) : Prop := rest.head?.all endsValue

theorem stops_append {blanks : List Char} (hblanks : blanks.all isSpace) {c : Char}
    (hc : endsValue c) (rest : List Char) : Stops (blanks ++ c :: rest) := by
  cases blanks with
  | nil => exact hc
  | cons d blanks =>
    rw [List.all_cons, Bool.and_eq_true] at hblanks
    simp [Stops, endsValue, hblanks.1]

theorem of_endsValue {c : Char} (h : endsValue c) :
    beginsNumber c = false ∧ c.isDigit = false ∧ c ≠ '.' ∧ (c = 'e' || c = 'E') = false := by
  simp only [endsValue, isSpace, Bool.or_eq_true, decide_eq_true_eq, or_assoc] at h
  rcases h with rfl | rfl | rfl | rfl | rfl | rfl | rfl <;> decide

theorem isSpace_eq_false {c : Char} (h : endsValue c = false) : isSpace c = false := by
  simp only [endsValue, Bool.or_eq_false_iff] at h
  exact h.1.1.1

theorem endsValue_eq_false {c : Char} (h : beginsNumber c) : endsValue c = false := by
  refine Bool.eq_false_iff.mpr fun hends => ?_
  rw [(of_endsValue hends).1] at h
  cases h

theorem exists_toDigits {n : Nat} (h : n ≠ 0) :
    ∃ c cs, Nat.toDigits 10 n = c :: cs ∧ c ≠ '0' := by
  induction n using Nat.strongRecOn with
  | ind n ih =>
    by_cases hn : n < 10
    · have hdigit : ∀ n < 10, n ≠ 0 → n.digitChar ≠ '0' := by decide
      exact ⟨_, [], Nat.toDigits_of_lt_base hn, hdigit n hn h⟩
    · obtain ⟨c, cs, heq, hc⟩ := ih (n / 10) (by omega) (by omega)
      refine ⟨c, cs ++ [(n % 10).digitChar], ?_, hc⟩
      rw [Nat.toDigits_of_base_le (by decide) (by omega), heq, List.cons_append]

theorem exists_toString_eq_cons (n : Int) :
    ∃ c cs, (toString n).toList = c :: cs ∧ beginsNumber c := by
  rw [toList_toString]
  by_cases hn : n < 0
  · exact ⟨'-', _, congrArg (· ++ _) (if_pos hn), rfl⟩
  · obtain ⟨c, cs, hdigits⟩ := List.exists_cons_of_ne_nil (@Nat.toDigits_ne_nil n.natAbs 10)
    have hmem : c ∈ Nat.toDigits 10 n.natAbs := by simp [hdigits]
    have hdigit := Nat.isDigit_of_mem_toDigits (by decide) (by decide) hmem
    refine ⟨c, cs, ?_, by simp [beginsNumber, hdigit]⟩
    rw [if_neg hn, List.nil_append, hdigits]

section Numbers

variable {rest : List Char} (hrest : Stops rest)

include hrest

theorem readDigits_append {digits : List Char} (hne : digits ≠ []) (h : ∀ c ∈ digits, c.isDigit) :
    readDigits (digits ++ rest) = some (digits, rest) := by
  have hnone : rest.takeWhile Char.isDigit = [] ∧ rest.dropWhile Char.isDigit = rest := by
    cases rest with
    | nil => exact ⟨rfl, rfl⟩
    | cons c rest =>
      have hc : ¬ c.isDigit := by simp [(of_endsValue hrest).2.1]
      exact ⟨List.takeWhile_cons_of_neg hc, List.dropWhile_cons_of_neg hc⟩
  have htake : (digits ++ rest).takeWhile Char.isDigit = digits := by
    rw [List.takeWhile_append_of_pos h, hnone.1, List.append_nil]
  rw [readDigits, htake, List.dropWhile_append_of_pos h, hnone.2, if_neg (by simpa using hne)]

theorem readPlaces_of_stops : readPlaces rest = some (none, rest) := by
  cases rest with
  | nil => rfl
  | cons c rest => rw [readPlaces, if_neg (of_endsValue hrest).2.2.1]

theorem readPower_of_stops : readPower rest = some (none, rest) := by
  cases rest with
  | nil => rfl
  | cons c rest => rw [readPower, (of_endsValue hrest).2.2.2, if_neg Bool.false_ne_true]

theorem readWhole_toDigits (n : Nat) :
    readWhole (Nat.toDigits 10 n ++ rest) = some (Nat.toDigits 10 n, rest) := by
  have hdigits : ∀ c ∈ Nat.toDigits 10 n, c.isDigit := fun c hc =>
    Nat.isDigit_of_mem_toDigits (by decide) (by decide) hc
  rw [readWhole, readDigits_append hrest (Nat.toDigits_ne_nil) hdigits]
  split
  · rename_i c cs others heq
    have hzero := (Prod.mk.inj (Option.some.inj heq)).1
    by_cases hn : n = 0
    · subst hn
      cases hzero
    · obtain ⟨d, ds, hd, hne⟩ := exists_toDigits hn
      rw [hd] at hzero
      exact absurd (List.cons.inj hzero).1 hne
  · rfl

theorem readMagnitude_toDigits (negative : Bool) (n : Nat) :
    readMagnitude negative (Nat.toDigits 10 n ++ rest) = some (.int (signed negative n), rest) := by
  have hvalue : naturalNumber (Nat.toDigits 10 n) = n :=
    Nat.ofDigitChars_toDigits (by decide) (by decide)
  rw [readMagnitude, readWhole_toDigits hrest]
  change (readPlaces rest).bind _ = _
  rw [readPlaces_of_stops hrest]
  change (readPower rest).bind _ = _
  rw [readPower_of_stops hrest]
  change some (Value.int (signed negative (naturalNumber _)), rest) = _
  rw [hvalue]

theorem readNumber_toString (n : Int) :
    readNumber ((toString n).toList ++ rest) = some (.int n, rest) := by
  rw [toList_toString]
  by_cases hn : n < 0
  · have hsigned : signed true n.natAbs = n := by
      rw [signed, if_pos rfl]
      omega
    rw [if_pos hn, List.singleton_append, List.cons_append, readNumber,
      readMagnitude_toDigits hrest, hsigned]
  · have hsigned : signed false n.natAbs = n := by
      rw [signed, if_neg Bool.false_ne_true]
      omega
    have hminus : '-' ∉ Nat.toDigits 10 n.natAbs := fun hmem =>
      absurd (Nat.isDigit_of_mem_toDigits (by decide) (by decide) hmem) (by decide)
    -- What is left is that no sign stands in front of the digits.
    rw [if_neg hn, List.nil_append, readNumber, readMagnitude_toDigits hrest, hsigned]
    intro others heq
    obtain ⟨c, cs, hdigits⟩ := List.exists_cons_of_ne_nil (@Nat.toDigits_ne_nil n.natAbs 10)
    rw [hdigits] at hminus heq
    exact hminus (List.mem_cons.mpr (.inl (List.cons.inj heq).1.symm))

end Numbers

section Parts

variable {α : Type} {part : List Char → Option (α × List Char)} {closing : Char}

theorem readParts_append {blanks : List Char} (hskip : ∀ s, part (blanks ++ s) = part s)
    (bound : Nat) (s : List Char) :
    readParts part closing bound (blanks ++ s) = readParts part closing bound s := by
  cases bound with
  | zero => rfl
  | succ bound => rw [readParts, hskip, readParts]

variable {style : Style} (hspace : ∀ level, (newline style level).all isSpace)
  (hskip : ∀ level s, part (newline style level ++ s) = part s)
  (hclosing : closing = ']' ∨ closing = '}') {f : α → List Char}

include hclosing in
theorem of_closing : endsValue closing ∧ isSpace closing = false ∧ ',' ≠ closing := by
  rcases hclosing with rfl | rfl <;> decide

include hspace hskip hclosing

theorem readParts_spelled (level : Nat) {x : α} {xs : List α}
    (h : ∀ y ∈ x :: xs, ∀ rest, Stops rest → part (f y ++ rest) = some (y, rest)) {bound : Nat}
    (hbound : xs.length < bound) (rest : List Char) :
    readParts part closing bound
        (f x ++ ((xs.map f).flatMap (fun q => ',' :: (newline style (level + 1) ++ q)) ++
          (newline style level ++ closing :: rest))) =
      some (x :: xs, rest) := by
  obtain ⟨hends, hsolid, hcomma⟩ := of_closing hclosing
  induction xs generalizing x bound with
  | nil =>
    obtain ⟨bound, rfl⟩ := Nat.exists_eq_add_one_of_ne_zero (Nat.ne_of_gt hbound)
    rw [List.map_nil, List.flatMap_nil, List.nil_append, readParts,
      h x List.mem_cons_self _ (stops_append (hspace level) hends rest)]
    dsimp only
    rw [skipSpace_append_cons (hspace level) hsolid]
    exact if_pos rfl
  | cons y ys ih =>
    obtain ⟨bound, rfl⟩ := Nat.exists_eq_add_one_of_ne_zero (Nat.ne_zero_of_lt hbound)
    obtain ⟨hx, hys⟩ := List.forall_mem_cons.mp h
    have hstops (s : List Char) : Stops (',' :: s) := rfl
    rw [List.map_cons, List.flatMap_cons, List.cons_append, List.cons_append, List.append_assoc,
      List.append_assoc, readParts, hx _ (hstops _)]
    dsimp only
    rw [skipSpace_cons rfl]
    dsimp only
    rw [if_neg hcomma, if_pos rfl, readParts_append (hskip _),
      ih hys (Nat.lt_of_succ_lt_succ hbound)]
    rfl

theorem readBracketed_spelled (level : Nat) {opening : Char} {xs : List α}
    (h : ∀ x ∈ xs, ∀ rest, Stops rest → part (f x ++ rest) = some (x, rest))
    (hhead : ∀ x ∈ xs, ∃ c cs, f x = c :: cs ∧ endsValue c = false) {bound : Nat}
    (hbound : xs.length ≤ bound) (rest : List Char) :
    readBracketed part closing bound
      ((bracketed style level opening closing (xs.map f)).tail ++ rest) = some (xs, rest) := by
  obtain ⟨hends, hsolid, -⟩ := of_closing hclosing
  cases xs with
  | nil =>
    change readBracketed part closing bound (closing :: rest) = _
    rw [readBracketed, skipSpace_cons hsolid]
    exact if_pos rfl
  | cons x xs =>
    have htail : (bracketed style level opening closing ((x :: xs).map f)).tail ++ rest =
        newline style (level + 1) ++ (f x ++
          ((xs.map f).flatMap (fun q => ',' :: (newline style (level + 1) ++ q)) ++
            (newline style level ++ closing :: rest))) := by
      simp [bracketed]
    obtain ⟨c, cs, hc, hstart⟩ := hhead x List.mem_cons_self
    have hclose : c ≠ closing := by
      rintro rfl
      rw [hends] at hstart
      cases hstart
    have hparts := readParts_spelled hspace hskip hclosing level h hbound rest
    rw [hc, List.cons_append] at hparts
    rw [htail, hc, List.cons_append, readBracketed,
      skipSpace_append_cons (hspace _) (isSpace_eq_false hstart)]
    exact (if_neg hclose).trans hparts

end Parts

theorem bracketed_eq_cons (style : Style) (level : Nat) (opening closing : Char)
    (parts : List (List Char)) :
    bracketed style level opening closing parts =
      opening :: (bracketed style level opening closing parts).tail := by
  cases parts <;> rfl

theorem length_lt_bracketed (style : Style) (level : Nat) (opening closing : Char)
    (parts : List (List Char)) :
    parts.length < (bracketed style level opening closing parts).length ∧
      ∀ q ∈ parts, q.length < (bracketed style level opening closing parts).length := by
  cases parts with
  | nil => exact ⟨Nat.zero_lt_two, nofun⟩
  | cons p ps =>
    have hothers : ps.length ≤
          (ps.flatMap fun q => ',' :: (newline style (level + 1) ++ q)).length ∧
        ∀ q ∈ ps, q.length ≤
          (ps.flatMap fun q => ',' :: (newline style (level + 1) ++ q)).length := by
      induction ps with
      | nil => exact ⟨Nat.le_refl _, nofun⟩
      | cons q ps ih =>
        obtain ⟨hcount, hlengths⟩ := ih
        simp only [List.flatMap_cons, List.length_append, List.length_cons, List.forall_mem_cons]
        refine ⟨by omega, by omega, fun r hr => ?_⟩
        have hr' := hlengths r hr
        omega
    obtain ⟨hcount, hlengths⟩ := hothers
    simp only [bracketed, List.length_append, List.length_cons, List.forall_mem_cons]
    refine ⟨by omega, by omega, fun r hr => ?_⟩
    have hr' := hlengths r hr
    omega

theorem tableOf_eq {fields : List (String × Value)} (hdistinct : (fields.map Prod.fst).Nodup) :
    tableOf fields = .record fields := by
  apply congrArg Value.table
  induction fields using List.reverseRecOn with
  | nil => rfl
  | append_singleton fields f ih =>
    rw [List.map_append, List.nodup_append] at hdistinct
    obtain ⟨hfields, -, hnew⟩ := hdistinct
    rw [List.map_append, Entries.ofPairs, List.foldl_append, ← Entries.ofPairs, ih hfields]
    apply Entries.insert_of_get?_eq_none
    rw [Entries.get?_eq_none_iff, List.forall_mem_map]
    intro g hg hsame
    exact hnew g.1 (List.mem_map_of_mem hg) f.1 List.mem_cons_self (of_decide_eq_true hsame)

section Values

variable {indent : String}

theorem exists_spell_eq_cons {v : Value} (h : IsJson false v) (level : Nat) :
    ∃ c cs, spell (indentedStyle indent) level v = c :: cs ∧ endsValue c = false := by
  cases h with
  | null => exact ⟨_, _, rfl, rfl⟩
  | bool b => cases b <;> exact ⟨_, _, rfl, rfl⟩
  | int n =>
    obtain ⟨c, cs, heq, hc⟩ := exists_toString_eq_cons n
    exact ⟨c, cs, heq, endsValue_eq_false hc⟩
  | str s => exact ⟨_, _, rfl, rfl⟩
  | list h =>
    rw [spell_list, bracketed_eq_cons]
    exact ⟨_, _, rfl, rfl⟩
  | tuple ht => cases ht
  | record hdistinct h =>
    rw [spell_record, bracketed_eq_cons]
    exact ⟨_, _, rfl, rfl⟩

theorem exists_bound {v : Value} (h : IsJson false v) {level bound : Nat}
    (hbound : (spell (indentedStyle indent) level v).length ≤ bound) : ∃ k, bound = k + 1 := by
  obtain ⟨c, cs, heq, -⟩ := @exists_spell_eq_cons indent v h level
  rw [heq, List.length_cons] at hbound
  exact Nat.exists_eq_add_one_of_ne_zero (by omega)

theorem length_le_member (style : Style) (name : String) (text : List Char) :
    text.length ≤ (member style name text).length := by
  simp only [member, List.length_append]
  omega

theorem readMember_spelled {value : List Char → Option (Value × List Char)}
    (hskip : ∀ s, value (' ' :: s) = value s) {v : Value} {text rest : List Char}
    (h : value (text ++ rest) = some (v, rest)) (name : String) :
    readMember value (member (indentedStyle indent) name text ++ rest) =
      some ((name, v), rest) := by
  have htext : member (indentedStyle indent) name text ++ rest =
      '"' :: (name.toList.flatMap (escapeChar false) ++ '"' :: ':' :: ' ' :: (text ++ rest)) := by
    simp [member, quotedChars, indentedStyle]
  rw [htext, readMember, skipSpace_cons rfl]
  change (readChars _).bind _ = _
  rw [readChars_escaped]
  change (value (' ' :: (text ++ rest))).bind _ = _
  rw [hskip, h]
  exact congrArg (fun name => some ((name, v), rest)) String.ofList_toList

/-- In front of anything that cannot go on with it, the value is read off its text. -/
def Recovered (indent : String) (v : Value) : Prop :=
  ∀ level bound rest, (spell (indentedStyle indent) level v).length ≤ bound → Stops rest →
    readValue bound (spell (indentedStyle indent) level v ++ rest) = some (v, rest)

theorem recovered_int (n : Int) : Recovered indent (.int n) := by
  intro level bound rest hbound hrest
  obtain ⟨bound, rfl⟩ := exists_bound (.int n) hbound
  obtain ⟨c, cs, heq, hc⟩ := exists_toString_eq_cons n
  have hnumber := readNumber_toString hrest n
  rw [heq, List.cons_append] at hnumber
  rw [spell, heq, List.cons_append, readValue,
    skipSpace_cons (isSpace_eq_false (endsValue_eq_false hc))]
  exact (if_pos hc).trans hnumber

theorem recovered_str (s : String) : Recovered indent (.str s) := by
  intro level bound rest hbound _
  obtain ⟨bound, rfl⟩ := exists_bound (.str s) hbound
  rw [spell, quotedChars, List.cons_append, List.append_assoc, readValue, skipSpace_cons rfl,
    List.singleton_append]
  dsimp only
  rw [if_neg (by decide), if_pos rfl, readChars_escaped]
  exact congrArg (fun t => some (Value.str t, rest)) String.ofList_toList

variable (hindent : indent.toList.all isSpace)

include hindent

theorem recovered_list {items : List Value} (hjson : ∀ v ∈ items, IsJson false v)
    (h : ∀ v ∈ items, Recovered indent v) : Recovered indent (.list items) := by
  intro level bound rest hbound _
  obtain ⟨bound, rfl⟩ := exists_bound (.list hjson) hbound
  rw [spell_list] at hbound ⊢
  -- Both the number of items and the length of each are below the length of the whole.
  obtain ⟨hcount, hlengths⟩ := length_lt_bracketed (indentedStyle indent) level '[' ']'
    (items.map (spell (indentedStyle indent) (level + 1)))
  rw [List.length_map] at hcount
  rw [List.forall_mem_map] at hlengths
  have hitems : ∀ v ∈ items, ∀ rest, Stops rest →
      readValue bound (spell (indentedStyle indent) (level + 1) v ++ rest) = some (v, rest) := by
    intro v hv rest
    exact h v hv _ _ _ (Nat.le_of_lt_succ (Nat.lt_of_lt_of_le (hlengths v hv) hbound))
  rw [bracketed_eq_cons, List.cons_append, readValue, skipSpace_cons rfl]
  dsimp only
  rw [if_neg (by decide), if_neg (by decide), if_pos rfl,
    readBracketed_spelled (all_newline rfl hindent)
      (fun level => readValue_append (all_newline rfl hindent level) bound) (.inl rfl) level hitems
      (fun v hv => exists_spell_eq_cons (hjson v hv) _)
      (Nat.le_of_lt_succ (Nat.lt_of_lt_of_le hcount hbound))]
  rfl

theorem recovered_record {fields : List (String × Value)}
    (hjson : IsJson false (.record fields)) (h : ∀ f ∈ fields, Recovered indent f.2) :
    Recovered indent (.record fields) := by
  intro level bound rest hbound _
  obtain ⟨bound, rfl⟩ := exists_bound hjson hbound
  rw [spell_record] at hbound ⊢
  obtain ⟨hcount, hlengths⟩ := length_lt_bracketed (indentedStyle indent) level '{' '}'
    (fields.map fun f => member (indentedStyle indent) f.1
      (spell (indentedStyle indent) (level + 1) f.2))
  rw [List.length_map] at hcount
  rw [List.forall_mem_map] at hlengths
  have hfields : ∀ f ∈ fields, ∀ rest, Stops rest →
      readMember (readValue bound) (member (indentedStyle indent) f.1
        (spell (indentedStyle indent) (level + 1) f.2) ++ rest) = some (f, rest) := by
    intro f hf rest hrest
    have hlength : (spell (indentedStyle indent) (level + 1) f.2).length < bound + 1 :=
      (length_le_member _ f.1 _).trans_lt (Nat.lt_of_lt_of_le (hlengths f hf) hbound)
    exact readMember_spelled (@readValue_append [' '] rfl bound)
      (h f hf _ _ _ (Nat.le_of_lt_succ hlength) hrest) f.1
  rw [bracketed_eq_cons, List.cons_append, readValue, skipSpace_cons rfl]
  dsimp only
  rw [if_neg (by decide), if_neg (by decide), if_neg (by decide), if_pos rfl,
    readBracketed_spelled (all_newline rfl hindent)
      (fun level => readMember_append (all_newline rfl hindent level) _) (.inr rfl) level hfields
      (fun f _ => ⟨_, _, rfl, rfl⟩) (Nat.le_of_lt_succ (Nat.lt_of_lt_of_le hcount hbound))]
  exact congrArg (fun t => some (t, rest)) (tableOf_eq hjson.fields.1)

theorem recovered_of_isJson {v : Value} (h : IsJson false v) : Recovered indent v := by
  induction h with
  | null =>
    intro level bound rest hbound _
    obtain ⟨bound, rfl⟩ := exists_bound .null hbound
    rfl
  | bool b =>
    intro level bound rest hbound _
    obtain ⟨bound, rfl⟩ := exists_bound (.bool b) hbound
    cases b <;> rfl
  | int n => exact recovered_int n
  | str s => exact recovered_str s
  | list h ih => exact recovered_list hindent h ih
  | tuple ht => cases ht
  | record hdistinct h ih => exact recovered_record hindent (.record hdistinct h) ih

theorem read_spell {v : Value} (h : IsJson false v) :
    read (String.ofList (spell (indentedStyle indent) 0 v)) = some v := by
  have hread := recovered_of_isJson hindent h 0 _ [] (Nat.le_refl _) rfl
  rw [List.append_nil] at hread
  rw [read, String.length_ofList, String.toList_ofList, hread]
  rfl

end Values

theorem read_dump {tuples : Bool} {v : Value} (hv : IsJson tuples v) (hfits : v.fits)
    {capacity : Nat} {n : Int} (hn : Indentable capacity n) :
    ∃ text, dump capacity v none (indentOptions n) = .ok text ∧ read text = some v.canonical := by
  have hspace : (String.ofList (List.replicate n.toNat ' ')).toList.all isSpace := by
    rw [String.toList_ofList, List.all_replicate]
    simp [show isSpace ' ' = true from rfl]
  refine ⟨_, ?_, read_spell hspace (isJson_canonical hv)⟩
  rw [dump_of_readIndent (readIndent_of_indentable hn)]
  exact (write_eq hv 0).trans (if_pos hfits)

end TexHtml.Json
