import Mathlib.Data.List.Infix
import TexHtml.Html.Render

namespace TexHtml.Html

def occurrences (mark : List Char) : List Char → Nat
  | [] => 0
  | c :: cs => (if mark.isPrefixOf (c :: cs) then 1 else 0) + occurrences mark cs

theorem occurrences_append {mark cs ds : List Char}
    (h : ∀ p q, mark = p ++ q → p ≠ [] → q ≠ [] → p <:+ cs → ¬ q <+: ds) :
    occurrences mark (cs ++ ds) = occurrences mark cs + occurrences mark ds := by
  induction cs with
  | nil => simp [occurrences]
  | cons c cs ih =>
    have hcut : mark <+: c :: cs ++ ds ↔ mark <+: c :: cs := by
      constructor
      · rintro ⟨rest, hrest⟩
        rcases List.append_eq_append_iff.mp hrest with ⟨as, has, -⟩ | ⟨bs, hbs, hds⟩
        · exact ⟨as, has.symm⟩
        · have hnil : bs = [] := by
            by_contra hne
            exact h (c :: cs) bs hbs (by simp) hne (List.suffix_refl _) ⟨rest, hds.symm⟩
          rw [hbs, hnil, List.append_nil]
      · exact List.prefix_append_of_prefix
    have hrest := ih fun p q hpq hp hq hs => h p q hpq hp hq (hs.trans (List.suffix_cons c cs))
    rw [List.cons_append] at hcut ⊢
    simp only [occurrences, List.isPrefixOf_iff_prefix, hcut, hrest]
    omega

theorem occurrences_append_of_head {mark cs ds : List Char} (h : ∀ d ∈ ds.head?, d ∉ mark) :
    occurrences mark (cs ++ ds) = occurrences mark cs + occurrences mark ds := by
  apply occurrences_append
  rintro p (_ | ⟨d, q⟩) hpq - hq - ⟨rest, rfl⟩
  · exact hq rfl
  · exact h d rfl (by simp [hpq])

theorem occurrences_append_of_last {mark cs ds : List Char} (h : ∀ c ∈ cs.getLast?, c ∉ mark) :
    occurrences mark (cs ++ ds) = occurrences mark cs + occurrences mark ds := by
  apply occurrences_append
  rintro p q hpq hp - ⟨front, rfl⟩ -
  have hlast : p.getLast hp ∈ (front ++ p).getLast? := by
    simp [List.getLast?_append, List.getLast?_eq_some_getLast hp]
  exact h _ hlast (by simp [hpq])

section Mark

variable {mark : List Char} (hmark : mark ≠ [])

include hmark

theorem occurrences_eq_zero_iff {cs : List Char} : occurrences mark cs = 0 ↔ ¬ mark <:+: cs := by
  induction cs with
  | nil => simp [occurrences, hmark]
  | cons c cs ih =>
    rw [occurrences, List.infix_cons_iff, not_or, ← ih]
    by_cases h : mark <+: c :: cs <;> simp [h]

theorem insertBefore?_of_not_infix {cs : List Char} (script : List Char) (h : ¬ mark <:+: cs) :
    insertBefore? mark script cs = none := by
  induction cs with
  | nil => simp [insertBefore?, hmark]
  | cons c cs ih =>
    rw [List.infix_cons_iff, not_or] at h
    rw [insertBefore?, if_neg (by simpa using h.1), ih h.2]
    rfl

theorem exists_insertBefore?_of_infix {cs : List Char} (script : List Char) (h : mark <:+: cs) :
    ∃ p q, cs = p ++ q ∧ mark <+: q ∧ ¬ mark <:+: p ∧
      insertBefore? mark script cs = some (p ++ script ++ q) := by
  induction cs with
  | nil => exact absurd (List.infix_nil.mp h) hmark
  | cons c cs ih =>
    by_cases hp : mark <+: c :: cs
    · refine ⟨[], c :: cs, rfl, hp, by simpa using hmark, ?_⟩
      rw [insertBefore?, if_pos (by simpa using hp)]
      rfl
    · obtain ⟨p, q, rfl, hq, hfront, hinsert⟩ := ih ((List.infix_cons_iff.mp h).resolve_left hp)
      refine ⟨c :: p, q, rfl, hq, ?_, ?_⟩
      · rw [List.infix_cons_iff, not_or]
        refine ⟨fun hcp => hp ?_, hfront⟩
        exact @List.prefix_append_of_prefix _ _ _ q hcp
      · rw [insertBefore?, if_neg (by simpa using hp), hinsert]
        rfl

end Mark

end TexHtml.Html
