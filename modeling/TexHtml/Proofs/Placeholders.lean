import Mathlib.Data.List.TakeWhile
import TexHtml.Settings.Placeholder

namespace TexHtml.Placeholder

def IsVariableName (name : List Char) : Prop :=
  ∃ first rest, name = first :: rest ∧ isNameStart first ∧ ∀ c ∈ rest, isNamePart c

theorem not_isNamePart_brace : isNamePart '}' = false := by decide

theorem name?_eq_some_iff {s name behind : List Char} :
    name? s = some (name, behind) ↔ IsVariableName name ∧ s = name ++ '}' :: behind := by
  constructor
  · intro h
    unfold name? at h
    split at h
    · cases h
    rename_i c rest
    split at h
    · rename_i hstart
      split at h
      · rename_i behind' hdrop
        cases h
        refine ⟨⟨c, rest.takeWhile isNamePart, rfl, hstart, fun d hd => ?_⟩, ?_⟩
        · exact List.mem_takeWhile_imp hd
        · rw [List.cons_append, ← hdrop, List.takeWhile_append_dropWhile]
      · cases h
    · cases h
  · rintro ⟨⟨first, rest, rfl, hfirst, hrest⟩, rfl⟩
    have hstop : ('}' :: behind).takeWhile isNamePart = [] ∧
        ('}' :: behind).dropWhile isNamePart = '}' :: behind := by
      simp [not_isNamePart_brace]
    rw [List.cons_append, name?, if_pos hfirst, List.dropWhile_append_of_pos hrest, hstop.2,
      List.takeWhile_append_of_pos hrest, hstop.1, List.append_nil]
    rfl

theorem placeholder?_eq_some_iff {s name behind : List Char} :
    placeholder? s = some (name, behind) ↔ IsVariableName name ∧ s = written name ++ behind := by
  have hwritten : written name ++ behind = '$' :: '{' :: (name ++ '}' :: behind) := by
    simp [written]
  rw [hwritten]
  constructor
  · intro h
    unfold placeholder? at h
    split at h
    · obtain ⟨hname, rfl⟩ := name?_eq_some_iff.mp h
      exact ⟨hname, rfl⟩
    · cases h
  · rintro ⟨hname, rfl⟩
    exact name?_eq_some_iff.mpr ⟨hname, rfl⟩

theorem expand_of_placeholder (env : Environment) {c : Char} {rest name behind : List Char}
    (h : placeholder? (c :: rest) = some (name, behind)) :
    expand env (c :: rest) = meaning env name ++ expand env behind := by
  rw [expand]
  split
  · rename_i name' behind' h'
    cases h.symm.trans h'
    rfl
  · rename_i h'
    cases h.symm.trans h'

theorem expand_of_none (env : Environment) {c : Char} {rest : List Char}
    (h : placeholder? (c :: rest) = none) : expand env (c :: rest) = c :: expand env rest := by
  rw [expand]
  split
  · rename_i h'
    cases h.symm.trans h'
  · rfl

/-- The second text is the first with each placeholder replaced by the value of its variable. It
stays where the variable has none, as do all other characters. -/
inductive Replaced (value : String → Option String) : List Char → List Char → Prop
  | nil : Replaced value [] []
  | set {name rest out : List Char} {v : String} (hname : IsVariableName name)
      (hvalue : value (String.ofList name) = some v) (hrest : Replaced value rest out) :
      Replaced value (written name ++ rest) (v.toList ++ out)
  | unset {name rest out : List Char} (hname : IsVariableName name)
      (hvalue : value (String.ofList name) = none) (hrest : Replaced value rest out) :
      Replaced value (written name ++ rest) (written name ++ out)
  | char {c : Char} {rest out : List Char}
      (hplain : ∀ name behind, IsVariableName name → c :: rest ≠ written name ++ behind)
      (hrest : Replaced value rest out) : Replaced value (c :: rest) (c :: out)

def isPlain : Value → Bool
  | .str _ | .list _ | .table _ => false
  | _ => true

mutual

inductive Substituted (value : String → Option String) : Value → Value → Prop
  | plain {v : Value} (h : isPlain v) : Substituted value v v
  | str {s t : String} (h : Replaced value s.toList t.toList) : Substituted value (.str s) (.str t)
  | list {items items' : List Value} (h : SubstitutedItems value items items') :
      Substituted value (.list items) (.list items')
  | table {entries entries' : List (Value × Value)}
      (h : SubstitutedEntries value entries entries') :
      Substituted value (.table entries) (.table entries')

inductive SubstitutedItems (value : String → Option String) : List Value → List Value → Prop
  | nil : SubstitutedItems value [] []
  | cons {v v' : Value} {rest rest' : List Value} (h : Substituted value v v')
      (hrest : SubstitutedItems value rest rest') :
      SubstitutedItems value (v :: rest) (v' :: rest')

inductive SubstitutedEntries (value : String → Option String) :
    List (Value × Value) → List (Value × Value) → Prop
  | nil : SubstitutedEntries value [] []
  | cons {key v v' : Value} {rest rest' : List (Value × Value)} (h : Substituted value v v')
      (hrest : SubstitutedEntries value rest rest') :
      SubstitutedEntries value ((key, v) :: rest) ((key, v') :: rest')

end

variable {env : Environment} {value : String → Option String} (henv : ∀ n, env.get? n = value n)

include henv

theorem replaced_expand (s : List Char) : Replaced value s (expand env s) := by
  induction s using expand.induct with
  | case1 =>
    rw [expand]
    exact .nil
  | case2 c rest name behind h ih =>
    obtain ⟨hname, hs⟩ := placeholder?_eq_some_iff.mp h
    rw [expand_of_placeholder env h, hs, meaning, henv]
    cases hvalue : value (String.ofList name) with
    | some v => exact .set hname hvalue ih
    | none => exact .unset hname hvalue ih
  | case3 c rest h ih =>
    rw [expand_of_none env h]
    refine .char (fun name behind hname hs => ?_) ih
    rw [placeholder?_eq_some_iff.mpr ⟨hname, hs⟩] at h
    cases h

theorem substitutedEntries_substituteEntries (entries : List (Value × Value)) :
    SubstitutedEntries value entries (substituteEntries env entries) := by
  refine substituteEntries.induct (fun v => Substituted value v (substitute env v))
    (fun items => SubstitutedItems value items (substituteItems env items))
    (fun entries => SubstitutedEntries value entries (substituteEntries env entries))
    ?str ?table ?list ?plain ?noItem ?item ?noEntry ?entry entries
  case str =>
    intro s
    rw [substitute]
    apply Substituted.str
    rw [String.toList_ofList]
    exact replaced_expand henv s.toList
  case table =>
    intro entries ih
    rw [substitute]
    exact .table ih
  case list =>
    intro items ih
    rw [substitute]
    exact .list ih
  case plain =>
    intro v hstr htable hlist
    have hplain : isPlain v := by
      cases v with
      | str s => exact (hstr s rfl).elim
      | table entries => exact (htable entries rfl).elim
      | list items => exact (hlist items rfl).elim
      | _ => rfl
    rw [substitute]
    · exact .plain hplain
    all_goals assumption
  case noItem =>
    rw [substituteItems]
    exact .nil
  case item =>
    intro v rest hv hrest
    rw [substituteItems]
    exact .cons hv hrest
  case noEntry =>
    rw [substituteEntries]
    exact .nil
  case entry =>
    intro k v rest hv hrest
    rw [substituteEntries]
    exact .cons hv hrest

end TexHtml.Placeholder
