import Mathlib.Tactic.Ring
import TexHtml.Value.Basic

namespace TexHtml

theorem Double.quotient?_pos {x : Double} {p : Int × Nat} (h : x.quotient? = some p) : 0 < p.2 := by
  cases x with
  | nan => simp [Double.quotient?] at h
  | infinite negative => simp [Double.quotient?] at h
  | finite negative m q =>
    simp only [Double.quotient?, Option.some.injEq] at h
    subst h
    dsimp only
    split
    · exact Nat.one_pos
    · exact Nat.pow_pos Nat.two_pos

namespace Value

theorem quotient?_pos {v : Value} {p : Int × Nat} (h : v.quotient? = some p) : 0 < p.2 := by
  cases v with
  | bool b => cases h; exact Nat.one_pos
  | int n => cases h; exact Nat.one_pos
  | float x => exact Double.quotient?_pos h
  | _ => simp [quotient?] at h

mutual

inductive SameKey : Value → Value → Prop
  | same {v : Value} : v.sameKey v → SameKey v v
  | tuple {as bs : List Value} : SameKeys as bs → SameKey (.tuple as) (.tuple bs)
  | number {a b : Value} {p q : Int × Nat} : a.quotient? = some p → b.quotient? = some q →
      p.1 * q.2 = q.1 * p.2 → SameKey a b

inductive SameKeys : List Value → List Value → Prop
  | nil : SameKeys [] []
  | cons {a b : Value} {as bs : List Value} :
      SameKey a b → SameKeys as bs → SameKeys (a :: as) (b :: bs)

end

mutual

theorem SameKey.symm {a b : Value} : SameKey a b → SameKey b a
  | .same h => .same h
  | .tuple h => .tuple h.symm
  | .number ha hb h => .number hb ha h.symm

theorem SameKeys.symm {as bs : List Value} : SameKeys as bs → SameKeys bs as
  | .nil => .nil
  | .cons h hs => .cons h.symm hs.symm

end

theorem crossEqual_trans {p q r : Int × Nat} (hq : 0 < q.2) (hpq : p.1 * q.2 = q.1 * p.2)
    (hqr : q.1 * r.2 = r.1 * q.2) : p.1 * r.2 = r.1 * p.2 := by
  have hne : (q.2 : Int) ≠ 0 := by omega
  apply mul_right_cancel₀ hne
  calc p.1 * r.2 * q.2 = p.1 * q.2 * r.2 := by ring
    _ = q.1 * r.2 * p.2 := by rw [hpq]; ring
    _ = r.1 * p.2 * q.2 := by rw [hqr]; ring

mutual

theorem SameKey.trans {a b c : Value} : SameKey a b → SameKey b c → SameKey a c
  | .same _, h => h
  | h, .same _ => h
  | .tuple h, .tuple h' => .tuple (h.trans h')
  | .number ha hb h, .number hb' hc h' => by
    cases hb.symm.trans hb'
    exact .number ha hc (crossEqual_trans (quotient?_pos hb) h h')

theorem SameKeys.trans {as bs cs : List Value} : SameKeys as bs → SameKeys bs cs → SameKeys as cs
  | .nil, h => h
  | .cons h hs, .cons h' hs' => .cons (h.trans h') (hs.trans hs')

end

theorem sameKey_of_number {a b : Value} {p q : Int × Nat} (ha : a.quotient? = some p)
    (hb : b.quotient? = some q) (h : p.1 * q.2 = q.1 * p.2) : a.sameKey b := by
  fun_cases sameKey a b with
  | case9 =>
    rename_i ha' hb' _ _ _ _ _ _ _ _
    cases ha.symm.trans ha'
    cases hb.symm.trans hb'
    exact decide_eq_true h
  | case10 =>
    rename_i hnone
    exact (hnone _ _ _ _ ha hb).elim
  | _ => simp [quotient?, Double.quotient?] at ha

mutual

theorem SameKey.sameKey {a b : Value} : SameKey a b → a.sameKey b
  | .same h => h
  | .tuple h => h.sameKeys
  | .number ha hb h => sameKey_of_number ha hb h

theorem SameKeys.sameKeys {as bs : List Value} : SameKeys as bs → sameKeys as bs
  | .nil => rfl
  | .cons h hs => by rw [Value.sameKeys, h.sameKey, hs.sameKeys, Bool.and_true]

end

theorem SameKey.of_sameKey : (a b : Value) → a.sameKey b → SameKey a b := by
  refine Value.sameKey.induct _ (fun as bs => sameKeys as bs → SameKeys as bs)
    .same ?str ?bytes (fun _ _ ih h => .tuple (ih h)) ?date ?time ?dateTime ?infinite ?number ?other
    (fun _ => .nil) ?cons ?uneven
  case number =>
    intro a b hnull hstr hbytes htuple hdate htime hdateTime hinfinite n d k e hb ha h
    rw [Value.sameKey.eq_9, ha, hb] at h
    · exact .number ha hb (of_decide_eq_true h)
    all_goals assumption
  case other =>
    intro a b hnull hstr hbytes htuple hdate htime hdateTime hinfinite hnone h
    rw [Value.sameKey] at h
    · split at h
      · rename_i ha hb
        exact (hnone _ _ _ _ ha hb).elim
      · cases h
    all_goals assumption
  case cons =>
    intro a as b bs ih ihs h
    rw [sameKeys, Bool.and_eq_true] at h
    exact .cons (ih h.1) (ihs h.2)
  case uneven =>
    intro as bs hnil hcons h
    rw [sameKeys] at h
    · cases h
    all_goals assumption
  all_goals
    intro a b h
    cases of_decide_eq_true h
    exact .same h

theorem sameKey_comm (a b : Value) : a.sameKey b = b.sameKey a := by
  apply Bool.eq_iff_iff.mpr
  constructor
  · exact fun h => (SameKey.of_sameKey a b h).symm.sameKey
  · exact fun h => (SameKey.of_sameKey b a h).symm.sameKey

theorem sameKey_trans {a b c : Value} (hab : a.sameKey b) (hbc : b.sameKey c) : a.sameKey c :=
  ((SameKey.of_sameKey a b hab).trans (SameKey.of_sameKey b c hbc)).sameKey

theorem sameKey_congr {a b : Value} (h : a.sameKey b) (c : Value) : a.sameKey c = b.sameKey c := by
  apply Bool.eq_iff_iff.mpr
  refine ⟨Value.sameKey_trans ?_, Value.sameKey_trans h⟩
  rwa [Value.sameKey_comm]

end Value

namespace Entries

def keys (entries : Entries) : List Value := entries.map Prod.fst

theorem get?_cons (k v : Value) (entries : Entries) (key : Value) :
    get? ((k, v) :: entries) key = if k.sameKey key then some v else get? entries key := by
  rw [get?, List.find?_cons]
  cases k.sameKey key <;> rfl

theorem get?_eq_none_iff {entries : Entries} {key : Value} :
    entries.get? key = none ↔ ∀ e ∈ entries, ¬ e.1.sameKey key := by
  rw [get?, Option.map_eq_none_iff, List.find?_eq_none]

theorem get?_congr {key other : Value} (h : key.sameKey other) (entries : Entries) :
    entries.get? key = entries.get? other := by
  simp only [get?, Value.sameKey_comm _ key, Value.sameKey_comm _ other, Value.sameKey_congr h]

theorem get?_insert (entries : Entries) (key value other : Value) :
    (entries.insert key value).get? other =
      if key.sameKey other then some value else entries.get? other := by
  induction entries with
  | nil => rw [insert, get?_cons]
  | cons e entries ih =>
    obtain ⟨k, v⟩ := e
    rw [insert]
    by_cases hk : k.sameKey key
    · rw [if_pos hk, get?_cons, get?_cons, Value.sameKey_congr hk]
      split <;> rfl
    · rw [if_neg hk, get?_cons, ih, get?_cons]
      by_cases hkey : key.sameKey other
      · have hother : ¬ k.sameKey other := by
          intro h
          rw [Value.sameKey_comm] at hkey
          exact hk (Value.sameKey_trans h hkey)
        rw [if_neg hother, if_pos hkey, if_pos hkey]
      · rw [if_neg hkey, if_neg hkey]

theorem insert_of_get?_eq_none {entries : Entries} {key : Value} (h : entries.get? key = none)
    (value : Value) : entries.insert key value = entries ++ [(key, value)] := by
  induction entries with
  | nil => rfl
  | cons e entries ih =>
    obtain ⟨k, v⟩ := e
    rw [get?_cons] at h
    split at h
    · cases h
    · rename_i hk
      rw [insert, if_neg hk, ih h, List.cons_append]

theorem keys_insert (entries : Entries) (key value : Value) :
    (entries.insert key value).keys =
      if entries.keys.any key.sameKey then entries.keys else entries.keys ++ [key] := by
  induction entries with
  | nil => rfl
  | cons e entries ih =>
    obtain ⟨k, v⟩ := e
    rw [insert]
    by_cases hk : k.sameKey key
    · have hkey : key.sameKey k := by rwa [Value.sameKey_comm]
      simp [hk, keys, hkey]
    · have hkey : key.sameKey k = false := by simpa [Value.sameKey_comm] using hk
      simp only [keys, if_neg hk, List.map_cons, List.any_cons, hkey, Bool.false_or] at ih ⊢
      rw [ih, List.cons_append]
      exact apply_ite (k :: ·) _ _ _

def Distinct (entries : Entries) : Prop :=
  entries.Pairwise fun a b => ¬ a.1.sameKey b.1

end Entries

mutual

def Entries.wellFormed : List (Value × Value) → Bool
  | [] => true
  | (key, value) :: rest =>
    !(rest.any fun e => key.sameKey e.1) && Value.wellFormed value && Entries.wellFormed rest

def Value.wellFormed : Value → Bool
  | .table entries => Entries.wellFormed entries
  | _ => true

end

namespace Entries

theorem wellFormed_cons {key value : Value} {rest : Entries} :
    wellFormed ((key, value) :: rest) ↔
      (∀ e ∈ rest, ¬ key.sameKey e.1) ∧ value.wellFormed ∧ wellFormed rest := by
  simp [wellFormed, and_assoc]

theorem distinct_of_wellFormed {entries : Entries} (h : wellFormed entries) : entries.Distinct := by
  induction entries with
  | nil => exact .nil
  | cons e entries ih =>
    obtain ⟨hhead, -, htail⟩ := wellFormed_cons.mp h
    exact .cons hhead (ih htail)

theorem wellFormed_of_get? {entries : Entries} (h : wellFormed entries) {key value : Value}
    (hget : entries.get? key = some value) : value.wellFormed := by
  induction entries with
  | nil => cases hget
  | cons e entries ih =>
    obtain ⟨-, hvalue, htail⟩ := wellFormed_cons.mp h
    rw [get?_cons] at hget
    split at hget
    · cases hget
      exact hvalue
    · exact ih htail hget

end Entries

end TexHtml
