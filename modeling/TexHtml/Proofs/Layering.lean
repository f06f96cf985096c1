import Mathlib.Data.List.DropRight
import Mathlib.Data.List.Induction
import TexHtml.Proofs.Keys
import TexHtml.Settings.Merge

namespace TexHtml.Settings

def layered (layers : List Entries) : Entries := layers.foldl merge []

def isTable : Value → Bool
  | .table _ => true
  | _ => false

def entries? : Value → Option Entries
  | .table entries => some entries
  | _ => none

def lastTables (values : List Value) : List Entries := (values.rtakeWhile isTable).filterMap entries?

def topmost (values : List Value) : Option Value :=
  values.getLast?.map fun v => if isTable v then .table (layered (lastTables values)) else v

theorem exists_of_isTable {v : Value} (h : isTable v) : ∃ entries, v = .table entries := by
  cases v with
  | table entries => exact ⟨entries, rfl⟩
  | _ => cases h

theorem isTable_eq_false {v : Value} (h : ∀ entries, v = .table entries → False) :
    isTable v = false := by
  rw [← Bool.not_eq_true]
  intro htable
  obtain ⟨entries, hv⟩ := exists_of_isTable htable
  exact h entries hv

theorem merge_cons (base : Entries) (key value : Value) (rest : Entries) :
    merge base ((key, value) :: rest) =
      merge (base.insert key (overlay (base.get? key) value)) rest := by
  rw [merge]

theorem layered_concat (layers : List Entries) (layer : Entries) :
    layered (layers ++ [layer]) = merge (layered layers) layer := by
  rw [layered, List.foldl_append]
  rfl

theorem overlay_of_not_isTable {v : Value} (h : isTable v = false) (old : Option Value) :
    overlay old v = v := by
  cases v with
  | table entries => cases h
  | _ => simp [overlay]

theorem overlay_table_of_not_isTable {old : Option Value}
    (h : ∀ v, old = some v → isTable v = false) (new : Entries) :
    overlay old (.table new) = .table new := by
  rw [overlay]
  intro entries hold
  exact Bool.noConfusion (h _ hold)

theorem overlay_none (v : Value) : overlay none v = v := by
  cases v with
  | table entries => exact overlay_table_of_not_isTable (by simp) entries
  | _ => exact overlay_of_not_isTable rfl none

theorem get?_merge {new : Entries} (h : new.Distinct) (base : Entries) (key : Value) :
    Entries.get? (merge base new) key =
      (new.get? key).elim (base.get? key) fun v => some (overlay (base.get? key) v) := by
  induction new generalizing base with
  | nil => rw [merge]; rfl
  | cons e new ih =>
    obtain ⟨k, v⟩ := e
    obtain ⟨hhead, htail⟩ := List.pairwise_cons.mp h
    rw [merge_cons, ih htail, Entries.get?_insert, Entries.get?_cons]
    by_cases hk : k.sameKey key
    · have hnone : Entries.get? new key = none := by
        rw [Entries.get?_eq_none_iff]
        intro e he hsame
        rw [Value.sameKey_comm] at hsame
        exact hhead e he (Value.sameKey_trans hk hsame)
      rw [hnone, if_pos hk, if_pos hk, Entries.get?_congr hk]
      rfl
    · rw [if_neg hk, if_neg hk]

theorem merge_of_distinct {base new : Entries} (h : Entries.Distinct (base ++ new)) :
    merge base new = base ++ new := by
  induction new generalizing base with
  | nil => rw [merge, List.append_nil]
  | cons e new ih =>
    obtain ⟨k, v⟩ := e
    have hnone : Entries.get? base k = none := by
      rw [Entries.get?_eq_none_iff]
      intro e he
      exact (List.pairwise_append.mp h).2.2 e he (k, v) List.mem_cons_self
    rw [List.append_cons] at h ⊢
    rw [merge_cons, hnone, overlay_none, Entries.insert_of_get?_eq_none hnone, ih h]

theorem get?_foldl_merge {layers : List Entries} (h : ∀ layer ∈ layers, layer.Distinct)
    (base : Entries) (key : Value) :
    Entries.get? (layers.foldl merge base) key =
      (layers.filterMap (Entries.get? · key)).foldl (fun old v => some (overlay old v))
        (base.get? key) := by
  induction layers generalizing base with
  | nil => rfl
  | cons layer layers ih =>
    have hrest := ih (fun l hl => h l (List.mem_cons_of_mem layer hl)) (merge base layer)
    rw [List.foldl_cons, hrest, get?_merge (h layer List.mem_cons_self), List.filterMap_cons]
    cases layer.get? key <;> rfl

theorem lastTables_concat_table (values : List Value) (new : Entries) :
    lastTables (values ++ [.table new]) = lastTables values ++ [new] := by
  rw [lastTables, List.rtakeWhile_concat_pos _ _ _ rfl, List.filterMap_append]
  rfl

theorem lastTables_concat_of_not_isTable (values : List Value) {v : Value}
    (h : isTable v = false) : lastTables (values ++ [v]) = [] := by
  rw [lastTables, List.rtakeWhile_concat_neg _ _ _ (by simp [h])]
  rfl

theorem topmost_concat_of_not_isTable (values : List Value) {v : Value} (h : isTable v = false) :
    topmost (values ++ [v]) = some v := by
  simp [topmost, h]

theorem topmost_concat_table (values : List Value) (new : Entries) :
    topmost (values ++ [.table new]) = some (.table (merge (layered (lastTables values)) new)) := by
  simp [topmost, isTable, lastTables_concat_table, layered_concat]

theorem isSome_topmost (values : List Value) : (topmost values).isSome ↔ values ≠ [] := by
  simp [topmost]

theorem overlay_topmost (values : List Value) {new : Entries} (h : new.Distinct) :
    overlay (topmost values) (.table new) = .table (merge (layered (lastTables values)) new) := by
  have hnew : merge (layered []) new = new := merge_of_distinct h
  rcases List.eq_nil_or_concat' values with rfl | ⟨values, last, rfl⟩
  · exact (overlay_none _).trans (congrArg Value.table hnew.symm)
  · by_cases hlast : isTable last
    · obtain ⟨entries, rfl⟩ := exists_of_isTable hlast
      rw [topmost_concat_table, lastTables_concat_table, layered_concat, overlay]
    · rw [Bool.not_eq_true] at hlast
      rw [topmost_concat_of_not_isTable values hlast, lastTables_concat_of_not_isTable values hlast,
        hnew]
      apply overlay_table_of_not_isTable
      rintro v ⟨⟩
      exact hlast

theorem foldl_overlay {values : List Value}
    (h : ∀ entries, Value.table entries ∈ values → Entries.Distinct entries) :
    values.foldl (fun old v => some (overlay old v)) none = topmost values := by
  induction values using List.reverseRecOn with
  | nil => rfl
  | append_singleton values v ih =>
    rw [List.foldl_concat, ih fun entries he => h entries (List.mem_append_left [v] he)]
    by_cases hv : isTable v
    · obtain ⟨new, rfl⟩ := exists_of_isTable hv
      rw [overlay_topmost values (h new (by simp)), topmost_concat_table]
    · rw [Bool.not_eq_true] at hv
      rw [overlay_of_not_isTable hv, topmost_concat_of_not_isTable values hv]

theorem get?_layered {layers : List Entries} (h : ∀ layer ∈ layers, Entries.wellFormed layer)
    (key : Value) :
    (layered layers).get? key = topmost (layers.filterMap (Entries.get? · key)) := by
  rw [layered, get?_foldl_merge fun layer hlayer => Entries.distinct_of_wellFormed (h layer hlayer)]
  apply foldl_overlay
  intro entries hentries
  obtain ⟨layer, hlayer, hget⟩ := List.mem_filterMap.mp hentries
  have hinner : (Value.table entries).wellFormed := Entries.wellFormed_of_get? (h layer hlayer) hget
  exact Entries.distinct_of_wellFormed (by rwa [Value.wellFormed] at hinner)

def addKey (keys : List Value) (key : Value) : List Value :=
  if keys.any key.sameKey then keys else keys ++ [key]

theorem keys_merge (base new : Entries) :
    Entries.keys (merge base new) = new.keys.foldl addKey base.keys := by
  induction new generalizing base with
  | nil => rw [merge]; rfl
  | cons e new ih =>
    obtain ⟨k, v⟩ := e
    rw [merge_cons, ih, Entries.keys_insert]
    rfl

theorem keys_foldl_merge (layers : List Entries) (base : Entries) :
    Entries.keys (layers.foldl merge base) = (layers.flatMap Entries.keys).foldl addKey base.keys := by
  induction layers generalizing base with
  | nil => rfl
  | cons layer layers ih =>
    rw [List.foldl_cons, ih, keys_merge, List.flatMap_cons, List.foldl_append]

theorem foldl_addKey (keys found : List Value) :
    keys.foldl addKey found = List.eraseDupsBy.loop Value.sameKey keys found.reverse := by
  induction keys generalizing found with
  | nil => exact (List.reverse_reverse found).symm
  | cons key keys ih =>
    rw [List.foldl_cons, ih, addKey, List.eraseDupsBy.loop, List.any_reverse]
    cases found.any key.sameKey <;> simp

/-- A key that some layer has is in the result, the values of the layers there decide what stands at
it, and the keys stand in the order in which they first appear. -/
theorem layered_by_key {layers : List Entries} (h : ∀ layer ∈ layers, Entries.wellFormed layer) :
    (∀ key, ((layered layers).get? key).isSome ↔ ∃ layer ∈ layers, (layer.get? key).isSome) ∧
      (∀ key, (layered layers).get? key = topmost (layers.filterMap (Entries.get? · key))) ∧
      (layered layers).keys = (layers.flatMap Entries.keys).eraseDupsBy Value.sameKey := by
  refine ⟨fun key => ?_, get?_layered h, ?_⟩
  · rw [get?_layered h, isSome_topmost]
    simp [Option.isSome_iff_ne_none]
  · rw [layered, keys_foldl_merge, foldl_addKey]
    rfl

theorem layered_by_key_alternating :
    let layers : List Entries :=
      [[(.str "a", .table [(.str "x", .int 1)]), (.str "b", .int 1)],
        [(.str "c", .null), (.str "a", .int 2)],
        [(.str "a", .table [(.str "y", .int 3), (.str "z", .table [(.str "u", .int 4)])])],
        [(.str "b", .table []), (.str "a", .table [(.str "z", .table [(.str "v", .int 5)])])]]
    (∀ layer ∈ layers, Entries.wellFormed layer) ∧
      (layered layers).keys = [.str "a", .str "b", .str "c"] ∧
      (layered layers).get? (.str "b") = some (.table []) ∧
      (layered layers).get? (.str "a") =
        some (.table [(.str "y", .int 3),
          (.str "z", .table [(.str "u", .int 4), (.str "v", .int 5)])]) := by
  intro layers
  have hlayers : ∀ layer ∈ layers, Entries.wellFormed layer := by decide
  obtain ⟨-, hget, hkeys⟩ := layered_by_key hlayers
  exact ⟨hlayers, hkeys, hget _, hget _⟩

end TexHtml.Settings
