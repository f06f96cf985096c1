import TexHtml.Proofs.Layering
import TexHtml.Proofs.Loading

namespace TexHtml.Placeholder

open Settings

variable (env : Environment)

theorem substitute_table (entries : Entries) :
    substitute env (.table entries) = .table (substituteEntries env entries) := by
  rw [substitute]

theorem substituteEntries_cons (key value : Value) (rest : Entries) :
    substituteEntries env ((key, value) :: rest) =
      (key, substitute env value) :: substituteEntries env rest := by
  rw [substituteEntries]

theorem isTable_substitute (v : Value) : isTable (substitute env v) = isTable v := by
  cases v <;> rw [substitute] <;> simp [isTable]

theorem get?_substituteEntries (entries : Entries) (key : Value) :
    Entries.get? (substituteEntries env entries) key =
      (entries.get? key).map (substitute env) := by
  induction entries with
  | nil => rw [substituteEntries]; rfl
  | cons e entries ih =>
    obtain ⟨k, v⟩ := e
    rw [substituteEntries_cons, Entries.get?_cons, Entries.get?_cons, ih]
    split <;> rfl

theorem substituteEntries_insert (entries : Entries) (key value : Value) :
    substituteEntries env (entries.insert key value) =
      Entries.insert (substituteEntries env entries) key (substitute env value) := by
  induction entries with
  | nil =>
    rw [Entries.insert, substituteEntries_cons, substituteEntries]
    rfl
  | cons e entries ih =>
    obtain ⟨k, v⟩ := e
    rw [Entries.insert, substituteEntries_cons, Entries.insert]
    split
    · rw [substituteEntries_cons]
    · rw [substituteEntries_cons, ih]

theorem substitute_overlay_plain {v : Value} (h : isTable v = false) (old : Option Value) :
    substitute env (overlay old v) = overlay (old.map (substitute env)) (substitute env v) := by
  rw [overlay_of_not_isTable h, overlay_of_not_isTable]
  rwa [isTable_substitute]

theorem substitute_overlay_table {new : Entries}
    (ih : ∀ base, substituteEntries env (merge base new) =
      merge (substituteEntries env base) (substituteEntries env new)) (old : Option Value) :
    substitute env (overlay old (.table new)) =
      overlay (old.map (substitute env)) (substitute env (.table new)) := by
  by_cases hold : ∃ entries, old = some (.table entries)
  · obtain ⟨entries, rfl⟩ := hold
    rw [overlay, substitute_table, ih, Option.map_some, substitute_table, substitute_table, overlay]
  · have hplain (v : Value) (hv : old = some v) : isTable v = false := by
      apply isTable_eq_false
      rintro entries rfl
      exact hold ⟨entries, hv⟩
    rw [overlay_table_of_not_isTable hplain, substitute_table, overlay_table_of_not_isTable]
    intro v hv
    obtain ⟨u, hu, rfl⟩ := Option.map_eq_some_iff.mp hv
    rw [isTable_substitute]
    exact hplain u hu

/-- By recursion on what is laid over, both as entries and as a value. -/
theorem substituteEntries_merge (base new : Entries) :
    substituteEntries env (merge base new) =
      merge (substituteEntries env base) (substituteEntries env new) := by
  refine substituteEntries.induct
    (fun v => ∀ old, substitute env (overlay old v) =
      overlay (old.map (substitute env)) (substitute env v))
    (fun _ => True)
    (fun new => ∀ base, substituteEntries env (merge base new) =
      merge (substituteEntries env base) (substituteEntries env new))
    ?str ?table ?list ?plain trivial (fun _ _ _ _ => trivial) ?nil ?cons new base
  case str => exact fun s => substitute_overlay_plain env rfl
  case table => exact fun entries ih => substitute_overlay_table env ih
  case list => exact fun items _ => substitute_overlay_plain env rfl
  case plain => exact fun v _ htable _ => substitute_overlay_plain env (isTable_eq_false htable)
  case nil =>
    intro base
    rw [merge, substituteEntries.eq_1, merge]
  case cons =>
    intro key value rest ihvalue ihrest base
    rw [merge_cons, ihrest, substituteEntries_insert, ihvalue, substituteEntries_cons, merge_cons,
      get?_substituteEntries]

theorem substituteEntries_foldl_merge (layers : List Entries) (base : Entries) :
    substituteEntries env (layers.foldl merge base) =
      (layers.map (substituteEntries env)).foldl merge (substituteEntries env base) := by
  induction layers generalizing base with
  | nil => rfl
  | cons layer layers ih =>
    rw [List.foldl_cons, ih, substituteEntries_merge, List.map_cons, List.foldl_cons]

/-- Replacing placeholders in merged settings is replacing them in each part first, and so it does
not matter that loading replaces them only at the end. -/
theorem substitution_before_merging :
    (∀ base new, substituteEntries env (merge base new) =
      merge (substituteEntries env base) (substituteEntries env new)) ∧
    (∀ layers, substituteEntries env (layered layers) =
      layered (layers.map (substituteEntries env))) ∧
    ∀ reader disk path directories dotenvPath,
      let loading := load reader disk env path directories dotenvPath
      loading.result = (Dotenv.load disk env dotenvPath true).result.bind fun _ =>
        (readLayers reader disk disk.below path directories).map fun layers =>
          (layers.2.map (substituteEntries loading.environment)).foldl merge
            (substituteEntries loading.environment layers.1) := by
  refine ⟨substituteEntries_merge env, fun layers => ?_, ?_⟩
  · rw [layered, substituteEntries_foldl_merge, substituteEntries]
    rfl
  · intro reader disk path directories dotenvPath loading
    simp only [loading, environment_load, result_load, result_loadFiles]
    cases readLayers reader disk disk.below path directories with
    | error f => rfl
    | ok layers =>
      change (Except.bind _ fun _ => .ok (substituteEntries _ (layers.2.foldl merge layers.1))) = _
      rw [substituteEntries_foldl_merge]
      rfl

end TexHtml.Placeholder
