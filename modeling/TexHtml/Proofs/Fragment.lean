import TexHtml.Compiler.Basic

namespace TexHtml

theorem Value.sameKey_str {v : Value} {key : String} : v.sameKey (.str key) ↔ v = .str key := by
  cases v with
  | str s => exact decide_eq_true_iff.trans ⟨congrArg Value.str, Value.str.inj⟩
  | float x => cases x <;> exact ⟨fun h => Bool.noConfusion h, fun h => Value.noConfusion h⟩
  | _ => exact ⟨fun h => Bool.noConfusion h, fun h => Value.noConfusion h⟩

namespace Entries

theorem find?_cons (k v : Value) (entries : Entries) (key : String) :
    find? ((k, v) :: entries) key =
      if k.sameKey (.str key) then some v else find? entries key := by
  rw [find?, get?, List.find?_cons]
  cases k.sameKey (.str key) <;> rfl

theorem find?_insert (entries : Entries) (key other : String) (value : Value) :
    (entries.insert (.str key) value).find? other =
      if key = other then some value else entries.find? other := by
  have hkey : (Value.str key).sameKey (.str other) ↔ key = other :=
    Value.sameKey_str.trans ⟨Value.str.inj, congrArg Value.str⟩
  induction entries with
  | nil =>
    rw [insert, find?_cons]
    simp only [hkey]
  | cons e entries ih =>
    obtain ⟨k, v⟩ := e
    rw [insert]
    by_cases hk : k.sameKey (.str key)
    · rw [if_pos hk, find?_cons, find?_cons]
      cases Value.sameKey_str.mp hk
      simp only [hkey]
      split <;> rfl
    · rw [if_neg hk, find?_cons, ih, find?_cons]
      by_cases ho : key = other
      · subst ho
        simp only [if_neg hk, if_true]
      · simp only [if_neg ho]

end Entries

namespace Compiler

theorem parseResult_str (c : Compiler) (source : String) :
    c.parseResult (.str source) =
      (.ok (TexHtml.parse (tokenize source) nestingLimit),
        { c with stats := (readSource source).2 }) := by
  have hread : (readSource source).1 = TexHtml.parse (tokenize source) nestingLimit := by
    rw [readSource]
    split <;> rename_i hparse <;> rw [hparse]
  rw [parseResult, hread]

def adopt (table entries : Entries) (key : String) : Entries :=
  match table.find? key with
  | some value => entries.insert (.str key) value
  | none => entries

theorem readOptions_table (table : Entries) :
    readOptions (.table table) =
      match entriesOf ((table.find? "html_options").getD (.table [])) with
      | .error e => .error e
      | .ok extra => .ok (.ofEntries (directKeys.foldl (adopt table) extra)) := by
  cases table <;> rfl

theorem find?_adopt (table entries : Entries) (key other : String) :
    (adopt table entries other).find? key =
      if other = key then (table.find? key).or (entries.find? key) else entries.find? key := by
  rw [adopt]
  split
  · rename_i value hvalue
    rw [Entries.find?_insert]
    by_cases ho : other = key
    · subst ho
      rw [if_pos rfl, if_pos rfl, hvalue, Option.some_or]
    · rw [if_neg ho, if_neg ho]
  · rename_i hnone
    by_cases ho : other = key
    · subst ho
      rw [if_pos rfl, hnone, Option.none_or]
    · rw [if_neg ho]

theorem find?_adopt_all (table : Entries) {key : String} {keys : List String} (h : key ∈ keys)
    (entries : Entries) :
    (keys.foldl (adopt table) entries).find? key = (table.find? key).or (entries.find? key) := by
  have hgeneral : (keys.foldl (adopt table) entries).find? key =
      if key ∈ keys then (table.find? key).or (entries.find? key) else entries.find? key := by
    clear h
    induction keys generalizing entries with
    | nil => simp
    | cons other keys ih =>
      rw [List.foldl_cons, ih, find?_adopt]
      by_cases ho : other = key
      · simp [ho, ← Option.or_assoc]
      · simp [ho, Ne.symm ho]
  rw [hgeneral, if_pos h]

def setting (table extra : Entries) (key : String) : Option Value :=
  (table.find? key).or (extra.find? key)

theorem readOptions_eq_ok {table : Entries} {options : Html.Options} :
    readOptions (.table table) = .ok options ↔
      ∃ extra, entriesOf ((table.find? "html_options").getD (.table [])) = .ok extra ∧
        options = ⟨((setting table extra "escape_html").map Value.truthy).getD true,
          ((setting table extra "inject_math_script").map Value.truthy).getD true,
          (setting table extra "math_script").getD (.str Html.mathScript)⟩ := by
  have hsettings (extra : Entries) : Html.Options.ofEntries (directKeys.foldl (adopt table) extra) =
      ⟨((setting table extra "escape_html").map Value.truthy).getD true,
        ((setting table extra "inject_math_script").map Value.truthy).getD true,
        (setting table extra "math_script").getD (.str Html.mathScript)⟩ := by
    have hfind {key : String} (h : key ∈ directKeys) :
        (directKeys.foldl (adopt table) extra).find? key = setting table extra key :=
      find?_adopt_all table h extra
    rw [Html.Options.ofEntries, hfind (by decide), hfind (by decide), hfind (by decide)]
  rw [readOptions_table]
  constructor
  · intro h
    split at h
    · cases h
    · rename_i extra hextra
      cases h
      exact ⟨extra, hextra, hsettings extra⟩
  · rintro ⟨extra, hextra, rfl⟩
    rw [hextra]
    exact congrArg Except.ok (hsettings extra)

section Insertion

variable {table : Entries} {options : Html.Options}

theorem injecting_of_readOptions {v : Value} (h : readOptions (.table table) = .ok options)
    (hv : table.find? "inject_math_script" = some v) : options.injecting = v.truthy := by
  obtain ⟨extra, -, rfl⟩ := readOptions_eq_ok.mp h
  simp [setting, hv]

theorem readOptions_insert_injecting (h : readOptions (.table table) = .ok options) (v : Value) :
    readOptions (.table (table.insert (.str "inject_math_script") v)) =
      .ok { options with injecting := v.truthy } := by
  obtain ⟨extra, hextra, rfl⟩ := readOptions_eq_ok.mp h
  apply readOptions_eq_ok.mpr
  refine ⟨extra, ?_, ?_⟩
  · simpa [Entries.find?_insert] using hextra
  · simp [setting, Entries.find?_insert]

theorem readOptions_insert_script (h : readOptions (.table table) = .ok options) (v : Value) :
    readOptions (.table (table.insert (.str "math_script") v)) =
      .ok { options with script := v } := by
  obtain ⟨extra, hextra, rfl⟩ := readOptions_eq_ok.mp h
  apply readOptions_eq_ok.mpr
  refine ⟨extra, ?_, ?_⟩
  · simpa [Entries.find?_insert] using hextra
  · simp [setting, Entries.find?_insert]

end Insertion

end Compiler

def compiled (escaping : Bool) (source : String) : Except Fault String :=
  ((parse (tokenize source) nestingLimit).map (Html.render escaping)).mapError .parse

section Compiling

variable {table : Entries} {options : Html.Options}

theorem compileSource_of_parse (h : Compiler.readOptions (.table table) = .ok options)
    {source : String} {document : Node} (hp : parse (tokenize source) nestingLimit = .ok document) :
    compileSource (.str source) table =
      (Html.renderDocument options document).mapError .misuse := by
  rw [compileSource, Compiler.create, h]
  simp only [Compiler.compile, Compiler.parse, Compiler.parseResult, readSource, hp]

theorem compileSource_eq (h : Compiler.readOptions (.table table) = .ok options)
    (hi : options.injecting = false) (source : String) :
    compileSource (.str source) table = compiled options.escaping source := by
  rw [compiled]
  cases hp : parse (tokenize source) nestingLimit with
  | error e =>
    rw [compileSource, Compiler.create, h]
    simp only [Compiler.compile, Compiler.parse, Compiler.parseResult, readSource, hp]
    rfl
  | ok document =>
    have hrender : Html.renderDocument options document =
        .ok (Html.render options.escaping document) := by simp [Html.renderDocument, hi]
    rw [compileSource_of_parse h hp, hrender]
    rfl

end Compiling

section Fragments

variable {options : Entries}
  (hoff : ∀ v, options.find? "inject_math_script" = some v → v.truthy = false)

include hoff

theorem exists_fragment_table :
    ∃ table v, (∀ source, compileFragment source options = compileSource source table) ∧
      table.find? "inject_math_script" = some v ∧ v.truthy = false ∧
      ∀ o, Compiler.readOptions (.table options) = .ok o →
        Compiler.readOptions (.table table) = .ok { o with injecting := false } := by
  cases hf : options.find? "inject_math_script" with
  | some v =>
    refine ⟨options, v, fun source => ?_, hf, hoff v hf, ?_⟩
    · rw [compileFragment, hf]
    · intro o ho
      have hi : o.injecting = false := (Compiler.injecting_of_readOptions ho hf).trans (hoff v hf)
      rw [ho, ← hi]
  | none =>
    refine ⟨options.insert (.str "inject_math_script") (.bool false), .bool false, fun source => ?_,
      ?_, rfl, ?_⟩
    · rw [compileFragment, hf]
    · rw [Entries.find?_insert, if_pos rfl]
    · intro o ho
      exact Compiler.readOptions_insert_injecting ho (.bool false)

theorem compileFragment_eq {o : Html.Options}
    (h : Compiler.readOptions (.table options) = .ok o) (source : String) :
    compileFragment (.str source) options = compiled o.escaping source := by
  obtain ⟨table, v, htable, -, -, hread⟩ := exists_fragment_table hoff
  rw [htable]
  exact compileSource_eq (hread o h) rfl source

theorem exists_compiled {source html : String}
    (h : compileFragment (.str source) options = .ok html) :
    ∃ escaping, ∀ s, compileFragment (.str s) options = compiled escaping s := by
  obtain ⟨table, v, htable, hf, hv, -⟩ := exists_fragment_table hoff
  cases ho : Compiler.readOptions (.table table) with
  | error e =>
    rw [htable, compileSource, Compiler.create, ho] at h
    cases h
  | ok o =>
    have hi : o.injecting = false := (Compiler.injecting_of_readOptions ho hf).trans hv
    exact ⟨o.escaping, fun s => (htable (.str s)).trans (compileSource_eq ho hi s)⟩

end Fragments

end TexHtml
