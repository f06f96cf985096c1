import Mathlib.Data.List.Induction
import Mathlib.Data.List.Nodup
import TexHtml.Program.Basic
import TexHtml.Proofs.Loading
import TexHtml.Proofs.Placeholders

namespace TexHtml.Environment

def names (env : Environment) : List String := env.map Prod.fst

theorem get?_cons (name value : String) (env : Environment) (n : String) :
    get? ((name, value) :: env) n = if n = name then some value else env.get? n := by
  rw [get?, List.lookup_cons]
  by_cases h : n = name
  · simp [h]
  · simp [h, beq_false_of_ne h, get?]

theorem get?_append (env more : Environment) (n : String) :
    get? (env ++ more) n = (env.get? n).or (more.get? n) :=
  List.lookup_append

theorem get?_eq_none_iff {env : Environment} {n : String} :
    env.get? n = none ↔ n ∉ env.names := by
  induction env with
  | nil => simp [get?, names]
  | cons p env ih =>
    obtain ⟨name, value⟩ := p
    rw [get?_cons]
    by_cases h : n = name
    · simp [h, names]
    · rw [if_neg h, ih]
      simp [h, names]

theorem get?_put (env : Environment) (name value n : String) :
    (env.put name value).get? n = if n = name then some value else env.get? n := by
  induction env with
  | nil => exact get?_cons name value [] n
  | cons p env ih =>
    obtain ⟨first, v⟩ := p
    rw [put]
    split
    · rename_i hfirst
      rw [get?_cons, get?_cons, hfirst]
      split <;> rfl
    · rename_i hfirst
      rw [get?_cons, get?_cons, ih]
      by_cases hn : n = first
      · have hne : n ≠ name := by rintro rfl; exact hfirst hn.symm
        rw [if_pos hn, if_pos hn, if_neg hne]
      · rw [if_neg hn, if_neg hn]

theorem names_put (env : Environment) (name value : String) :
    (env.put name value).names = if name ∈ env.names then env.names else env.names ++ [name] := by
  induction env with
  | nil => rfl
  | cons p env ih =>
    obtain ⟨first, v⟩ := p
    rw [put]
    by_cases hfirst : first = name
    · simp [hfirst, names]
    · simp only [names] at ih
      by_cases hmem : name ∈ env.map Prod.fst
      · simp [names, hfirst, ih, hmem]
      · simp [names, hfirst, ih, hmem, Ne.symm hfirst]

theorem ofPairs_concat (pairs : List (String × String)) (p : String × String) :
    ofPairs (pairs ++ [p]) = (ofPairs pairs).put p.1 p.2 := by
  rw [ofPairs, List.foldl_append]
  rfl

theorem get?_ofPairs (pairs : List (String × String)) (n : String) :
    (ofPairs pairs).get? n = pairs.reverse.lookup n := by
  induction pairs using List.reverseRecOn with
  | nil => rfl
  | append_singleton pairs p ih =>
    rw [ofPairs_concat, get?_put, ih, List.reverse_concat]
    exact (get?_cons p.1 p.2 pairs.reverse n).symm

theorem names_ofPairs (pairs : List (String × String)) :
    (ofPairs pairs).names = (pairs.map Prod.fst).eraseDups := by
  induction pairs using List.reverseRecOn with
  | nil => rfl
  | append_singleton pairs p ih =>
    rw [ofPairs_concat, names_put, ih, List.map_append, List.eraseDups_append]
    by_cases hmem : p.1 ∈ pairs.map Prod.fst
    · rw [if_pos (List.mem_eraseDups.mpr hmem)]
      simp [List.removeAll, hmem]
    · rw [if_neg (by rwa [List.mem_eraseDups])]
      simp [List.removeAll, hmem, List.eraseDups_cons]

theorem nodup_names_ofPairs (pairs : List (String × String)) : (ofPairs pairs).names.Nodup := by
  induction pairs using List.reverseRecOn with
  | nil => exact .nil
  | append_singleton pairs p ih =>
    rw [ofPairs_concat, names_put]
    split
    · exact ih
    · rename_i hmem
      exact List.concat_eq_append ▸ List.Nodup.concat hmem ih

def Acceptable (p : String × String) : Prop :=
  p.1 ≠ "" ∧ Char.ofNat 0 ∉ p.1.toList ∧ Char.ofNat 0 ∉ p.2.toList

instance (p : String × String) : Decidable (Acceptable p) :=
  inferInstanceAs (Decidable (_ ∧ _ ∧ _))

theorem refusal?_eq_none_iff {name value : String} :
    refusal? name value = none ↔ Acceptable (name, value) := by
  rw [refusal?, Acceptable, hasNull, hasNull]
  split
  · rename_i hnull
    simp only [Bool.or_eq_true, List.contains_iff_mem] at hnull
    simp only [reduceCtorEq, false_iff]
    rintro ⟨-, hname, hvalue⟩
    exact hnull.elim hname hvalue
  · rename_i hnull
    simp only [Bool.or_eq_true, List.contains_iff_mem, not_or] at hnull
    simp [hnull]

def lacks (env : Environment) (p : String × String) : Bool := (env.get? p.1).isNone

def Admits (env : Environment) (p : String × String) : Prop := env.get? p.1 = none → Acceptable p

instance (env : Environment) (p : String × String) : Decidable (env.Admits p) :=
  inferInstanceAs (Decidable (_ → _))

theorem lacks_append_singleton {env : Environment} {p q : String × String} (h : q.1 ≠ p.1) :
    lacks (env ++ [p]) q = env.lacks q := by
  have hsingle : get? [p] q.1 = none := by
    rw [get?_eq_none_iff]
    simpa [names] using h
  rw [lacks, get?_append, hsingle, Option.or_none, lacks]

theorem get?_filter_lacks {env : Environment} {n : String} (h : env.get? n = none)
    (given : Environment) : get? (given.filter env.lacks) n = given.get? n := by
  induction given with
  | nil => rfl
  | cons p given ih =>
    obtain ⟨name, value⟩ := p
    rw [get?_cons]
    by_cases hn : n = name
    · have hlacks : env.lacks (name, value) := by simp [lacks, ← hn, h]
      rw [List.filter_cons_of_pos hlacks, get?_cons, if_pos hn, if_pos hn]
    · rw [if_neg hn, List.filter_cons]
      split
      · rw [get?_cons, if_neg hn, ih]
      · exact ih

theorem adopt_append {env : Environment} {front rest : List (String × String)}
    (hnodup : (names front).Nodup) (h : ∀ p ∈ front, env.Admits p) :
    env.adopt (front ++ rest) = adopt (env ++ front.filter env.lacks) rest := by
  induction front generalizing env with
  | nil => rw [List.filter_nil, List.append_nil, List.nil_append]
  | cons p front ih =>
    obtain ⟨name, value⟩ := p
    obtain ⟨hfresh, hfront⟩ := List.nodup_cons.mp hnodup
    have hrest (p : String × String) (hp : p ∈ front) : env.Admits p :=
      h p (List.mem_cons_of_mem _ hp)
    rw [List.cons_append, adopt]
    cases hget : env.get? name with
    | some v =>
      have hlacks : ¬ env.lacks (name, value) := by simp [lacks, hget]
      rw [if_pos (Option.isSome_some), ih hfront hrest, List.filter_cons_of_neg hlacks]
    | none =>
      have hlacks : env.lacks (name, value) := by simp [lacks, hget]
      have haccept := h (name, value) List.mem_cons_self hget
      have hsame (p : String × String) (hp : p ∈ front) :
          lacks (env ++ [(name, value)]) p = env.lacks p := by
        apply lacks_append_singleton
        rintro heq
        exact hfresh (heq ▸ List.mem_map_of_mem hp)
      have hadmits (p : String × String) (hp : p ∈ front) : Admits (env ++ [(name, value)]) p := by
        intro hnone
        apply hrest p hp
        have hlacks := hsame p hp
        simpa [lacks, hnone] using hlacks
      rw [if_neg (by simp), refusal?_eq_none_iff.mpr haccept]
      dsimp only
      rw [ih hfront hadmits, List.filter_congr hsame, List.filter_cons_of_pos hlacks,
        List.append_assoc]
      rfl

theorem adopt_of_admits {env : Environment} {given : List (String × String)}
    (hnodup : (names given).Nodup) (h : ∀ p ∈ given, env.Admits p) :
    env.adopt given = (env ++ given.filter env.lacks, .ok ()) := by
  have hall : env.adopt (given ++ []) = adopt (env ++ given.filter env.lacks) [] :=
    adopt_append hnodup h
  rwa [List.append_nil] at hall

theorem adopt_of_not_admits {env : Environment} {given : List (String × String)}
    (hnodup : (names given).Nodup) (h : ∃ p ∈ given, ¬ env.Admits p) :
    ∃ e, env.adopt given =
      (env ++ (given.takeWhile fun p => env.Admits p).filter env.lacks, .error e) := by
  obtain ⟨p, hp, hblocked⟩ := h
  let front := given.takeWhile fun p => env.Admits p
  have hadmits (p : String × String) (hp : p ∈ front) : env.Admits p := by
    simpa using List.mem_takeWhile_imp hp
  have hsplit : given = front ++ given.dropWhile fun p => env.Admits p :=
    List.takeWhile_append_dropWhile.symm
  cases hrest : given.dropWhile fun p => env.Admits p with
  | nil =>
    rw [hrest, List.append_nil] at hsplit
    exact absurd (hadmits p (hsplit ▸ hp)) hblocked
  | cons q rest =>
    obtain ⟨name, value⟩ := q
    rw [hrest] at hsplit
    have hq : ¬ env.Admits (name, value) := by
      have hhead := List.head_dropWhile_not (fun p => decide (env.Admits p))
        (hrest ▸ List.cons_ne_nil (name, value) rest)
      simpa [hrest] using hhead
    obtain ⟨hnone, hrefused⟩ := Classical.not_imp.mp hq
    have hnames : (names front ++ name :: names rest).Nodup := by
      rw [hsplit, names, List.map_append] at hnodup
      exact hnodup
    -- the names are distinct, so what was added does not set the variable either
    have hstill : get? (env ++ front.filter env.lacks) name = none := by
      have hfresh : name ∉ names (front.filter env.lacks) := by
        intro hmem
        have hfront := (List.filter_sublist.map Prod.fst).subset hmem
        exact (List.nodup_append.mp hnames).2.2 name hfront name List.mem_cons_self rfl
      rw [get?_append, hnone, get?_eq_none_iff.mpr hfresh]
      rfl
    obtain ⟨e, he⟩ := Option.ne_none_iff_exists'.mp (mt refusal?_eq_none_iff.mp hrefused)
    refine ⟨e, ?_⟩
    change _ = (env ++ front.filter env.lacks, _)
    rw [hsplit, adopt_append (List.nodup_append.mp hnames).1 hadmits, adopt, hstill,
      if_neg (by simp), he]

end TexHtml.Environment

namespace TexHtml.Dotenv

/-- What a file of variables holds: its names in the order of their first occurrence, each with the
last value that it is given. -/
def Holds (text : List Char) (given : Environment) : Prop :=
  given.names = (((Text.lines text).filterMap assignment?).map Prod.fst).eraseDups ∧
    ∀ n, given.get? n = ((Text.lines text).filterMap assignment?).reverse.lookup n

def Given (disk : Disk) (path : String) (given : Environment) : Prop :=
  disk.isFile path = false ∧ given = [] ∨
    disk.isFile path = true ∧ ∃ octets text, disk.read path = .ok octets ∧
      Text.Utf8.decodeInBlocks octets = .ok text ∧ Holds text given

theorem holds_read (text : List Char) : Holds text (read text) :=
  ⟨Environment.names_ofPairs _, Environment.get?_ofPairs _⟩

theorem load_eq_ok {disk : Disk} {env given : Environment} {path : String}
    (h : (load disk env path false).result = .ok given) :
    disk.isFile path = false ∧ given = [] ∨
      disk.isFile path = true ∧ ∃ octets text, disk.read path = .ok octets ∧
        Text.Utf8.decodeInBlocks octets = .ok text ∧ given = read text := by
  rw [load] at h
  split at h
  · rename_i hmissing
    cases h
    exact .inl ⟨by simpa using hmissing, rfl⟩
  · rename_i hfile
    split at h
    · cases h
    · rename_i octets hread
      split at h
      · cases h
      · rename_i text htext
        cases h
        exact .inr ⟨by simpa using hfile, octets, text, hread, htext, rfl⟩

theorem given_of_load {disk : Disk} {env given : Environment} {path : String}
    (h : (load disk env path false).result = .ok given) :
    Given disk path given ∧ given.names.Nodup := by
  rcases load_eq_ok h with ⟨hmissing, rfl⟩ | ⟨hfile, octets, text, hread, htext, rfl⟩
  · exact ⟨.inl ⟨hmissing, rfl⟩, .nil⟩
  · refine ⟨.inr ⟨hfile, octets, text, hread, htext, holds_read text⟩, ?_⟩
    exact Environment.nodup_names_ofPairs _

theorem load_adopting {disk : Disk} {env given : Environment} {path : String}
    (h : (load disk env path false).result = .ok given) :
    (load disk env path true).environment = (env.adopt given).1 ∧
      (load disk env path true).result =
        ((env.adopt given).2.map fun _ => given).mapError Fault.file := by
  rw [load]
  rcases load_eq_ok h with ⟨hmissing, rfl⟩ | ⟨hfile, octets, text, hread, htext, rfl⟩
  · rw [hmissing]
    exact ⟨rfl, rfl⟩
  · rw [if_neg (by simp [hfile]), hread]
    dsimp only
    rw [htext]
    dsimp only
    rcases env.adopt (read text) with ⟨env', result⟩
    cases result <;> exact ⟨rfl, rfl⟩

end TexHtml.Dotenv

namespace TexHtml.Settings

/-- Variables of the environment win over those of the file, and placeholders are replaced by what
both give together. A variable that cannot be set ends the loading; what precedes it in the file is
set by then. -/
theorem load_with_variables (reader : Reader) (disk : Disk) (env : Environment) (path : String)
    (directories : List String) (dotenvPath : String) {given : Environment}
    (h : (Dotenv.load disk env dotenvPath false).result = .ok given) :
    let loading := load reader disk env path directories dotenvPath
    let value := fun n => (env.get? n).or (given.get? n)
    Dotenv.Given disk dotenvPath given ∧
    ((∀ p ∈ given, env.Admits p) →
      (∀ n, loading.environment.get? n = value n) ∧
      ∀ settings, (loadFiles reader disk disk.below path directories).result = .ok settings →
        ∃ substituted, loading.result = .ok substituted ∧
          Placeholder.SubstitutedEntries value settings substituted) ∧
    ((∃ p ∈ given, ¬ env.Admits p) →
      (∃ fault, loading.result = .error fault) ∧
      loading.environment = env ++ (given.takeWhile fun p => env.Admits p).filter env.lacks) := by
  intro loading value
  obtain ⟨hgiven, hnodup⟩ := Dotenv.given_of_load h
  obtain ⟨henv, hresult⟩ := Dotenv.load_adopting h
  have henvironment : loading.environment = (env.adopt given).1 :=
    (environment_load reader disk env path directories dotenvPath).trans henv
  have hloading := result_load reader disk env path directories dotenvPath
  rw [henv, hresult] at hloading
  refine ⟨hgiven, fun hadmits => ?_, fun hblocked => ?_⟩
  · have hadopt := Environment.adopt_of_admits hnodup hadmits
    have hvalue (n : String) : loading.environment.get? n = value n := by
      rw [henvironment, hadopt, Environment.get?_append]
      cases hn : env.get? n with
      | some v => simp [value, hn]
      | none => simp [value, hn, Environment.get?_filter_lacks hn]
    refine ⟨hvalue, fun settings hsettings => ?_⟩
    rw [hsettings, ← henvironment, hadopt] at hloading
    exact ⟨_, hloading, Placeholder.substitutedEntries_substituteEntries hvalue settings⟩
  · obtain ⟨e, hadopt⟩ := Environment.adopt_of_not_admits hnodup hblocked
    rw [hadopt] at hloading henvironment
    exact ⟨⟨.file e, hloading⟩, henvironment⟩

theorem eq_ok_of_toOption {ε α : Type} {x : Except ε α} {a : α} (h : x.toOption = some a) :
    x = .ok a := by
  cases x with
  | error e => cases h
  | ok b => cases h; rfl

def diskOfVariables (text : String) : Disk where
  here := ["home"]
  entries := [(["home"], .directory), (["home", ".env"], .file (Text.Utf8.encode text.toList))]

def diskOfSettings (given settings : String) : Disk where
  here := ["home"]
  entries :=
    (diskOfVariables given).entries ++
      [(["home", "main.toml"], .file (Text.Utf8.encode settings.toList))]

def entriesOfTexts (pairs : List (String × String)) : Entries :=
  pairs.map fun p => (.str p.1, .str p.2)

def texts? (entries : Entries) : Option (List (String × String)) :=
  entries.mapM fun e => do return (← e.1.str?, ← e.2.str?)

theorem eq_of_texts? {entries : Entries} {pairs : List (String × String)}
    (h : texts? entries = some pairs) : entries = entriesOfTexts pairs := by
  induction entries generalizing pairs with
  | nil =>
    cases h
    rfl
  | cons e entries ih =>
    obtain ⟨key, value⟩ := e
    rw [texts?, List.mapM_cons] at h
    cases key with
    | str k =>
      cases value with
      | str v =>
        change (texts? entries).bind (fun rest => some ((k, v) :: rest)) = some pairs at h
        obtain ⟨rest, hrest, hpairs⟩ := Option.bind_eq_some_iff.mp h
        cases hpairs
        rw [ih hrest]
        rfl
      | _ => cases h
    | _ => cases h

theorem eq_ok_of_texts {ε : Type} {x : Except ε Entries} {pairs : List (String × String)}
    (h : x.toOption.bind texts? = some pairs) : x = .ok (entriesOfTexts pairs) := by
  obtain ⟨entries, hx, htexts⟩ := Option.bind_eq_some_iff.mp h
  rw [eq_ok_of_toOption hx, eq_of_texts? htexts]

theorem load_with_repeated_variables :
    let env := [("B", "0")]
    let given := [("A", "3"), ("B", "2")]
    let disk := diskOfSettings "A=1\nB=2\n A = \"3\"\n"
      "p = \"$\x7bB\x7d\"\nq = \"$\x7bA\x7d\"\nr = \"$\x7bC\x7d\"\n"
    let loading := load Program.tomlReader disk env "main.toml" [] ".env"
    let value := fun n => (Environment.get? env n).or (Environment.get? given n)
    let written := entriesOfTexts [("p", "$\x7bB\x7d"), ("q", "$\x7bA\x7d"), ("r", "$\x7bC\x7d")]
    let replaced := entriesOfTexts [("p", "0"), ("q", "3"), ("r", "$\x7bC\x7d")]
    let broken := diskOfVariables "A=1\n=2\nC=3\nA=4\n"
    ((Dotenv.load disk env ".env" false).result = .ok given ∧
      (∀ n, loading.environment.get? n = value n) ∧
      (loadFiles Program.tomlReader disk disk.below "main.toml" []).result = .ok written ∧
      loading.result = .ok replaced ∧ Placeholder.SubstitutedEntries value written replaced) ∧
    (Dotenv.load broken env ".env" false).result = .ok [("A", "4"), ("", "2"), ("C", "3")] ∧
      (∃ fault, (load Program.tomlReader broken env "main.toml" [] ".env").result = .error fault) ∧
      (load Program.tomlReader broken env "main.toml" [] ".env").environment =
        [("B", "0"), ("A", "4")] := by
  intro env given disk loading value written replaced broken
  have hgiven : (Dotenv.load disk env ".env" false).result = .ok given :=
    eq_ok_of_toOption (by decide +kernel)
  have hbroken : (Dotenv.load broken env ".env" false).result =
      .ok [("A", "4"), ("", "2"), ("C", "3")] := eq_ok_of_toOption (by decide +kernel)
  have hwritten : (loadFiles Program.tomlReader disk disk.below "main.toml" []).result =
      .ok written := eq_ok_of_texts (by decide +kernel)
  have hreplaced : loading.result = .ok replaced := eq_ok_of_texts (by decide +kernel)
  obtain ⟨-, hadmitted, -⟩ :=
    load_with_variables Program.tomlReader disk env "main.toml" [] ".env" hgiven
  obtain ⟨hvalue, hsubstituted⟩ := hadmitted (by decide +kernel)
  obtain ⟨entries, hentries, hsubstituted⟩ := hsubstituted written hwritten
  obtain rfl : replaced = entries := Except.ok.inj (hreplaced.symm.trans hentries)
  obtain ⟨-, -, hblocked⟩ :=
    load_with_variables Program.tomlReader broken env "main.toml" [] ".env" hbroken
  obtain ⟨hfault, henvironment⟩ := hblocked ⟨("", "2"), by decide +kernel, by decide +kernel⟩
  exact ⟨⟨hgiven, hvalue, hwritten, hreplaced, hsubstituted⟩, hbroken, hfault,
    henvironment.trans (by decide +kernel)⟩

end TexHtml.Settings
