import TexHtml.Proofs.Fragment
import TexHtml.Proofs.LoggerSetup

/-!
The tables of the options set up one logger each, in their order. Levels do not depend on that order,
and neither does where handlers write and how. But a handler without a level of its own falls back on
the one that its logger has or inherits when its table is reached, so loggers that inherit must come
behind those that hand a level down to them.
-/

namespace TexHtml

namespace Setup

open Journal

def plan? (e : Value × Value) : Option (String × Entries) :=
  match readName e.1, e.2 with
  | .ok name, .table options => some (name, options)
  | _, _ => none

def plans (tables : Entries) : List (String × Entries) := tables.filterMap plan?

def tableNames (tables : Entries) : List String := (plans tables).map Prod.fst

theorem plan?_eq_some {e : Value × Value} {name : String} {options : Entries} :
    plan? e = some (name, options) ↔ readName e.1 = .ok name ∧ e.2 = .table options := by
  rw [plan?]
  split
  · rename_i hname htable
    simp [hname, htable]
  · rename_i hnot
    refine iff_of_false nofun fun h => ?_
    exact hnot name options h.1 h.2

theorem ne_empty_of_plan? {e : Value × Value} {name : String} {options : Entries}
    (h : plan? e = some (name, options)) : name ≠ "" := by
  have hname := (plan?_eq_some.mp h).1
  unfold readName at hname
  split at hname
  · cases hname
    decide
  · rename_i htruthy
    split at hname
    · rename_i s hs
      cases hname
      rw [hs] at htruthy
      simpa [Value.truthy] using htruthy
    · cases hname

def configureEntry (e : Value × Value) : Setup Unit := do configure (← use (readName e.1)) e.2

theorem of_on_configureEntry {e : Value × Value} {j j' : Journal}
    (h : (configureEntry e).on j = (.ok (), j')) :
    ∃ name options, plan? e = some (name, options) ∧ Carried name options j j' := by
  obtain ⟨name, j₁, huse, h₁⟩ := of_on_bind h
  obtain ⟨hname, rfl⟩ := of_on_use huse
  obtain ⟨options, htable, hcarried⟩ := of_on_configure h₁
  exact ⟨name, options, plan?_eq_some.mpr ⟨hname, htable⟩, hcarried⟩

theorem completes_configureEntry {e : Value × Value} {name : String} {options : Entries}
    {here : List String} (he : plan? e = some (name, options)) (h : Usable options here) :
    Completes here (configureEntry e) := by
  obtain ⟨hname, htable⟩ := plan?_eq_some.mp he
  rw [configureEntry, hname, htable]
  exact completes_configure h

inductive Runs : List (String × Entries) → Journal → Journal → Prop
  | nil (j : Journal) : Runs [] j j
  | cons {name : String} {options : Entries} {rest : List (String × Entries)} {j i k : Journal}
      (h : Carried name options j i) (hrest : Runs rest i k) : Runs ((name, options) :: rest) j k

theorem of_on_tables {tables : Entries} {j j' : Journal}
    (h : (tables.forM configureEntry).on j = (.ok (), j')) :
    (∀ e ∈ tables, (plan? e).isSome) ∧ Runs (plans tables) j j' := by
  induction tables generalizing j with
  | nil =>
    cases h
    exact ⟨nofun, .nil _⟩
  | cons e rest ih =>
    obtain ⟨_, i, hfirst, h₁⟩ := of_on_bind h
    obtain ⟨name, options, hplan, hcarried⟩ := of_on_configureEntry hfirst
    obtain ⟨hplans, hruns⟩ := ih h₁
    constructor
    · intro e' he'
      rcases List.mem_cons.mp he' with rfl | he'
      · rw [hplan]
        rfl
      · exact hplans e' he'
    · rw [plans, List.filterMap_cons_some hplan]
      exact .cons hcarried hruns

namespace Runs

variable {ps us vs : List (String × Entries)} {name : String} {options : Entries} {j k : Journal}

theorem here (h : Runs ps j k) : k.disk.here = j.disk.here := by
  induction h with
  | nil j => rfl
  | cons h hrest ih => exact ih.trans h.here

theorem lookup_of_not_mem (h : Runs ps j k) (hname : name ∉ ps.map Prod.fst) :
    k.loggers.lookup name = j.loggers.lookup name := by
  induction h with
  | nil j => rfl
  | cons h hrest ih =>
    rw [List.map_cons, List.mem_cons, not_or] at hname
    exact (ih hname.2).trans (h.others name hname.1)

theorem split (h : Runs (us ++ (name, options) :: vs) j k) :
    ∃ i i', Runs us j i ∧ Carried name options i i' ∧ Runs vs i' k := by
  induction us generalizing j with
  | nil =>
    cases h with
    | cons h hrest => exact ⟨j, _, .nil j, h, hrest⟩
  | cons first us ih =>
    cases h with
    | cons h hrest =>
      obtain ⟨i, i', hbefore, hcarried, hbehind⟩ := ih hrest
      exact ⟨i, i', .cons h hbefore, hcarried, hbehind⟩

theorem concat {i : Journal} (h : Runs us j i) (hlast : Carried name options i k) :
    Runs (us ++ [(name, options)]) j k := by
  induction h with
  | nil j => exact .cons hlast (.nil k)
  | cons h hrest ih => exact .cons h (ih hlast)

-- Each logger is set up once, so what its setup finds of it is what there was before all of them, and
-- what its setup leaves is what there is in the end.
theorem moment (h : Runs ps j k) (hnodup : (ps.map Prod.fst).Nodup) (hmem : (name, options) ∈ ps) :
    ∃ us vs i i', ps = us ++ (name, options) :: vs ∧ Runs us j i ∧ Carried name options i i' ∧
      i.get name = j.get name ∧ k.loggers.lookup name = i'.loggers.lookup name := by
  obtain ⟨us, vs, rfl⟩ := List.append_of_mem hmem
  obtain ⟨i, i', hbefore, hcarried, hbehind⟩ := h.split
  rw [List.map_append, List.map_cons] at hnodup
  obtain ⟨-, hrest, hapart⟩ := List.nodup_append.mp hnodup
  have hus : name ∉ us.map Prod.fst := fun hus => hapart name hus name List.mem_cons_self rfl
  have hvs : name ∉ vs.map Prod.fst := (List.nodup_cons.mp hrest).1
  refine ⟨us, vs, i, i', rfl, hbefore, hcarried, ?_, hbehind.lookup_of_not_mem hvs⟩
  rw [Journal.get, Journal.get, hbefore.lookup_of_not_mem hus]

theorem levelView_of_mem (h : Runs ps j k) (hnodup : (ps.map Prod.fst).Nodup)
    (hmem : (name, options) ∈ ps) :
    k.levelView name = some ((levelAt options "level").getD (j.get name).level) := by
  obtain ⟨us, vs, i, i', -, -, hcarried, hget, hlookup⟩ := h.moment hnodup hmem
  rw [levelView, hlookup, ← hget, ← hcarried.level]
  exact levelView_of_present hcarried.present

theorem levelView_congr {ps' : List (String × Entries)} {k' : Journal} (h : Runs ps j k)
    (h' : Runs ps' j k') (hnodup : (ps.map Prod.fst).Nodup) (hnodup' : (ps'.map Prod.fst).Nodup)
    (hsame : ∀ options, (name, options) ∈ ps' ↔ (name, options) ∈ ps) :
    k'.levelView name = k.levelView name := by
  by_cases hname : name ∈ ps.map Prod.fst
  · obtain ⟨⟨_, options⟩, hmem, rfl⟩ := List.mem_map.mp hname
    rw [h.levelView_of_mem hnodup hmem, h'.levelView_of_mem hnodup' ((hsame options).mpr hmem)]
  · have hname' : name ∉ ps'.map Prod.fst := by
      intro hname'
      obtain ⟨⟨_, options⟩, hmem, rfl⟩ := List.mem_map.mp hname'
      exact hname (List.mem_map_of_mem ((hsame options).mp hmem))
    rw [levelView, levelView, h.lookup_of_not_mem hname, h'.lookup_of_not_mem hname']

theorem level_kept (h : Runs ps j k) (hnodup : (ps.map Prod.fst).Nodup)
    (hnone : ∀ options, (name, options) ∈ ps → levelAt options "level" = none) :
    (k.levelView name).getD .notSet = (j.levelView name).getD .notSet := by
  by_cases hname : name ∈ ps.map Prod.fst
  · obtain ⟨⟨_, options⟩, hmem, rfl⟩ := List.mem_map.mp hname
    rw [h.levelView_of_mem hnodup hmem, hnone options hmem, ← level_get]
    rfl
  · rw [levelView, levelView, h.lookup_of_not_mem hname]

end Runs

def Opened (j : Journal) (p : String × Entries) : Prop :=
  (p.2.find? "file").isSome → ∃ h ∈ (j.get p.1).handlers, h.sink ≠ .stream

def FilesOpened (tables : Entries) (j : Journal) : Prop := ∀ p ∈ plans tables, Opened j p

instance (j : Journal) (p : String × Entries) : Decidable (Opened j p) :=
  inferInstanceAs (Decidable ((p.2.find? "file").isSome → ∃ h ∈ (j.get p.1).handlers, h.sink ≠ .stream))

instance (tables : Entries) (j : Journal) : Decidable (FilesOpened tables j) :=
  inferInstanceAs (Decidable (∀ p ∈ plans tables, Opened j p))

theorem Carried.described {name : String} {options : Entries} {j j' : Journal}
    (h : Carried name options j j') (hopened : Opened j' (name, options)) :
    Usable options j.disk.here ∧
      (j'.get name).handlers = describedHandlers options j.disk.here (j'.effectiveLevel name) := by
  rcases h.handlers with hdescribed | ⟨hfile, hstream⟩
  · exact hdescribed
  · obtain ⟨handler, hmem, hne⟩ := hopened hfile
    exact absurd (hstream handler hmem) hne

theorem Runs.described {ps : List (String × Entries)} {name : String} {options : Entries}
    {j k : Journal} (h : Runs ps j k) (hnodup : (ps.map Prod.fst).Nodup)
    (hmem : (name, options) ∈ ps) (hopened : Opened k (name, options)) :
    ∃ us vs i, ps = us ++ (name, options) :: vs ∧ Runs (us ++ [(name, options)]) j i ∧
      (i.get name).level = (k.get name).level ∧ Usable options j.disk.here ∧
      (k.get name).handlers = describedHandlers options j.disk.here (i.effectiveLevel name) := by
  obtain ⟨us, vs, i, i', hps, hbefore, hcarried, -, hlookup⟩ := h.moment hnodup hmem
  have hget : k.get name = i'.get name := by rw [Journal.get, Journal.get, hlookup]
  have hopened' : Opened i' (name, options) := by rwa [Opened, ← hget]
  obtain ⟨husable, hhandlers⟩ := hcarried.described hopened'
  rw [hbefore.here] at husable hhandlers
  exact ⟨us, vs, i', hps, hbefore.concat hcarried, by rw [hget], husable, hget ▸ hhandlers⟩

theorem pair_sublist_iff {α : Type} {a b : α} {us vs : List α} (h : (us ++ b :: vs).Nodup) :
    [a, b].Sublist (us ++ b :: vs) ↔ a ∈ us := by
  have hb : b ∉ vs := (List.nodup_cons.mp (List.nodup_append.mp h).2.1).1
  constructor
  · intro hsub
    obtain ⟨first, last, hsplit, hfirst, hlast⟩ := List.sublist_append_iff.mp hsub
    cases first with
    | nil =>
      rw [List.nil_append] at hsplit
      rw [← hsplit] at hlast
      exact absurd (hlast.tail.subset List.mem_cons_self) hb
    | cons c first =>
      rw [(List.cons.inj hsplit).1]
      exact hfirst.subset List.mem_cons_self
  · intro ha
    exact (List.singleton_sublist.mpr ha).append (List.singleton_sublist.mpr List.mem_cons_self)

section Reordered

variable {ps ps' us us' vs vs' : List (String × Entries)} {name : String} {options : Entries}
  {j i i' : Journal}

theorem mem_before (hperm : (us ++ (name, options) :: vs).Perm (us' ++ (name, options) :: vs'))
    (hnodup : ((us ++ (name, options) :: vs).map Prod.fst).Nodup) {p : String × Entries} (hp : p ∈ us)
    (hbefore : p.1 ∈ us'.map Prod.fst) : p ∈ us' := by
  obtain ⟨q, hq, hqp⟩ := List.mem_map.mp hbefore
  have heq : q = p := List.inj_on_of_nodup_map hnodup
    (hperm.mem_iff.mpr (List.mem_append_left _ hq)) (List.mem_append_left _ hp) hqp
  rwa [← heq]

/-- A table whose place can matter to the loggers below: it names a level, or its name ends in a dot,
so that listing it brings in names that were passed over. -/
def HandsDown (p : String × Entries) : Prop :=
  (levelAt p.2 "level").isSome ∨ p.1.toList.getLast? = some '.'

instance (p : String × Entries) : Decidable (HandsDown p) := inferInstanceAs (Decidable (_ ∨ _))

-- A logger above that hands something down has been set up before in both orders or in neither, and by
-- the same table. Any other leaves the levels as they were, so it does not matter when it comes.
theorem effectiveLevel_of_order
    (hperm : (us ++ (name, options) :: vs).Perm (us' ++ (name, options) :: vs'))
    (hnodup : ((us ++ (name, options) :: vs).map Prod.fst).Nodup)
    (h : Runs (us ++ [(name, options)]) j i) (h' : Runs (us' ++ [(name, options)]) j i')
    (horder : ∀ p ∈ us ++ (name, options) :: vs, HandsDown p → IsAbove p.1 name →
      (p.1 ∈ us'.map Prod.fst ↔ p.1 ∈ us.map Prod.fst)) :
    i'.effectiveLevel name = i.effectiveLevel name := by
  have hnodup' := (hperm.map Prod.fst).nodup_iff.mp hnodup
  have hpart (us vs : List (String × Entries)) :
      (us ++ [(name, options)]).Sublist (us ++ (name, options) :: vs) := by simp
  have hfirst := hnodup.sublist ((hpart us vs).map Prod.fst)
  have hfirst' := hnodup'.sublist ((hpart us' vs').map Prod.fst)
  have hview {m : String} (hbefore : m ∈ us'.map Prod.fst ↔ m ∈ us.map Prod.fst) :
      i'.levelView m = i.levelView m := by
    apply h.levelView_congr h' hfirst hfirst'
    intro given
    rw [List.mem_append, List.mem_append]
    refine or_congr_left ⟨fun hmem => ?_, fun hmem => ?_⟩
    · exact mem_before hperm.symm hnodup' hmem (hbefore.mp (List.mem_map_of_mem hmem))
    · exact mem_before hperm hnodup hmem (hbefore.mpr (List.mem_map_of_mem hmem))
  apply effectiveLevel_congr
  intro m hm
  rcases hm with rfl | hm
  · apply sameBelow_of_levelView (hview _)
    rw [List.map_append, List.map_cons, List.nodup_middle, List.nodup_cons, List.mem_append,
      not_or] at hnodup hnodup'
    exact iff_of_false hnodup'.1.1 hnodup.1.1
  by_cases hdown : ∃ given, (m, given) ∈ us ++ (name, options) :: vs ∧ HandsDown (m, given)
  · obtain ⟨given, hmem, hdown⟩ := hdown
    exact sameBelow_of_levelView (hview (horder _ hmem hdown hm))
  have hnone (given : Entries) (hmem : (m, given) ∈ us ++ (name, options) :: vs) :
      levelAt given "level" = none ∧ m.toList.getLast? ≠ some '.' := by
    have hnot : ¬ HandsDown (m, given) := fun hd => hdown ⟨given, hmem, hd⟩
    rwa [HandsDown, not_or, Option.not_isSome_iff_eq_none] at hnot
  refine ⟨?_, fun hdot => ?_⟩
  · rw [h.level_kept hfirst fun given hmem => (hnone given ((hpart us vs).subset hmem)).1]
    exact h'.level_kept hfirst' fun given hmem =>
      (hnone given (hperm.mem_iff.mpr ((hpart us' vs').subset hmem))).1
  · -- no table is called so, or it would hand something down
    have hus : m ∉ us.map Prod.fst := by
      intro hname
      obtain ⟨⟨_, given⟩, hmem, rfl⟩ := List.mem_map.mp hname
      exact (hnone given (List.mem_append_left _ hmem)).2 hdot
    have hus' : m ∉ us'.map Prod.fst := by
      intro hname
      obtain ⟨⟨_, given⟩, hmem, rfl⟩ := List.mem_map.mp hname
      exact (hnone given (hperm.mem_iff.mpr (List.mem_append_left _ hmem))).2 hdot
    rw [hview (iff_of_false hus' hus)]

def SameBefore (ps ps' : List (String × Entries)) (name : String) : Prop :=
  ∀ p ∈ ps, HandsDown p → IsAbove p.1 name →
    ([p.1, name].Sublist (ps'.map Prod.fst) ↔ [p.1, name].Sublist (ps.map Prod.fst))

theorem handlers_reordered {k k' : Journal} (hperm : ps.Perm ps')
    (hnodup : (ps.map Prod.fst).Nodup) (h : Runs ps j k) (h' : Runs ps' j k')
    (hmem : (name, options) ∈ ps) (hname : name ≠ "") (hopened : Opened k (name, options))
    (hopened' : Opened k' (name, options)) :
    ∃ level level', (k.get name).handlers = describedHandlers options j.disk.here level ∧
      (k'.get name).handlers = describedHandlers options j.disk.here level' ∧
      ((k.get name).level ≠ .notSet ∨ SameBefore ps ps' name → level' = level) := by
  have hnodup' := (hperm.map Prod.fst).nodup_iff.mp hnodup
  have hmem' := hperm.mem_iff.mp hmem
  have hlevel : (k'.get name).level = (k.get name).level := by
    rw [level_get, level_get, h.levelView_of_mem hnodup hmem, h'.levelView_of_mem hnodup' hmem']
  obtain ⟨us, vs, i, rfl, hruns, hi, -, hhandlers⟩ := h.described hnodup hmem hopened
  obtain ⟨us', vs', i', rfl, hruns', hi', -, hhandlers'⟩ := h'.described hnodup' hmem' hopened'
  refine ⟨_, _, hhandlers, hhandlers', ?_⟩
  rintro (hset | horder)
  · calc i'.effectiveLevel name
      _ = (i'.get name).level := effectiveLevel_of_level hname (by rwa [hi', hlevel])
      _ = (i.get name).level := by rw [hi', hlevel, hi]
      _ = i.effectiveLevel name := (effectiveLevel_of_level hname (by rwa [hi])).symm
  · apply effectiveLevel_of_order hperm hnodup hruns hruns'
    intro p hp hdown habove
    have hiff := horder p hp hdown habove
    rw [List.map_append, List.map_append, List.map_cons, List.map_cons] at hiff
    rw [List.map_append, List.map_cons] at hnodup hnodup'
    rwa [pair_sublist_iff hnodup, pair_sublist_iff hnodup'] at hiff

theorem loggers_reordered {k k' : Journal} (hperm : ps.Perm ps')
    (hnodup : (ps.map Prod.fst).Nodup) (hne : ∀ p ∈ ps, p.1 ≠ "") (h : Runs ps j k)
    (h' : Runs ps' j k') (hopened : ∀ p ∈ ps, Opened k p) (hopened' : ∀ p ∈ ps', Opened k' p)
    (name : String) :
    (k'.get name).handlers.map Handler.place = (k.get name).handlers.map Handler.place ∧
      ((k.get name).level ≠ .notSet ∨ (∀ given, (name, given) ∈ ps → NamesLevels given) ∨
          SameBefore ps ps' name →
        (k'.get name).handlers = (k.get name).handlers) := by
  by_cases hname : name ∈ ps.map Prod.fst
  · obtain ⟨⟨_, options⟩, hmem, rfl⟩ := List.mem_map.mp hname
    obtain ⟨level, level', hhandlers, hhandlers', hsame⟩ := handlers_reordered hperm hnodup h h' hmem
      (hne _ hmem) (hopened _ hmem) (hopened' _ (hperm.mem_iff.mp hmem))
    rw [hhandlers, hhandlers']
    refine ⟨place_describedHandlers options j.disk.here level level', ?_⟩
    rintro (hset | hnames | horder)
    · rw [hsame (.inl hset)]
    · exact describedHandlers_of_namesLevels (hnames options hmem) j.disk.here level level'
    · rw [hsame (.inr horder)]
  · have hname' := mt (hperm.map Prod.fst).mem_iff.mpr hname
    have hget : k'.get name = k.get name := by
      rw [Journal.get, Journal.get, h.lookup_of_not_mem hname, h'.lookup_of_not_mem hname']
    rw [hget]
    exact ⟨rfl, fun _ => rfl⟩

end Reordered

-- No option of a logger is called so: the tables are read by `configureAll` alone.
theorem configure_insert_logger (name : String) (options : Entries) (v : Value) :
    configure name (.table (options.insert (.str "logger") v)) = configure name (.table options) := by
  have hfind {key : String} (hkey : key ≠ "logger") :
      Entries.find? (options.insert (.str "logger") v) key = options.find? key := by
    rw [Entries.find?_insert, if_neg hkey.symm]
  have hholds {key : String} (hkey : key ≠ "logger") :
      (Value.table (options.insert (.str "logger") v)).holds key = (Value.table options).holds key := by
    rw [Value.holds, Value.holds, hfind hkey]
  have hitem {key : String} (hkey : key ≠ "logger") :
      (Value.table (options.insert (.str "logger") v)).item key = (Value.table options).item key := by
    rw [Value.item, Value.item, hfind hkey]
  have hlookup {key : String} (hkey : key ≠ "logger") (default : Value) :
      (Value.table (options.insert (.str "logger") v)).lookup key default =
        (Value.table options).lookup key default := by
    rw [Value.lookup, Value.lookup, hfind hkey]
  have hlevel {key : String} (hkey : key ≠ "logger") (fallback : Level) :
      handlerLevel (.table (options.insert (.str "logger") v)) key fallback =
        handlerLevel (.table options) key fallback := by
    rw [handlerLevel, handlerLevel, hholds hkey, hitem hkey]
  simp (disch := decide) only [configure, takeLevel, streamHandler?, fileHandler?, hholds, hitem,
    hlookup, hlevel]

theorem of_on_configureAll {options tables : Entries} {j j' : Journal}
    (htables : options.find? "logger" = some (.table tables))
    (h : (configureAll (.table options)).on j = (.ok (), j')) :
    ∃ j₀ k, (configure rootName (.table options)).on
        (j.put rootName { j.get rootName with level := .warning }) = (.ok (), j₀) ∧
      (tables.forM configureEntry).on j₀ = (.ok (), k) ∧ k.Alike j' := by
  obtain ⟨_, j₁, hmodify, h₁⟩ := of_on_bind h
  cases hmodify
  obtain ⟨_, j₀, hroot, h₂⟩ := of_on_bind h₁
  obtain ⟨v, j₂, huse, h₃⟩ := of_on_bind h₂
  obtain ⟨hv, rfl⟩ := of_on_use huse
  rw [Value.lookup, htables] at hv
  cases hv
  obtain ⟨_, k, hrun, h₄⟩ := of_on_bind h₃
  cases h₄
  exact ⟨j₂, k, hroot, hrun, .log _ _⟩

theorem on_configureAll {options tables : Entries} {j j₀ k : Journal}
    (htables : options.find? "logger" = some (.table tables))
    (hroot : (configure rootName (.table options)).on
      (j.put rootName { j.get rootName with level := .warning }) = (.ok (), j₀))
    (h : (tables.forM configureEntry).on j₀ = (.ok (), k)) :
    ∃ j', (configureAll (.table options)).on j = (.ok (), j') ∧ k.Alike j' := by
  have hlookup : (Value.table options).lookup "logger" (.table []) = .ok (.table tables) := by
    rw [Value.lookup, htables]
    rfl
  have hfirst : (modify fun j => j.put rootName { j.get rootName with level := .warning } :
      Setup Unit).on j = (.ok (), j.put rootName { j.get rootName with level := .warning }) := rfl
  rw [configureAll, on_bind_ok hfirst, on_bind_ok hroot, on_use_bind hlookup]
  exact ⟨_, (on_bind_ok h).trans rfl, .log _ _⟩

/-- Tables in another order complete the setup as well. Every logger gets the same level and handlers
that write to the same places in the same way, and handlers of the same levels too if the logger has a
level of its own, if its options name the levels of its handlers, or if its table stands behind those
of the same loggers that hand something down to it. -/
theorem configureAll_reordered {options tables tables' : Entries} {j j₁ : Journal}
    (htables : options.find? "logger" = some (.table tables)) (hperm : tables.Perm tables')
    (hnames : (tableNames tables).Nodup) (h : (configureAll (.table options)).on j = (.ok (), j₁))
    (hopened : FilesOpened tables j₁) :
    ∃ j₂, (configureAll (.table (options.insert (.str "logger") (.table tables')))).on j =
        (.ok (), j₂) ∧
      (FilesOpened tables' j₂ → ∀ name,
        (j₂.get name).level = (j₁.get name).level ∧
        j₂.effectiveLevel name = j₁.effectiveLevel name ∧
        (j₂.get name).handlers.map Handler.place = (j₁.get name).handlers.map Handler.place ∧
        ((j₁.get name).level ≠ .notSet ∨ (∀ given, (name, given) ∈ plans tables → NamesLevels given) ∨
            SameBefore (plans tables) (plans tables') name →
          (j₂.get name).handlers = (j₁.get name).handlers)) := by
  obtain ⟨j₀, k, hroot, hrun, halike⟩ := of_on_configureAll htables h
  obtain ⟨hplans, hruns⟩ := of_on_tables hrun
  have hperm' : (plans tables).Perm (plans tables') := hperm.filterMap plan?
  have hopened_k (p : String × Entries) (hp : p ∈ plans tables) : Opened k p := by
    have hp₁ := hopened p hp
    rwa [Opened, halike.get] at hp₁
  have hcompletes : Completes j₀.disk.here (tables'.forM configureEntry) := by
    apply Completes.forM
    intro e he
    obtain ⟨⟨name, given⟩, hplan⟩ := Option.isSome_iff_exists.mp (hplans e (hperm.mem_iff.mpr he))
    have hmem := List.mem_filterMap.mpr ⟨e, hperm.mem_iff.mpr he, hplan⟩
    obtain ⟨-, -, -, -, -, -, husable, -⟩ := hruns.described hnames hmem (hopened_k _ hmem)
    exact completes_configureEntry hplan husable
  obtain ⟨_, k', hrun', -⟩ := hcompletes j₀ rfl
  have htables' : (options.insert (.str "logger") (.table tables')).find? "logger" =
      some (.table tables') := by
    rw [Entries.find?_insert, if_pos rfl]
  rw [← configure_insert_logger rootName options (.table tables')] at hroot
  obtain ⟨j₂, hon, halike'⟩ := on_configureAll htables' hroot hrun'
  refine ⟨j₂, hon, fun hopened' name => ?_⟩
  obtain ⟨-, hruns'⟩ := of_on_tables hrun'
  have hlevels (m : String) : j₂.levelView m = j₁.levelView m := by
    rw [halike.levelView, halike'.levelView]
    exact hruns.levelView_congr hruns' hnames ((hperm'.map Prod.fst).nodup_iff.mp hnames)
      fun given => hperm'.symm.mem_iff
  have hne (p : String × Entries) (hp : p ∈ plans tables) : p.1 ≠ "" := by
    obtain ⟨e, -, he⟩ := List.mem_filterMap.mp hp
    exact ne_empty_of_plan? he
  have hhandlers := loggers_reordered hperm' hnames hne hruns hruns' hopened_k
    (fun p hp => by have hp₂ := hopened' p hp; rwa [Opened, halike'.get] at hp₂) name
  rw [← halike.get, ← halike'.get] at hhandlers
  refine ⟨?_, effectiveLevel_congr fun m _ => sameBelow_of_levelView (hlevels m), hhandlers⟩
  rw [level_get, level_get, hlevels]

section Orders

def loggerOptions (tables : Entries) : Entries := [(.str "logger", .table tables)]

theorem find?_loggerOptions (tables : Entries) :
    (loggerOptions tables).find? "logger" = some (.table tables) := by
  rw [loggerOptions, Entries.find?_cons, if_pos (Value.sameKey_str.mpr rfl)]

theorem insert_loggerOptions (tables tables' : Entries) :
    (loggerOptions tables).insert (.str "logger") (.table tables') = loggerOptions tables' := by
  rw [loggerOptions, Entries.insert, if_pos (Value.sameKey_str.mpr rfl), loggerOptions]

def tried (tables : Entries) : Except Fault Unit × Journal :=
  (configureAll (.table (loggerOptions tables))).on (.start ⟨[], []⟩ "")

theorem tried_eq (tables : Entries) (h : (tried tables).1.isOk) :
    tried tables = (.ok (), (tried tables).2) := by
  rcases hr : tried tables with ⟨r, j⟩
  rw [hr] at h
  cases r with
  | error e => cases h
  | ok u => rfl

def parentTable : Value × Value := (.str "app", .table [(.str "level", .str "DEBUG")])

def childTable : Value × Value := (.str "app.db", .table [(.str "console", .bool true)])

def grandchildTable : Value × Value := (.str "app.db.pool", .table [(.str "console", .bool true)])

def strangerTable : Value × Value :=
  (.str "web", .table [(.str "file", .str "log/web"), (.str "rotate", .bool true)])

def orderly : Entries := [parentTable, strangerTable, childTable, grandchildTable]

def rearranged : Entries := [strangerTable, parentTable, grandchildTable, childTable]

theorem tried_orderly :
    (tried orderly).1.isOk ∧ FilesOpened orderly (tried orderly).2 ∧
      ((tried orderly).2.get "app.db.pool").handlers = [⟨.stream, .debug, defaultFormat⟩] ∧
      FilesOpened rearranged (tried rearranged).2 := by
  decide +kernel

-- Of the tables above the last logger only that of "app" names a level, and it comes first in both.
theorem sameBefore_orderly : SameBefore (plans orderly) (plans rearranged) "app.db.pool" := by
  have hdown : ∀ p ∈ plans orderly, HandsDown p → p.1 = "app" := by decide +kernel
  have hnames : (plans orderly).map Prod.fst = ["app", "web", "app.db"] ++ "app.db.pool" :: [] := by
    decide
  have hnames' : (plans rearranged).map Prod.fst =
      ["web", "app"] ++ "app.db.pool" :: ["app.db"] := by decide
  intro p hp hdowns _
  rw [hdown p hp hdowns, hnames, hnames', pair_sublist_iff (by decide),
    pair_sublist_iff (by decide)]
  decide

theorem configureAll_reordered_stranger :
    ∃ j₂, tried rearranged = (.ok (), j₂) ∧ FilesOpened rearranged j₂ ∧
      (j₂.get "app.db.pool").handlers = [⟨.stream, .debug, defaultFormat⟩] := by
  obtain ⟨hok, hopened, hhandlers, hopened'⟩ := tried_orderly
  have hperm : orderly.Perm rearranged :=
    .trans (.swap _ _ _) (.cons _ (.cons _ (.swap _ _ _)))
  obtain ⟨j₂, hon₂, hsame⟩ := configureAll_reordered (find?_loggerOptions _) hperm
    (by decide) (tried_eq _ hok) hopened
  rw [insert_loggerOptions] at hon₂
  have hj₂ : (tried rearranged).2 = j₂ := congrArg Prod.snd hon₂
  rw [hj₂] at hopened'
  obtain ⟨-, -, -, hequal⟩ := hsame hopened' "app.db.pool"
  exact ⟨j₂, hon₂, hopened', (hequal (.inr (.inr sameBefore_orderly))).trans hhandlers⟩

/-- A logger set up before the one that it inherits from gets handlers of another level. -/
theorem handler_level_of_child_first :
    [childTable, parentTable].Perm [parentTable, childTable] ∧
      (tried [childTable, parentTable]).1.isOk ∧ (tried [parentTable, childTable]).1.isOk ∧
      ((tried [childTable, parentTable]).2.get "app.db").handlers.map Handler.level = [.warning] ∧
      ((tried [parentTable, childTable]).2.get "app.db").handlers.map Handler.level = [.debug] :=
  ⟨.swap _ _ _, by decide +kernel⟩

end Orders

end Setup

end TexHtml
