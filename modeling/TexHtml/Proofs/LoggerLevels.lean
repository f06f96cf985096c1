import TexHtml.Proofs.FailedRuns

namespace TexHtml

namespace Journal

theorem lookup_put (j : Journal) (name : String) (logger : Logger) (other : String) :
    (j.put name logger).loggers.lookup other =
      if other = name then some logger else j.loggers.lookup other := by
  rw [put]
  split
  · rename_i hsome
    obtain ⟨old, hold⟩ := Option.isSome_iff_exists.mp hsome
    exact (lookup_replaced j.loggers name logger other).trans (by rw [hold]; rfl)
  · rename_i hnone
    rw [Bool.not_eq_true, Option.isSome_eq_false_iff, Option.isNone_iff_eq_none] at hnone
    rw [List.lookup_append]
    by_cases hother : other = name
    · simp [hother, hnone]
    · simp [hother, List.lookup_cons, beq_false_of_ne]

theorem here_put (j : Journal) (name : String) (logger : Logger) :
    (j.put name logger).disk.here = j.disk.here := by
  rw [put]
  split <;> rfl

theorem get_put (j : Journal) (name : String) (logger : Logger) :
    (j.put name logger).get name = logger := by
  rw [get, lookup_put, if_pos rfl]
  rfl

def levelView (j : Journal) (name : String) : Option Level :=
  (j.loggers.lookup name).map Logger.level

theorem level_get (j : Journal) (name : String) :
    (j.get name).level = (j.levelView name).getD .notSet := by
  rw [get, levelView]
  cases j.loggers.lookup name <;> rfl

theorem levelView_of_present {j : Journal} {name : String} (h : (j.loggers.lookup name).isSome) :
    j.levelView name = some (j.get name).level := by
  obtain ⟨logger, hlogger⟩ := Option.isSome_iff_exists.mp h
  rw [levelView, get, hlogger]
  rfl

def dottedNames (name : String) : List String :=
  (dottedAbove name.toList.reverse).map fun cs => String.ofList cs.reverse

inductive IsAbove : String → String → Prop
  | root (name : String) : IsAbove rootName name
  | dotted {above name : String} (h : above ∈ dottedNames name) : IsAbove above name
  | step {above middle name : String} (h : middle ∈ dottedNames name) (ha : IsAbove above middle) :
      IsAbove above name

theorem above?_eq (j : Journal) (name : String) :
    j.above? name = (dottedNames name).find? fun n => (j.levelView n).isSome := by
  simp only [above?, dottedNames, levelView, Option.isSome_map]

theorem dottedNames_ofList (cs : List Char) : dottedNames (String.ofList cs.reverse) =
    (dottedAbove cs).map fun cs => String.ofList cs.reverse := by
  rw [dottedNames, String.toList_ofList, List.reverse_reverse]

theorem IsAbove.mono {above name other : String} (h : IsAbove above name)
    (hnames : ∀ n ∈ dottedNames name, n ∈ dottedNames other) : IsAbove above other := by
  cases h with
  | root name => exact .root other
  | dotted h => exact .dotted (hnames _ h)
  | step h ha => exact .step (hnames _ h) ha

def lastDotted? (cs : List Char) : Option (Char × List Char) :=
  match cs.dropWhile (· != '.') with
  | _ :: c :: rest => some (c, rest)
  | _ => none

theorem length_of_lastDotted? {cs rest : List Char} {c : Char}
    (h : lastDotted? cs = some (c, rest)) : rest.length + 1 < cs.length := by
  have hlength := (List.dropWhile_sublist (fun c => c != '.') (l := cs)).length_le
  rw [lastDotted?] at h
  split at h
  · rename_i hdrop
    cases h
    rw [hdrop, List.length_cons, List.length_cons] at hlength
    omega
  · cases h

theorem dottedAbove_none {cs : List Char} (h : lastDotted? cs = none) : dottedAbove cs = [] := by
  rw [lastDotted?] at h
  rw [dottedAbove]
  split
  · rfl
  · rfl
  · rename_i hdrop
    rw [hdrop] at h
    cases h

theorem dottedAbove_some {cs rest : List Char} {c : Char} (h : lastDotted? cs = some (c, rest)) :
    dottedAbove cs = (c :: rest) :: dottedAbove rest := by
  rw [lastDotted?] at h
  rw [dottedAbove]
  split
  · rename_i hdrop
    rw [hdrop] at h
    cases h
  · rename_i hdrop
    rw [hdrop] at h
    cases h
  · rename_i hdrop
    rw [hdrop] at h
    cases h
    rfl

theorem shorter_of_mem_dottedAbove {cs ds : List Char} (h : ds ∈ dottedAbove cs) :
    ds ≠ [] ∧ ds.length < cs.length := by
  induction hn : cs.length using Nat.strongRecOn generalizing cs with
  | ind n ih =>
    cases hdotted : lastDotted? cs with
    | none =>
      rw [dottedAbove_none hdotted] at h
      cases h
    | some p =>
      obtain ⟨c, rest⟩ := p
      have hlength := length_of_lastDotted? hdotted
      rw [dottedAbove_some hdotted] at h
      rcases List.mem_cons.mp h with rfl | h
      · exact ⟨List.cons_ne_nil c rest, by rw [List.length_cons]; omega⟩
      · obtain ⟨hne, hshort⟩ := ih rest.length (by omega) h rfl
        exact ⟨hne, by omega⟩

theorem shorter_of_mem_dottedNames {name n : String} (h : n ∈ dottedNames name) :
    n ≠ "" ∧ n.length < name.length := by
  obtain ⟨ds, hds, rfl⟩ := List.mem_map.mp h
  obtain ⟨hne, hlength⟩ := shorter_of_mem_dottedAbove hds
  rw [← String.length_toList, ← String.length_toList, String.toList_ofList, List.length_reverse]
  rw [List.length_reverse] at hlength
  refine ⟨fun hempty => hne ?_, hlength⟩
  rw [String.ofList_eq_empty_iff, List.reverse_eq_nil_iff] at hempty
  exact hempty

theorem lastDotted?_cons {c : Char} (hc : c ≠ '.') (rest : List Char) :
    lastDotted? (c :: rest) = lastDotted? rest := by
  rw [lastDotted?, lastDotted?, List.dropWhile_cons_of_pos (by simpa using hc)]

/-- The level that comes down to a name, given backwards. Whether a logger without a level is listed
matters only if its name ends in a dot, since its own dots would be cut elsewhere then. -/
def inherited (j : Journal) (cs : List Char) : Level :=
  match _h : lastDotted? cs with
  | none => (j.levelView rootName).getD .notSet
  | some (c, rest) =>
    let found := j.levelView (String.ofList (c :: rest).reverse)
    if found.getD .notSet ≠ .notSet then found.getD .notSet
    else if c = '.' && found.isSome then j.inherited (c :: rest)
    else j.inherited rest
termination_by cs.length
decreasing_by
  · exact length_of_lastDotted? _h
  · exact Nat.lt_of_succ_lt (length_of_lastDotted? _h)

theorem inherited_none (j : Journal) {cs : List Char} (h : lastDotted? cs = none) :
    j.inherited cs = (j.levelView rootName).getD .notSet := by
  rw [inherited]
  split
  · rfl
  · rename_i hdotted
    rw [h] at hdotted
    cases hdotted

theorem inherited_some (j : Journal) {cs rest : List Char} {c : Char}
    (h : lastDotted? cs = some (c, rest)) : j.inherited cs =
      if (j.levelView (String.ofList (c :: rest).reverse)).getD .notSet ≠ .notSet then
        (j.levelView (String.ofList (c :: rest).reverse)).getD .notSet
      else if c = '.' && (j.levelView (String.ofList (c :: rest).reverse)).isSome then
        j.inherited (c :: rest)
      else j.inherited rest := by
  rw [inherited]
  split
  · rename_i hdotted
    rw [h] at hdotted
    cases hdotted
  · rename_i hdotted
    rw [h] at hdotted
    cases hdotted
    rfl

theorem inherited_cons (j : Journal) {c : Char} (hc : c ≠ '.') (rest : List Char) :
    j.inherited (c :: rest) = j.inherited rest := by
  cases h : lastDotted? rest with
  | none => rw [inherited_none j h, inherited_none j ((lastDotted?_cons hc rest).trans h)]
  | some p => rw [inherited_some j h, inherited_some j ((lastDotted?_cons hc rest).trans h)]

def ownOrInherited (j : Journal) (name : String) : Level :=
  if (j.levelView name).getD .notSet ≠ .notSet then (j.levelView name).getD .notSet
  else j.inherited name.toList.reverse

theorem inherited_eq (j : Journal) (cs : List Char) : j.inherited cs =
    match ((dottedAbove cs).map fun cs => String.ofList cs.reverse).find?
      fun n => (j.levelView n).isSome with
    | some n => j.ownOrInherited n
    | none => (j.levelView rootName).getD .notSet := by
  induction hn : cs.length using Nat.strongRecOn generalizing cs with
  | ind n ih =>
    cases hdotted : lastDotted? cs with
    | none => rw [inherited_none j hdotted, dottedAbove_none hdotted]; rfl
    | some p =>
      obtain ⟨c, rest⟩ := p
      have hrest := ih rest.length (by have := length_of_lastDotted? hdotted; omega) rest rfl
      rw [inherited_some j hdotted, dottedAbove_some hdotted, List.map_cons, List.find?_cons]
      cases hfound : j.levelView (String.ofList (c :: rest).reverse) with
      | none => simpa using hrest
      | some level =>
        simp only [ownOrInherited, hfound, Option.getD_some, Option.isSome_some, Bool.and_true,
          String.toList_ofList, List.reverse_reverse, decide_eq_true_eq]
        congr 1
        split
        · rfl
        · rename_i hc
          rw [inherited_cons j hc]

theorem firstLevel_lineage (j : Journal) {name : String} (hname : name ≠ "") {steps : Nat}
    (hsteps : name.length ≤ steps) :
    ((((j.lineage steps name).map j.get).map Logger.level).find? fun l => l ≠ .notSet).getD .notSet =
      j.ownOrInherited name := by
  -- every step goes to a shorter name, so the bound is never reached
  induction steps generalizing name with
  | zero => exact absurd (String.length_eq_zero_iff.mp (Nat.le_zero.mp hsteps)) hname
  | succ steps ih =>
    rw [lineage, ownOrInherited]
    by_cases hroot : name = rootName
    · have hdotted : lastDotted? rootName.toList.reverse = none := by decide
      rw [if_pos hroot, hroot, inherited_none j hdotted, ← level_get]
      by_cases hlevel : (j.get rootName).level = .notSet <;> simp [hlevel]
    rw [if_neg hroot, ← level_get, inherited_eq, ← dottedNames, ← above?_eq]
    cases habove : j.above? name with
    | none =>
      rw [← level_get]
      by_cases hlevel : (j.get name).level = .notSet
      · by_cases hlevel' : (j.get rootName).level = .notSet <;> simp [hlevel, hlevel']
      · simp [hlevel]
    | some n =>
      have hmem : n ∈ dottedNames name := by
        rw [above?_eq] at habove
        exact List.mem_of_find?_eq_some habove
      obtain ⟨hne, hlength⟩ := shorter_of_mem_dottedNames hmem
      have hrest := ih hne (by omega)
      by_cases hlevel : (j.get name).level = .notSet
      · simpa [hlevel] using hrest
      · simp [hlevel]

theorem effectiveLevel_eq (j : Journal) (name : String) : j.effectiveLevel name =
    if name = "" then (j.levelView rootName).getD .notSet else j.ownOrInherited name := by
  rw [effectiveLevel, lineageOf]
  split
  · rename_i hname
    rw [hname, ← level_get]
    change ((([j.get rootName]).map Logger.level).find? fun l => l ≠ .notSet).getD .notSet = _
    by_cases hlevel : (j.get rootName).level = .notSet <;> simp [hlevel]
  · rename_i hname
    exact firstLevel_lineage j hname (Nat.le_refl _)

/-- Two journals from which a logger hands down the same: its level, and whether it is listed if its
name ends in a dot. -/
def SameBelow (j i : Journal) (name : String) : Prop :=
  (i.levelView name).getD .notSet = (j.levelView name).getD .notSet ∧
    (name.toList.getLast? = some '.' → (i.levelView name).isSome = (j.levelView name).isSome)

theorem sameBelow_of_levelView {j i : Journal} {name : String}
    (h : i.levelView name = j.levelView name) : SameBelow j i name := by
  rw [SameBelow, h]
  exact ⟨rfl, fun _ => rfl⟩

theorem inherited_congr {j i : Journal} {cs : List Char}
    (h : ∀ m, IsAbove m (String.ofList cs.reverse) → SameBelow j i m) :
    i.inherited cs = j.inherited cs := by
  induction hn : cs.length using Nat.strongRecOn generalizing cs with
  | ind n ih =>
    cases hdotted : lastDotted? cs with
    | none => rw [inherited_none i hdotted, inherited_none j hdotted, (h _ (.root _)).1]
    | some p =>
      obtain ⟨c, rest⟩ := p
      have hlength := length_of_lastDotted? hdotted
      have hnames : dottedNames (String.ofList cs.reverse) =
          String.ofList (c :: rest).reverse :: dottedNames (String.ofList rest.reverse) := by
        rw [dottedNames_ofList, dottedNames_ofList, dottedAbove_some hdotted, List.map_cons]
      have hfirst : String.ofList (c :: rest).reverse ∈ dottedNames (String.ofList cs.reverse) := by
        rw [hnames]
        exact List.mem_cons_self
      have hrest : i.inherited rest = j.inherited rest := by
        refine ih rest.length (by omega) (fun m hm => h m (hm.mono fun n hn => ?_)) rfl
        rw [hnames]
        exact List.mem_cons_of_mem _ hn
      have hdot : i.inherited (c :: rest) = j.inherited (c :: rest) :=
        ih (rest.length + 1) (by omega) (fun m hm => h m (.step hfirst hm)) rfl
      obtain ⟨hlevel, hlisted⟩ := h _ (.dotted hfirst)
      rw [inherited_some i hdotted, inherited_some j hdotted, hlevel, hrest, hdot]
      by_cases hc : c = '.'
      · rw [hlisted (by simp [hc])]
      · simp [hc]

theorem effectiveLevel_congr {j i : Journal} {name : String}
    (h : ∀ m, m = name ∨ IsAbove m name → SameBelow j i m) :
    i.effectiveLevel name = j.effectiveLevel name := by
  have hinherited : i.inherited name.toList.reverse = j.inherited name.toList.reverse := by
    apply inherited_congr
    intro m hm
    rw [List.reverse_reverse, String.ofList_toList] at hm
    exact h m (.inr hm)
  rw [effectiveLevel_eq, effectiveLevel_eq, ownOrInherited, ownOrInherited,
    (h name (.inl rfl)).1, (h rootName (.inr (.root name))).1, hinherited]

-- The name must not be empty: no logger is set up under that name.
theorem effectiveLevel_of_level {j : Journal} {name : String} (hname : name ≠ "")
    (h : (j.get name).level ≠ .notSet) : j.effectiveLevel name = (j.get name).level := by
  rw [effectiveLevel_eq, if_neg hname, ownOrInherited, ← level_get, if_pos h]

structure Alike (j i : Journal) : Prop where
  loggers : i.loggers = j.loggers
  here : i.disk.here = j.disk.here

namespace Alike

variable {j i k : Journal}

theorem refl (j : Journal) : Alike j j := ⟨rfl, rfl⟩

theorem trans (h : Alike j i) (h' : Alike i k) : Alike j k :=
  ⟨h'.loggers.trans h.loggers, h'.here.trans h.here⟩

theorem log (j : Journal) (r : Record) : Alike j (j.log r) :=
  ⟨(extends_log j r).loggers, (extends_log j r).disk.here⟩

theorem get (h : Alike j i) (name : String) : i.get name = j.get name := by
  rw [Journal.get, Journal.get, h.loggers]

theorem levelView (h : Alike j i) (name : String) : i.levelView name = j.levelView name := by
  rw [Journal.levelView, Journal.levelView, h.loggers]

end Alike

structure Within (name : String) (j i : Journal) : Prop where
  here : i.disk.here = j.disk.here
  others : ∀ m, m ≠ name → i.loggers.lookup m = j.loggers.lookup m
  listed : (j.loggers.lookup name).isSome → (i.loggers.lookup name).isSome

namespace Within

variable {name : String} {j i k : Journal}

theorem refl (name : String) (j : Journal) : Within name j j := ⟨rfl, fun _ _ => rfl, id⟩

theorem trans (h : Within name j i) (h' : Within name i k) : Within name j k :=
  ⟨h'.here.trans h.here, fun m hm => (h'.others m hm).trans (h.others m hm),
    fun hj => h'.listed (h.listed hj)⟩

theorem of_alike (h : Alike j i) (name : String) : Within name j i :=
  ⟨h.here, fun m _ => by rw [h.loggers], fun hj => by rwa [h.loggers]⟩

theorem put (name : String) (j : Journal) (logger : Logger) : Within name j (j.put name logger) := by
  refine ⟨here_put j name logger, fun m hm => ?_, fun _ => ?_⟩
  · rw [lookup_put, if_neg hm]
  · rw [lookup_put, if_pos rfl]
    rfl

end Within

end Journal

end TexHtml
