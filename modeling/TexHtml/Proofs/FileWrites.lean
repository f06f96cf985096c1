import TexHtml.Proofs.Lookup

namespace TexHtml

theorem lookup_replaced {α β : Type} [BEq α] [LawfulBEq α] [DecidableEq α]
    (entries : List (α × β)) (key : α) (value : β) (other : α) :
    (entries.map fun e => if e.1 = key then (key, value) else e).lookup other =
      if other = key then (entries.lookup key).map fun _ => value else entries.lookup other := by
  induction entries with
  | nil => simp
  | cons e entries ih =>
    obtain ⟨first, old⟩ := e
    by_cases hfirst : first = key <;> by_cases hother : other = key <;>
      by_cases heq : other = first <;> simp_all [List.lookup_cons, beq_false_of_ne]

namespace Disk

theorem get?_put (d : Disk) {names : List String} (hne : names ≠ []) (entry : DiskEntry)
    (other : List String) :
    (d.put names entry).get? other = if other = names then some entry else d.get? other := by
  by_cases hroot : other = []
  · rw [hroot, if_neg hne.symm]
    rfl
  rw [get?_of_ne_nil _ hroot, get?_of_ne_nil _ hroot, put]
  split
  · rename_i hsome
    obtain ⟨old, hold⟩ := Option.isSome_iff_exists.mp hsome
    exact (lookup_replaced d.entries names entry other).trans (by rw [hold]; rfl)
  · rename_i hnone
    rw [Bool.not_eq_true, Option.isSome_eq_false_iff, Option.isNone_iff_eq_none] at hnone
    rw [List.lookup_append]
    by_cases hother : other = names
    · simp [hother, hnone]
    · simp [hother, List.lookup_cons, beq_false_of_ne]

namespace Target

def place : Target → List String
  | entry names _ => names
  | free names => names

def content? : Target → Option DiskEntry
  | entry _ e => some e
  | free _ => none

theorem eq_of_place_content? {t t' : Target} (hplace : t'.place = t.place)
    (hentry : t'.content? = t.content?) : t' = t := by
  cases t <;> cases t' <;> simp_all [place, content?]

end Target

def target (d : Disk) (names : List String) : Target :=
  ((d.get? names).map (.entry names)).getD (.free names)

@[simp]
theorem target_place (d : Disk) (names : List String) : (d.target names).place = names := by
  rw [target]
  cases d.get? names <;> rfl

@[simp]
theorem target_content? (d : Disk) (names : List String) :
    (d.target names).content? = d.get? names := by
  rw [target]
  cases d.get? names <;> rfl

inductive Walk (d : Disk) : List String → List String → Target → Prop where
  | stay (place : List String) : Walk d place [] (.entry place .directory)
  | up {place rest : List String} {t : Target} (h : Walk d place.dropLast rest t) :
      Walk d place (".." :: rest) t
  | last (place : List String) {part : String} (hpart : part ≠ "..")
      (hshort : octetCount part ≤ nameLimit) : Walk d place [part] (d.target (place ++ [part]))
  | down {place rest : List String} {part : String} {t : Target} (hpart : part ≠ "..")
      (hshort : octetCount part ≤ nameLimit) (hget : d.get? (place ++ [part]) = some .directory)
      (h : Walk d (place ++ [part]) rest t) : Walk d place (part :: rest) t

theorem follow_stuck (d : Disk) (place : List String) {entry : DiskEntry}
    (h : entry ≠ .directory) (part : String) (rest : List String) :
    ∃ kind, d.follow place entry (part :: rest) = .error kind := by
  cases entry with
  | directory => exact absurd rfl h
  | file octets => exact ⟨_, rfl⟩
  | sealed reason => exact ⟨_, rfl⟩
  | closed => exact ⟨_, rfl⟩

theorem walk_of_follow {d : Disk} {place parts : List String} {t : Target}
    (h : d.follow place .directory parts = .ok t) : d.Walk place parts t := by
  induction parts generalizing place with
  | nil =>
    cases h
    exact .stay place
  | cons part rest ih =>
    rw [follow] at h
    split at h
    · rename_i hpart
      rw [hpart]
      exact .up (ih h)
    rename_i hpart
    split at h
    · cases h
    rename_i hshort
    have hlast := Walk.last (d := d) place hpart (Nat.not_lt.mp hshort)
    split at h
    · rename_i entry hget
      by_cases hentry : entry = .directory
      · subst hentry
        exact .down hpart (Nat.not_lt.mp hshort) hget (ih h)
      cases rest with
      | nil =>
        cases h
        rwa [target, hget] at hlast
      | cons next rest =>
        obtain ⟨kind, hkind⟩ := d.follow_stuck (place ++ [part]) hentry next rest
        rw [hkind] at h
        cases h
    · rename_i hget
      cases rest with
      | nil =>
        cases h
        rwa [target, hget] at hlast
      | cons next rest => cases h

theorem Walk.follow {d : Disk} {place parts : List String} {t : Target} (h : d.Walk place parts t) :
    d.follow place .directory parts = .ok t := by
  induction h with
  | stay place => rfl
  | up h ih => rw [Disk.follow, if_pos rfl, ih]
  | @last place part hpart hshort =>
    rw [Disk.follow, if_neg hpart, if_neg (Nat.not_lt.mpr hshort), target]
    cases d.get? (place ++ [part]) <;> rfl
  | down hpart hshort hget h ih =>
    rw [Disk.follow, if_neg hpart, if_neg (Nat.not_lt.mpr hshort), hget]
    exact ih

theorem Walk.ends {d : Disk} {place parts : List String} {t : Target} (h : d.Walk place parts t) :
    t.content? = some .directory ∨ t.place ≠ [] ∧ t.content? = d.get? t.place := by
  induction h with
  | stay place => exact .inl rfl
  | up h ih => exact ih
  | last place hpart hshort => exact .inr ⟨by simp, by simp⟩
  | down hpart hshort hget h ih => exact ih

def Followable (path : String) : Prop :=
  path.toList.contains (Char.ofNat 0) = false ∧ path ≠ "" ∧ octetCount path < pathLimit

theorem locate_eq_ok_iff {d : Disk} {path : String} {t : Target} :
    d.locate path = .ok t ↔ Followable path ∧
      d.Walk (if leadingSlashes path.toList = "" then d.here else []) (namedParts path.toList)
        t := by
  rw [locate]
  constructor
  · intro h
    split at h
    · cases h
    rename_i hnull
    split at h
    · cases h
    rename_i hempty
    split at h
    · cases h
    rename_i hlong
    refine ⟨⟨by simpa using hnull, hempty, Nat.not_le.mp hlong⟩, walk_of_follow ?_⟩
    dsimp only at h
    revert h
    cases d.follow (if leadingSlashes path.toList = "" then d.here else []) .directory
      (namedParts path.toList) with
    | error e => intro h; cases h
    | ok found => intro h; cases h; rfl
  · rintro ⟨⟨hnull, hempty, hshort⟩, h⟩
    rw [if_neg (by simpa using hnull), if_neg hempty, if_neg (Nat.not_le.mpr hshort)]
    dsimp only
    rw [h.follow]
    rfl

def place? (d : Disk) (path : String) : Option (List String) :=
  (d.locate path).toOption.map Target.place

theorem place?_eq_some_iff {d : Disk} {path : String} {names : List String} :
    d.place? path = some names ↔ ∃ t, d.locate path = .ok t ∧ t.place = names := by
  rw [place?]
  cases d.locate path <;> simp [Except.toOption]

theorem locateForWriting_eq_ok_iff {d : Disk} {path : String} {names : List String}
    {octets : List UInt8} :
    d.locateForWriting path = .ok (names, octets) ↔
      endsWithPoint path = false ∧ endsWithSlash path = false ∧
        (d.locate path = .ok (.entry names (.file octets)) ∨
          d.locate path = .ok (.free names) ∧ octets = []) := by
  rw [locateForWriting]
  cases d.locate path with
  | error e => simp
  | ok t =>
    cases t with
    | free place => cases endsWithPoint path <;> cases endsWithSlash path <;> simp [eq_comm]
    | entry place entry =>
      cases entry with
      | directory => simp
      | sealed reason => simp
      | closed => simp
      | file old => cases endsWithPoint path <;> cases endsWithSlash path <;> simp [eq_comm]

/-- What can be written to: a place that is free, or a file that can be opened. -/
def Writable (e : Option DiskEntry) : Prop := ∀ entry ∈ e, ∃ octets, entry = .file octets

theorem not_writable_directory : ¬ Writable (some .directory) := by
  intro h
  obtain ⟨octets, hoctets⟩ := h .directory rfl
  cases hoctets

theorem Writable.ne_directory {e : Option DiskEntry} (h : Writable e) : e ≠ some .directory := by
  rintro rfl
  exact not_writable_directory h

-- The root is never written to, and neither is any other directory.
theorem writing_place {d : Disk} {path : String} {names : List String} {octets : List UInt8}
    (h : d.locateForWriting path = .ok (names, octets)) :
    ∃ t, d.locate path = .ok t ∧ t.place = names ∧ names ≠ [] ∧ Writable t.content? ∧
      t.content? = d.get? names := by
  obtain ⟨-, -, hlocate⟩ := locateForWriting_eq_ok_iff.mp h
  obtain ⟨t, ht, hplace, hentry⟩ : ∃ t, d.locate path = .ok t ∧ t.place = names ∧
      Writable t.content? := by
    rcases hlocate with hlocate | ⟨hlocate, -⟩
    · exact ⟨_, hlocate, rfl, by simp [Target.content?, Writable]⟩
    · exact ⟨_, hlocate, rfl, by simp [Target.content?, Writable]⟩
  obtain ⟨hne, hget⟩ := (locate_eq_ok_iff.mp ht).2.ends.resolve_left hentry.ne_directory
  rw [hplace] at hne hget
  exact ⟨t, ht, hplace, hne, hentry, hget⟩

theorem place?_of_writing {d : Disk} {path : String} {names : List String} {octets : List UInt8}
    (h : d.locateForWriting path = .ok (names, octets)) : d.place? path = some names := by
  obtain ⟨t, ht, hplace, -⟩ := writing_place h
  exact place?_eq_some_iff.mpr ⟨t, ht, hplace⟩

/-- Two disks that agree on all that cannot be written to, and elsewhere than at some places on all.
-/
structure SameExcept (places : List String → Prop) (d d' : Disk) : Prop where
  here : d'.here = d.here
  fixed : ∀ entry, ¬ Writable (some entry) →
    ∀ names, d'.get? names = some entry ↔ d.get? names = some entry
  elsewhere : ∀ names, ¬ places names → d'.get? names = d.get? names

namespace SameExcept

variable {places : List String → Prop} {d d' d'' : Disk}

theorem refl (places : List String → Prop) (d : Disk) : SameExcept places d d :=
  ⟨rfl, fun _ _ _ => Iff.rfl, fun _ _ => rfl⟩

theorem symm (h : SameExcept places d d') : SameExcept places d' d :=
  ⟨h.here.symm, fun entry hentry names => (h.fixed entry hentry names).symm,
    fun names hn => (h.elsewhere names hn).symm⟩

theorem trans (h : SameExcept places d d') (h' : SameExcept places d' d'') :
    SameExcept places d d'' :=
  ⟨h'.here.trans h.here,
    fun entry hentry names => (h'.fixed entry hentry names).trans (h.fixed entry hentry names),
    fun names hn => (h'.elsewhere names hn).trans (h.elsewhere names hn)⟩

theorem mono {places' : List String → Prop} (h : SameExcept places d d')
    (hplaces : ∀ names, places names → places' names) : SameExcept places' d d' :=
  ⟨h.here, h.fixed, fun names hn => h.elsewhere names (mt (hplaces names) hn)⟩

structure Targets (places : List String → Prop) (t t' : Target) : Prop where
  place : t'.place = t.place
  fixed : ∀ entry, ¬ Writable (some entry) → (t'.content? = some entry ↔ t.content? = some entry)
  elsewhere : ¬ places t.place → t' = t

theorem target (h : SameExcept places d d') (names : List String) :
    Targets places (d.target names) (d'.target names) where
  place := by simp
  fixed := fun entry hentry => by simpa using h.fixed entry hentry names
  elsewhere := by
    intro hn
    rw [target_place] at hn
    rw [Disk.target, Disk.target, h.elsewhere names hn]

theorem Targets.writable {t t' : Target} (h : Targets places t t') (ht : Writable t.content?) :
    Writable t'.content? := by
  intro entry hentry
  by_contra hfile
  have hfixed : ¬ Writable (some entry) := fun hwritable => hfile (hwritable entry rfl)
  exact hfile (ht entry ((h.fixed entry hfixed).mp hentry))

theorem walk (h : SameExcept places d d') {place parts : List String} {t : Target}
    (ht : d.Walk place parts t) : ∃ t', d'.Walk place parts t' ∧ Targets places t t' := by
  induction ht with
  | stay place => exact ⟨_, .stay place, rfl, fun _ _ => Iff.rfl, fun _ => rfl⟩
  | up _ ih =>
    obtain ⟨t', ht', htargets⟩ := ih
    exact ⟨t', .up ht', htargets⟩
  | last place hpart hshort => exact ⟨_, .last place hpart hshort, h.target _⟩
  | down hpart hshort hget _ ih =>
    obtain ⟨t', ht', htargets⟩ := ih
    exact ⟨t', .down hpart hshort ((h.fixed _ not_writable_directory _).mpr hget) ht', htargets⟩

theorem locate (h : SameExcept places d d') {path : String} {t : Target}
    (ht : d.locate path = .ok t) : ∃ t', d'.locate path = .ok t' ∧ Targets places t t' := by
  obtain ⟨hpath, hwalk⟩ := locate_eq_ok_iff.mp ht
  obtain ⟨t', hwalk', htargets⟩ := h.walk hwalk
  refine ⟨t', locate_eq_ok_iff.mpr ⟨hpath, ?_⟩, htargets⟩
  rwa [h.here]

theorem place? (h : SameExcept places d d') (path : String) : d'.place? path = d.place? path := by
  have hforward {e e' : Disk} (h : SameExcept places e e') (names : List String)
      (hnames : e.place? path = some names) : e'.place? path = some names := by
    obtain ⟨t, ht, rfl⟩ := place?_eq_some_iff.mp hnames
    obtain ⟨t', ht', htargets⟩ := h.locate ht
    exact place?_eq_some_iff.mpr ⟨t', ht', htargets.place⟩
  exact Option.ext fun names => ⟨hforward h.symm names, hforward h names⟩

theorem find (h : SameExcept places d d') {path : String}
    (hpath : ∀ names, d.place? path = some names → ¬ places names) :
    (d'.find path).toOption = (d.find path).toOption := by
  cases ht : d.locate path with
  | ok t =>
    obtain ⟨t', ht', htargets⟩ := h.locate ht
    rw [Disk.find, Disk.find, ht, ht',
      htargets.elsewhere (hpath _ (place?_eq_some_iff.mpr ⟨t, ht, rfl⟩))]
  | error e =>
    cases ht' : d'.locate path with
    | ok t' =>
      obtain ⟨t, ht'', -⟩ := h.symm.locate ht'
      rw [ht] at ht''
      cases ht''
    | error e' =>
      rw [Disk.find, Disk.find, ht, ht']
      rfl

theorem locateForWriting (h : SameExcept places d d') {path : String} {names : List String}
    {octets : List UInt8} (hpath : d.locateForWriting path = .ok (names, octets)) :
    ∃ octets', d'.locateForWriting path = .ok (names, octets') := by
  obtain ⟨t, ht, rfl, -, hentry, -⟩ := writing_place hpath
  obtain ⟨t', ht', htargets⟩ := h.locate ht
  obtain ⟨hpoint, hslash, -⟩ := locateForWriting_eq_ok_iff.mp hpath
  have hentry' := htargets.writable hentry
  have hplace := htargets.place
  cases t' with
  | free place =>
    exact ⟨[], locateForWriting_eq_ok_iff.mpr ⟨hpoint, hslash, .inr ⟨hplace ▸ ht', rfl⟩⟩⟩
  | entry place entry =>
    obtain ⟨octets', rfl⟩ := hentry' entry rfl
    exact ⟨octets', locateForWriting_eq_ok_iff.mpr ⟨hpoint, hslash, .inl (hplace ▸ ht')⟩⟩

end SameExcept

section Put

variable {d : Disk} {path : String} {names : List String} {old : List UInt8}
  (h : d.locateForWriting path = .ok (names, old)) (octets : List UInt8)

include h

theorem write_eq : d.write path octets = .ok (d.put names (.file octets)) := by
  rw [write, h]
  rfl

theorem append_eq : d.append path octets = .ok (d.put names (.file (old ++ octets))) := by
  rw [append, h]
  rfl

theorem sameExcept_put : SameExcept (· = names) d (d.put names (.file octets)) := by
  obtain ⟨t, ht, -, hne, hentry, hget⟩ := writing_place h
  rw [hget] at hentry
  refine ⟨?_, fun entry hfixed other => ?_, fun other hother => ?_⟩
  · rw [put]
    split <;> rfl
  · rw [get?_put d hne]
    split
    · rename_i hother
      refine iff_of_false ?_ ?_
      · intro heq
        cases heq
        exact hfixed (by simp [Writable])
      · intro heq
        rw [hother] at heq
        exact hfixed (heq ▸ hentry)
    · rfl
  · rw [get?_put d hne, if_neg hother]

theorem locate_put :
    (d.put names (.file octets)).locate path = .ok (.entry names (.file octets)) := by
  obtain ⟨t, ht, rfl, hne, hentry, -⟩ := writing_place h
  obtain ⟨t', ht', htargets⟩ := (sameExcept_put h octets).locate ht
  have hends :=
    (locate_eq_ok_iff.mp ht').2.ends.resolve_left (htargets.writable hentry).ne_directory
  rw [ht', Target.eq_of_place_content? (t := .entry t.place (.file octets)) htargets.place]
  rw [hends.2, htargets.place, get?_put d hne, if_pos rfl]
  rfl

theorem find_put : (d.put names (.file octets)).find path = .ok (names, .file octets) := by
  obtain ⟨hpoint, hslash, -⟩ := locateForWriting_eq_ok_iff.mp h
  rw [find_of_locate (locate_put h octets), hpoint, hslash]
  rfl

theorem locateForWriting_put :
    (d.put names (.file octets)).locateForWriting path = .ok (names, octets) := by
  obtain ⟨hpoint, hslash, -⟩ := locateForWriting_eq_ok_iff.mp h
  exact locateForWriting_eq_ok_iff.mpr ⟨hpoint, hslash, .inl (locate_put h octets)⟩

end Put

end Disk

end TexHtml
