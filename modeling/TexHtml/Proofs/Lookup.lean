import Mathlib.Data.List.Induction
import Mathlib.Data.List.Nodup
import TexHtml.Disk.Basic
import TexHtml.Proofs.Paths

namespace TexHtml.Disk

structure IsName (name : String) : Prop extends IsPart name where
  ne_points : name ≠ ".."
  no_null : Char.ofNat 0 ∉ name.toList
  short : octetCount name ≤ nameLimit

instance (name : String) : Decidable (IsName name) :=
  decidable_of_iff (IsPart name ∧ name ≠ ".." ∧ Char.ofNat 0 ∉ name.toList ∧
      octetCount name ≤ nameLimit)
    ⟨fun h => ⟨h.1, h.2.1, h.2.2.1, h.2.2.2⟩,
      fun h => ⟨h.toIsPart, h.ne_points, h.no_null, h.short⟩⟩

/-- The entries form a tree: each has a place of its own in a directory. -/
structure Sound (d : Disk) : Prop where
  distinct : (d.entries.map Prod.fst).Nodup
  named : ∀ e ∈ d.entries, ∀ name ∈ e.1, IsName name
  rooted : ∀ e ∈ d.entries, d.get? e.1.dropLast = some .directory

instance (d : Disk) : Decidable d.Sound :=
  decidable_of_iff ((d.entries.map Prod.fst).Nodup ∧
      (∀ e ∈ d.entries, ∀ name ∈ e.1, IsName name) ∧
      ∀ e ∈ d.entries, d.get? e.1.dropLast = some .directory)
    ⟨fun h => ⟨h.1, h.2.1, h.2.2⟩, fun h => ⟨h.distinct, h.named, h.rooted⟩⟩

theorem get?_of_ne_nil (d : Disk) {names : List String} (h : names ≠ []) :
    d.get? names = d.entries.lookup names := by
  rw [get?, if_neg (by simpa using h)]

theorem mem_of_get? {d : Disk} {names : List String} {entry : DiskEntry} (hne : names ≠ [])
    (h : d.get? names = some entry) : (names, entry) ∈ d.entries := by
  rw [get?_of_ne_nil d hne] at h
  obtain ⟨before, behind, hentries, -⟩ := List.lookup_eq_some_iff.mp h
  rw [hentries]
  exact List.mem_append_right before List.mem_cons_self

theorem lookup_of_mem {entries : List (List String × DiskEntry)} (h : (entries.map Prod.fst).Nodup)
    {names : List String} {entry : DiskEntry} (hmem : (names, entry) ∈ entries) :
    entries.lookup names = some entry := by
  obtain ⟨before, behind, rfl⟩ := List.append_of_mem hmem
  rw [List.lookup_eq_some_iff]
  refine ⟨before, behind, rfl, fun e he => ?_⟩
  simp only [List.map_append, List.map_cons] at h
  have hne := (List.nodup_append.mp h).2.2 e.1 (List.mem_map_of_mem he) names List.mem_cons_self
  simpa using Ne.symm hne

theorem get?_eq_some_iff {d : Disk} (h : d.Sound) {names : List String} {entry : DiskEntry}
    (hne : names ≠ []) : d.get? names = some entry ↔ (names, entry) ∈ d.entries := by
  refine ⟨mem_of_get? hne, fun hmem => ?_⟩
  rw [get?_of_ne_nil d hne]
  exact lookup_of_mem h.distinct hmem

theorem get?_above {d : Disk} (h : d.Sound) {place rest : List String} (hne : rest ≠ [])
    {entry : DiskEntry} (hget : d.get? (place ++ rest) = some entry) :
    d.get? place = some .directory := by
  induction rest using List.reverseRecOn generalizing entry with
  | nil => exact absurd rfl hne
  | append_singleton rest name ih =>
    have hparent := h.rooted _ (mem_of_get? (by simp) hget)
    rw [← List.append_assoc, List.dropLast_concat] at hparent
    by_cases hrest : rest = []
    · rwa [hrest, List.append_nil] at hparent
    · exact ih hrest hparent

theorem isName_of_get? {d : Disk} (h : d.Sound) {place rest : List String} {entry : DiskEntry}
    (hget : d.get? (place ++ rest) = some entry) {name : String} (hname : name ∈ rest) :
    IsName name := by
  have hmem := mem_of_get? (List.append_ne_nil_of_right_ne_nil place (List.ne_nil_of_mem hname)) hget
  exact h.named _ hmem name (List.mem_append_right place hname)

theorem mem_below {d : Disk} {names rel : List String} {entry : DiskEntry} :
    (rel, entry) ∈ d.below names ↔ rel ≠ [] ∧ (names ++ rel, entry) ∈ d.entries := by
  simp only [below, List.mem_filterMap, Bool.and_eq_true, List.isPrefixOf_iff_prefix,
    decide_eq_true_eq, Option.ite_none_right_eq_some, Option.some.injEq, Prod.mk.injEq]
  constructor
  · rintro ⟨⟨place, e⟩, hmem, ⟨⟨rest, rfl⟩, hlength⟩, hrel, rfl⟩
    rw [List.drop_left] at hrel
    subst hrel
    exact ⟨by rintro rfl; simp at hlength, hmem⟩
  · rintro ⟨hne, hmem⟩
    refine ⟨_, hmem, ⟨List.prefix_append names rel, ?_⟩, List.drop_left, rfl⟩
    have hlength := List.length_pos_iff.mpr hne
    rw [List.length_append]
    omega

theorem nodup_below {d : Disk} (h : d.Sound) (names : List String) :
    ((d.below names).map Prod.fst).Nodup := by
  have hsublist (entries : List (List String × DiskEntry)) :
      ((entries.filterMap fun e =>
          if names.isPrefixOf e.1 && names.length < e.1.length then some (e.1.drop names.length, e.2)
          else none).map fun e => names ++ e.1).Sublist (entries.map Prod.fst) := by
    induction entries with
    | nil => exact .slnil
    | cons e entries ih =>
      rw [List.filterMap_cons]
      split
      · exact ih.cons e.1
      · rename_i b hb
        obtain ⟨hbelow, rfl⟩ := Option.ite_none_right_eq_some.mp hb |>.imp_right Option.some.inj
        rw [Bool.and_eq_true, List.isPrefixOf_iff_prefix] at hbelow
        obtain ⟨rest, hrest⟩ := hbelow.1
        rw [List.map_cons, List.map_cons, ← hrest, List.drop_left]
        exact ih.cons_cons _
  have hnodup := h.distinct.sublist (hsublist d.entries)
  have hmap : (d.below names).map (fun e => names ++ e.1) =
      ((d.below names).map Prod.fst).map (names ++ ·) := by
    rw [List.map_map]
    rfl
  exact List.Nodup.of_map (names ++ ·) (hmap ▸ hnodup)

theorem follow_append {d : Disk} {place names : List String} {entry target : DiskEntry}
    {parts : List String} (h : d.follow place entry parts = .ok (.entry names target))
    (rest : List String) : d.follow place entry (parts ++ rest) = d.follow names target rest := by
  induction parts generalizing place entry with
  | nil =>
    cases h
    rfl
  | cons part parts ih =>
    cases entry with
    | file octets => cases h
    | sealed reason => cases h
    | closed => cases h
    | directory =>
      rw [List.cons_append]
      rw [follow] at h ⊢
      split at h
      · rename_i hpart
        rw [if_pos hpart]
        exact ih h
      · rename_i hpart
        rw [if_neg hpart]
        split at h
        · cases h
        · rename_i hshort
          rw [if_neg hshort]
          cases hget : d.get? (place ++ [part]) with
          | none =>
            rw [hget] at h
            dsimp only at h
            split at h <;> cases h
          | some found =>
            rw [hget] at h
            exact ih h

theorem follow_below {d : Disk} (h : d.Sound) {place rel : List String} {entry : DiskEntry}
    (hne : rel ≠ []) (hget : d.get? (place ++ rel) = some entry) :
    d.follow place .directory rel = .ok (.entry (place ++ rel) entry) := by
  induction rel generalizing place with
  | nil => exact absurd rfl hne
  | cons part rest ih =>
    have hname := isName_of_get? h hget List.mem_cons_self
    rw [List.append_cons] at hget ⊢
    rw [follow, if_neg hname.ne_points, if_neg (Nat.not_lt.mpr hname.short)]
    by_cases hrest : rest = []
    · rw [hrest, List.append_nil] at hget ⊢
      rw [hget]
      rfl
    · rw [get?_above h hrest hget]
      exact ih hrest hget

def start (d : Disk) (p : Path) : List String := if p.root = "" then d.here else []

theorem locate_text (d : Disk) {p : Path} (h : p.Normal) :
    d.locate p.text =
      if p.text.toList.contains (Char.ofNat 0) then .error .embeddedNull
      else if pathLimit ≤ octetCount p.text then .error (fault p.text .nameTooLong)
      else (d.follow (d.start p) .directory p.parts).mapError (fault p.text) := by
  rw [locate, Path.leadingSlashes_text h, Path.namedParts_text h, start, if_neg (Path.text_ne_empty h)]

theorem find_of_locate {d : Disk} {path : String} {names : List String} {entry : DiskEntry}
    (h : d.locate path = .ok (.entry names entry)) : d.find path =
      if entry.isFile && (endsWithSlash path || endsWithPoint path) then
        .error (fault path .notDirectory)
      else if entry = .closed && endsWithPoint path then .error (fault path .permissionDenied)
      else .ok (names, entry) := by
  rw [find, h]

theorem find_eq_ok_iff {d : Disk} {path : String} {names : List String} {entry : DiskEntry} :
    d.find path = .ok (names, entry) ↔ d.locate path = .ok (.entry names entry) ∧
      (entry.isFile && (endsWithSlash path || endsWithPoint path)) = false ∧
      (entry = .closed && endsWithPoint path) = false := by
  cases hlocate : d.locate path with
  | error e => simp [find, hlocate]
  | ok t =>
    cases t with
    | free names => simp [find, hlocate]
    | entry place found =>
      rw [find_of_locate hlocate]
      by_cases hfile : found.isFile && (endsWithSlash path || endsWithPoint path)
      · rw [if_pos hfile]
        refine iff_of_false (by simp) ?_
        rintro ⟨heq, hends, -⟩
        cases heq
        rw [hfile] at hends
        cases hends
      rw [if_neg hfile]
      by_cases hclosed : found = .closed && endsWithPoint path
      · rw [if_pos hclosed]
        refine iff_of_false (by simp) ?_
        rintro ⟨heq, -, hends⟩
        cases heq
        rw [hclosed] at hends
        cases hends
      rw [if_neg hclosed]
      constructor
      · intro heq
        cases heq
        exact ⟨rfl, by simpa using hfile, by simpa using hclosed⟩
      · rintro ⟨heq, -⟩
        cases heq
        rfl

theorem find_eq_directory_iff {d : Disk} {path : String} {names : List String} :
    d.find path = .ok (names, .directory) ↔ d.locate path = .ok (.entry names .directory) := by
  rw [find_eq_ok_iff]
  exact ⟨And.left, fun h => ⟨h, rfl, rfl⟩⟩

theorem contains_null_child {p : Path} (hp : p.Normal) {rel : List String}
    (hrel : ∀ name ∈ rel, IsName name) (hnull : p.text.toList.contains (Char.ofNat 0) = false) :
    (p.child rel).text.toList.contains (Char.ofNat 0) = false := by
  have hchild := Path.normal_child hp fun name hname => (hrel name hname).toIsPart
  rw [List.contains_eq_mem, decide_eq_false_iff_not] at hnull ⊢
  intro hmem
  obtain hpoint | hslash | ⟨part, hpart, hnullPart⟩ := Path.mem_text hchild hmem
  · exact absurd hpoint (by decide)
  · exact absurd hslash (by decide)
  · rcases List.mem_append.mp hpart with hpart | hpart
    · rw [← Path.namedParts_text hp] at hpart
      exact hnull (mem_of_mem_namedParts hpart hnullPart).1
    · exact (hrel part hpart).no_null hnullPart

theorem ends_text {p : Path} (hp : p.Normal) (hne : p.parts ≠ []) :
    endsWithSlash p.text = false ∧ endsWithPoint p.text = false := by
  obtain ⟨blanks, hblanks, hparts⟩ := Path.slashParts_text hp hne
  have hlast := hp.parts _ (List.getLast_mem hne)
  have hnamed : p.parts.filter (· ≠ "") = p.parts := by
    apply List.filter_eq_self.mpr
    intro part hpart
    simpa using (hp.parts part hpart).ne_empty
  have hnone : blanks.filter (· ≠ "") = [] := by
    apply List.filter_eq_nil_iff.mpr
    intro s hs
    simpa using hblanks s hs
  rw [endsWithSlash, endsWithPoint, hparts, List.filter_append, hnone, hnamed, List.nil_append,
    List.getLast?_append, List.getLast?_eq_some_getLast hne]
  simp [hlast.ne_empty, hlast.ne_point]

theorem find_child {d : Disk} (h : d.Sound) {p : Path} (hp : p.Normal) {names rel : List String}
    (hdir : d.find p.text = .ok (names, .directory)) (hne : rel ≠ []) {entry : DiskEntry}
    (hget : d.get? (names ++ rel) = some entry)
    (hshort : octetCount (p.child rel).text < pathLimit) :
    d.find (p.child rel).text = .ok (names ++ rel, entry) := by
  have hrel (name : String) (hname : name ∈ rel) : IsName name := isName_of_get? h hget hname
  have hchild := Path.normal_child hp fun name hname => (hrel name hname).toIsPart
  have hlocate := find_eq_directory_iff.mp hdir
  rw [locate_text d hp] at hlocate
  split at hlocate
  · cases hlocate
  rename_i hnull
  split at hlocate
  · cases hlocate
  have hfollow : d.follow (d.start p) .directory p.parts = .ok (.entry names .directory) := by
    cases hf : d.follow (d.start p) .directory p.parts with
    | error e => rw [hf] at hlocate; cases hlocate
    | ok target => rw [hf] at hlocate; cases hlocate; rfl
  have hnull' := contains_null_child hp hrel (Bool.eq_false_iff.mpr hnull)
  have hlocate' : d.locate (p.child rel).text = .ok (.entry (names ++ rel) entry) := by
    rw [locate_text d hchild, hnull', if_neg Bool.false_ne_true, if_neg (Nat.not_le.mpr hshort)]
    change (d.follow (d.start p) .directory (p.parts ++ rel)).mapError _ = _
    rw [follow_append hfollow, follow_below h hne hget]
    rfl
  obtain ⟨hslash, hpoint⟩ := ends_text hchild (List.append_ne_nil_of_right_ne_nil p.parts hne)
  rw [find_eq_ok_iff, hslash, hpoint]
  exact ⟨hlocate', Bool.and_false _, Bool.and_false _⟩

theorem exists?_of_find {d : Disk} {path : String} {found : List String × DiskEntry}
    (h : d.find path = .ok found) : d.exists? path = .ok true := by
  rw [exists?, h]

def followFaults : List FileErrorKind := [.notDirectory, .permissionDenied, .nameTooLong, .notFound]

/-- The failures that leave it open whether anything is there. -/
def lookupFaults : List FileErrorKind := [.permissionDenied, .nameTooLong]

theorem follow_error {d : Disk} {place parts : List String} {entry : DiskEntry}
    {kind : FileErrorKind} (h : d.follow place entry parts = .error kind) :
    kind ∈ followFaults := by
  induction parts generalizing place entry with
  | nil => cases h
  | cons part rest ih =>
    cases entry with
    | file octets =>
      cases h
      decide
    | sealed reason =>
      cases h
      decide
    | closed =>
      cases h
      decide
    | directory =>
      rw [follow] at h
      split at h
      · exact ih h
      split at h
      · cases h
        decide
      split at h
      · exact ih h
      · split at h
        · cases h
        · cases h
          decide

theorem locate_error {d : Disk} {path : String} {e : FileError} (h : d.locate path = .error e) :
    e = .embeddedNull ∨ ∃ kind ∈ followFaults, e = fault path kind := by
  rw [locate] at h
  split at h
  · cases h
    exact .inl rfl
  right
  split at h
  · cases h
    exact ⟨.notFound, by decide, rfl⟩
  split at h
  · cases h
    exact ⟨.nameTooLong, by decide, rfl⟩
  dsimp only at h
  cases hfollow : d.follow (if leadingSlashes path.toList = "" then d.here else []) .directory
      (namedParts path.toList) with
  | ok target => rw [hfollow] at h; cases h
  | error kind =>
    rw [hfollow] at h
    cases h
    exact ⟨kind, follow_error hfollow, rfl⟩

theorem find_error {d : Disk} {path : String} {e : FileError} (h : d.find path = .error e) :
    e = .embeddedNull ∨ ∃ kind ∈ followFaults, e = fault path kind := by
  rw [find] at h
  split at h
  · rename_i hlocate
    cases h
    exact locate_error hlocate
  · cases h
    exact .inr ⟨.notFound, by decide, rfl⟩
  · right
    split at h
    · cases h
      exact ⟨.notDirectory, by decide, rfl⟩
    split at h
    · cases h
      exact ⟨.permissionDenied, by decide, rfl⟩
    · cases h

theorem exists?_error {d : Disk} {path : String} {e : FileError} (h : d.exists? path = .error e) :
    ∃ kind ∈ lookupFaults, e = fault path kind := by
  rw [exists?] at h
  cases hfind : d.find path with
  | ok found => rw [hfind] at h; cases h
  | error reason =>
    rw [hfind] at h
    rcases find_error hfind with rfl | ⟨kind, hkind, rfl⟩
    · cases h
    · simp only [followFaults, List.mem_cons, List.not_mem_nil, or_false] at hkind
      rcases hkind with rfl | rfl | rfl | rfl
      · cases h
      · cases h
        exact ⟨.permissionDenied, by decide, rfl⟩
      · cases h
        exact ⟨.nameTooLong, by decide, rfl⟩
      · cases h

theorem exists?_long_name (d : Disk) {name : String} (h : IsPart name)
    (hnull : Char.ofNat 0 ∉ name.toList) (hlong : nameLimit < octetCount name) :
    d.exists? (Path.ofText name).text = .error (fault name .nameTooLong) := by
  have hnormal := Path.normal_ofText name
  have hne : name ≠ ".." := by
    rintro rfl
    exact absurd hlong (by decide)
  rw [Path.ofText_part h] at hnormal ⊢
  have hlocate : d.locate (Path.text ⟨"", [name]⟩) = .error (fault name .nameTooLong) := by
    rw [locate_text d hnormal, Path.text_part, if_neg (by simpa using hnull)]
    split
    · rfl
    · rw [follow, if_neg hne, if_pos hlong]
      rfl
  rw [exists?, find, hlocate]
  rfl

def without (d : Disk) (removed : List String → Bool) : Disk :=
  { d with entries := d.entries.filter fun e => !removed e.1 }

theorem get?_without {d : Disk} {removed : List String → Bool} {names : List String}
    (hne : names ≠ []) :
    (d.without removed).get? names = if removed names then none else d.get? names := by
  rw [get?_of_ne_nil _ hne, get?_of_ne_nil _ hne]
  change (d.entries.filter fun e => !removed e.1).lookup names = _
  induction d.entries with
  | nil => simp
  | cons e entries ih =>
    obtain ⟨place, entry⟩ := e
    by_cases hplace : names = place
    · subst hplace
      cases hremoved : removed names
      · simp [hremoved]
      · rw [List.filter_cons_of_neg (by simp [hremoved]), ih]
        simp [hremoved]
    · have hskip (l : List (List String × DiskEntry)) :
          List.lookup names ((place, entry) :: l) = l.lookup names := by
        rw [List.lookup_cons, beq_false_of_ne hplace]
      rw [hskip, List.filter_cons]
      split
      · rw [hskip, ih]
      · exact ih

section Files

variable {d : Disk} {removed : List String → Bool}
  (hfiles : ∀ names, removed names → ∃ entry, d.get? names = some entry ∧ entry.isFile)

include hfiles

theorem get?_without_directory {names : List String} (h : d.get? names = some .directory) :
    (d.without removed).get? names = some .directory := by
  by_cases hne : names = []
  · rw [hne]
    rfl
  · rw [get?_without hne, if_neg, h]
    intro hremoved
    obtain ⟨entry, hget, hfile⟩ := hfiles names hremoved
    rw [h] at hget
    cases hget
    cases hfile

theorem sound_without (h : d.Sound) : (d.without removed).Sound where
  distinct := h.distinct.sublist (List.filter_sublist.map Prod.fst)
  named := fun e he => h.named e (List.mem_filter.mp he).1
  rooted := fun e he => get?_without_directory hfiles (h.rooted e (List.mem_filter.mp he).1)

theorem follow_without (place : List String) (entry : DiskEntry) (parts : List String) :
    (d.without removed).follow place entry parts = d.follow place entry parts ∨
      (∃ names file, removed names ∧ d.get? names = some file ∧ file.isFile ∧
        d.follow place entry parts = .ok (.entry names file) ∧
        (d.without removed).follow place entry parts = .ok (.free names)) ∨
      d.follow place entry parts = .error .notDirectory ∧
        (d.without removed).follow place entry parts = .error .notFound := by
  induction parts generalizing place entry with
  | nil => exact .inl rfl
  | cons part rest ih =>
    cases entry with
    | file octets => exact .inl rfl
    | sealed reason => exact .inl rfl
    | closed => exact .inl rfl
    | directory =>
      rw [follow, follow]
      split
      · exact ih place.dropLast .directory
      split
      · exact .inl rfl
      rw [get?_without (by simp)]
      by_cases hremoved : removed (place ++ [part])
      · obtain ⟨file, hget, hfile⟩ := hfiles _ hremoved
        rw [if_pos hremoved, hget]
        cases rest with
        | nil => exact .inr (.inl ⟨place ++ [part], file, hremoved, hget, hfile, rfl, rfl⟩)
        | cons next rest =>
          refine .inr (.inr ⟨?_, rfl⟩)
          cases file with
          | file octets => rfl
          | sealed reason => rfl
          | directory => cases hfile
          | closed => cases hfile
      · rw [if_neg hremoved]
        cases d.get? (place ++ [part]) with
        | none => exact .inl rfl
        | some found => exact ih (place ++ [part]) found

theorem locate_without (path : String) :
    (d.without removed).locate path = d.locate path ∨
      (∃ names file, removed names ∧ d.get? names = some file ∧ file.isFile ∧
        d.locate path = .ok (.entry names file) ∧
        (d.without removed).locate path = .ok (.free names)) ∨
      d.locate path = .error (fault path .notDirectory) ∧
        (d.without removed).locate path = .error (fault path .notFound) := by
  rw [locate, locate]
  split
  · exact .inl rfl
  split
  · exact .inl rfl
  split
  · exact .inl rfl
  dsimp only
  change (Except.mapError _ ((d.without removed).follow
    (if leadingSlashes path.toList = "" then d.here else []) _ _)) = _ ∨ _
  rcases follow_without hfiles (if leadingSlashes path.toList = "" then d.here else []) .directory
    (namedParts path.toList) with
    hsame | ⟨names, file, hremoved, hget, hfile, hbefore, hfree⟩ | ⟨hbefore, hfree⟩
  · exact .inl (by rw [hsame])
  · refine .inr (.inl ⟨names, file, hremoved, hget, hfile, ?_, ?_⟩)
    · rw [hbefore]; rfl
    · exact congrArg _ hfree
  · refine .inr (.inr ⟨?_, ?_⟩)
    · rw [hbefore]; rfl
    · exact congrArg _ hfree

theorem find_without (path : String) :
    (d.without removed).find path = d.find path ∨
      (d.without removed).exists? path = .ok false ∧
        (d.exists? path = .ok false ∨
          ∃ names file, removed names ∧ d.get? names = some file ∧ file.isFile ∧
            d.find path = .ok (names, file)) := by
  have hmissing {disk : Disk} {kind : FileErrorKind} (hfind : disk.find path = .error (fault path kind))
      (hkind : kind = .notFound ∨ kind = .notDirectory) : disk.exists? path = .ok false := by
    rw [exists?, hfind]
    rcases hkind with rfl | rfl <;> rfl
  rcases locate_without hfiles path with
    hsame | ⟨names, file, hremoved, hget, hfile, hbefore, hfree⟩ | ⟨hbefore, hfree⟩
  · left
    rw [find, find, hsame]
  · right
    refine ⟨hmissing (by rw [find, hfree]) (.inl rfl), ?_⟩
    by_cases hends : endsWithSlash path || endsWithPoint path
    · refine .inl (hmissing ?_ (.inr rfl))
      rw [find_of_locate hbefore, if_pos (by rw [hfile, hends]; rfl)]
    · refine .inr ⟨names, file, hremoved, hget, hfile, find_eq_ok_iff.mpr ⟨hbefore, ?_, ?_⟩⟩
      · rw [Bool.not_eq_true] at hends
        rw [hends, Bool.and_false]
      · rw [Bool.not_eq_true, Bool.or_eq_false_iff] at hends
        rw [hends.2, Bool.and_false]
  · right
    exact ⟨hmissing (by rw [find, hfree]) (.inl rfl),
      .inl (hmissing (by rw [find, hbefore]) (.inr rfl))⟩

theorem find_without_directory {path : String} {names : List String} :
    (d.without removed).find path = .ok (names, .directory) ↔
      d.find path = .ok (names, .directory) := by
  rcases find_without hfiles path with hsame | ⟨hmissing, hfound⟩
  · rw [hsame]
  · constructor
    · intro h
      rw [exists?_of_find h] at hmissing
      cases hmissing
    · intro h
      rcases hfound with hfound | ⟨_, _, -, -, hfile, hfind⟩
      · rw [exists?_of_find h] at hfound
        cases hfound
      · rw [h] at hfind
        cases hfind
        cases hfile

theorem exists?_without (path : String) :
    (d.without removed).exists? path = d.exists? path ∨
      (d.without removed).exists? path = .ok false := by
  rcases find_without hfiles path with hsame | ⟨hmissing, -⟩
  · left
    rw [exists?, exists?, hsame]
  · exact .inr hmissing

omit hfiles in
theorem mem_below_without {names : List String} {e : List String × DiskEntry}
    (he : e ∈ (d.without removed).below names) : e ∈ d.below names := by
  obtain ⟨hne, hmem⟩ := mem_below.mp he
  exact mem_below.mpr ⟨hne, (List.mem_filter.mp hmem).1⟩

end Files

end TexHtml.Disk
