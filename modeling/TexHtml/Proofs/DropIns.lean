import TexHtml.Program.Basic
import TexHtml.Proofs.Loading
import TexHtml.Proofs.Lookup
import TexHtml.Proofs.Utf8

namespace TexHtml.Settings

theorem result_map {α β : Type} (f : α → β) (x : Logged α) :
    (x.map f).result = x.result.map f :=
  rfl

theorem result_collect {path : Path} {entries : List (List String × DiskEntry)}
    (h : ∀ e ∈ entries, isVisited e → Disk.octetCount (path.child e.1).text < Disk.pathLimit) :
    (collect path entries).result = .ok ((entries.filter isDropIn).map (path.child ·.1)) := by
  induction entries with
  | nil => rfl
  | cons e rest ih =>
    have hrest := ih fun e he => h e (List.mem_cons_of_mem _ he)
    rw [collect, if_neg]
    · by_cases hdropIn : isDropIn e
      · rw [if_pos hdropIn, result_log, result_map, hrest, List.filter_cons_of_pos hdropIn]
        rfl
      · rw [if_neg hdropIn, hrest, List.filter_cons_of_neg hdropIn]
    · intro hoverlong
      rw [Bool.and_eq_true, decide_eq_true_eq] at hoverlong
      have hshort := h e List.mem_cons_self hoverlong.1
      omega

theorem result_collect_overlong {path : Path} {entries : List (List String × DiskEntry)}
    {e : List String × DiskEntry} (he : e ∈ entries) (hvisited : isVisited e)
    (hlong : Disk.pathLimit ≤ Disk.octetCount (path.child e.1).text) :
    ∃ place, (collect path entries).result = .error (.file (Disk.fault place .nameTooLong)) := by
  induction entries with
  | nil => cases he
  | cons first rest ih =>
    rw [collect]
    by_cases hfirst : isVisited first &&
        decide (Disk.pathLimit ≤ Disk.octetCount (path.child first.1).text)
    · rw [if_pos hfirst]
      exact ⟨_, rfl⟩
    · have hmem : e ∈ rest := by
        rcases List.mem_cons.mp he with rfl | he
        · exact absurd (by simp [hvisited, hlong]) hfirst
        · exact he
      obtain ⟨place, hplace⟩ := ih hmem
      refine ⟨place, ?_⟩
      rw [if_neg hfirst]
      split
      · rw [result_log, result_map, hplace]
        rfl
      · exact hplace

theorem precedes_iff {a b : Path} : precedes a b ↔ ¬ b.components < a.components := by
  rw [precedes, Bool.not_eq_true', decide_eq_false_iff_not]

theorem pairwise_mergeSort {files : List Path} (h : (files.map Path.components).Nodup) :
    (files.mergeSort precedes).Pairwise fun a b => a.components < b.components := by
  have hsorted : (files.mergeSort precedes).Pairwise fun a b => precedes a b := by
    apply List.pairwise_mergeSort
    · intro a b c hab hbc
      rw [precedes_iff] at hab hbc ⊢
      exact List.le_trans hab hbc
    · intro a b
      rw [Bool.or_eq_true, precedes_iff, precedes_iff]
      exact List.le_total a.components b.components
  have hdistinct : (files.mergeSort precedes).Pairwise fun a b => a.components ≠ b.components := by
    rw [← List.pairwise_map (f := Path.components)]
    exact (((List.mergeSort_perm files precedes).map Path.components).nodup_iff).mpr h
  refine (hsorted.and hdistinct).imp ?_
  rintro a b ⟨hle, hne⟩
  by_contra hlt
  exact hne (List.le_antisymm (precedes_iff.mp hle) hlt)

theorem eq_of_ascending {files others : List Path}
    (hfiles : files.Pairwise fun a b => a.components < b.components)
    (hothers : others.Pairwise fun a b => a.components < b.components)
    (h : ∀ p, p ∈ files ↔ p ∈ others) : files = others := by
  have hnodup {l : List Path} (hl : l.Pairwise fun a b => a.components < b.components) : l.Nodup := by
    refine hl.imp ?_
    rintro a _ hlt rfl
    exact List.lt_irrefl _ hlt
  refine List.Perm.eq_of_pairwise (fun a b _ _ hab hba => ?_) hfiles hothers
    ((List.perm_ext_iff_of_nodup (hnodup hfiles) (hnodup hothers)).mpr h)
  exact absurd hba (List.lt_asymm hab)

def StandsBelow (disk : Disk) (directory : String) (rel : List String) (file : DiskEntry) : Prop :=
  ∃ names, disk.find (Path.ofText directory).text = .ok (names, .directory) ∧
    disk.get? (names ++ rel) = some file ∧ file.isFile ∧ isSettingsFile rel

structure DropIns (disk : Disk) (directory : String) (files : List Path) : Prop where
  ascending : files.Pairwise fun a b => a.components < b.components
  mem_iff : ∀ p, p ∈ files ↔
    ∃ rel file, StandsBelow disk directory rel file ∧ p = (Path.ofText directory).child rel

/-- All paths can be looked up that a directory of drop-in files asks for. -/
structure Searchable (disk : Disk) (directory : String) : Prop where
  itself : ∃ found, disk.exists? (Path.ofText directory).text = .ok found
  inside : ∀ names, disk.find (Path.ofText directory).text = .ok (names, .directory) →
    ∀ e ∈ disk.below names, isVisited e →
      Disk.octetCount ((Path.ofText directory).child e.1).text < Disk.pathLimit

theorem ne_nil_of_isSettingsFile {names : List String} (h : isSettingsFile names) : names ≠ [] := by
  rintro rfl
  cases h

theorem components_child (path : Path) (names : List String) :
    (path.child names).components = path.components ++ names := by
  change (if path.root = "" then path.parts ++ names else path.root :: (path.parts ++ names)) = _
  rw [Path.components]
  split <;> rfl

theorem mem_filter_isDropIn {disk : Disk} (h : disk.Sound) {names rel : List String}
    {file : DiskEntry} : (rel, file) ∈ (disk.below names).filter isDropIn ↔
      disk.get? (names ++ rel) = some file ∧ file.isFile ∧ isSettingsFile rel := by
  rw [List.mem_filter, Disk.mem_below, isDropIn, Bool.and_eq_true]
  constructor
  · rintro ⟨⟨hne, hmem⟩, hfile, hsettings⟩
    refine ⟨?_, hfile, hsettings⟩
    rwa [Disk.get?_eq_some_iff h (List.append_ne_nil_of_right_ne_nil names hne)]
  · rintro ⟨hget, hfile, hsettings⟩
    have hne := ne_nil_of_isSettingsFile hsettings
    rw [Disk.get?_eq_some_iff h (List.append_ne_nil_of_right_ne_nil names hne)] at hget
    exact ⟨⟨hne, hget⟩, hfile, hsettings⟩

section Listing

variable {disk : Disk} {listing : Listing} {directory : String}

theorem result_dropIns_error {e : FileError}
    (h : disk.exists? (Path.ofText directory).text = .error e) :
    (dropIns disk listing directory).result = .error (.file e) := by
  unfold dropIns
  dsimp only
  rw [h]
  rfl

theorem result_dropIns_directory {names : List String}
    (h : disk.find (Path.ofText directory).text = .ok (names, .directory)) :
    (dropIns disk listing directory).result =
      (collect (Path.ofText directory) (listing names)).result.map (·.mergeSort precedes) := by
  unfold dropIns
  dsimp only
  rw [Disk.exists?_of_find h, h]
  rfl

theorem result_dropIns_nothing {found : Bool}
    (hfound : disk.exists? (Path.ofText directory).text = .ok found)
    (h : ∀ names, disk.find (Path.ofText directory).text ≠ .ok (names, .directory)) :
    (dropIns disk listing directory).result = .ok [] := by
  unfold dropIns
  dsimp only
  rw [hfound]
  cases found with
  | false => rw [result_log]; rfl
  | true =>
    dsimp only
    split
    · rename_i names hnames
      exact absurd hnames (h names)
    · rfl
    · rw [result_log]
      rfl

variable (hdisk : disk.Sound) (hlisting : ∀ names, (listing names).Perm (disk.below names))

include hdisk hlisting

theorem dropIns_of_directory {names : List String}
    (hnames : disk.find (Path.ofText directory).text = .ok (names, .directory)) :
    DropIns disk directory ((((listing names).filter isDropIn).map
      ((Path.ofText directory).child ·.1)).mergeSort precedes) := by
  have hperm := (hlisting names).filter isDropIn
  constructor
  · apply pairwise_mergeSort
    rw [List.map_map]
    have hnodup : (((listing names).filter isDropIn).map Prod.fst).Nodup := by
      rw [(hperm.map Prod.fst).nodup_iff]
      exact (Disk.nodup_below hdisk names).sublist (List.filter_sublist.map Prod.fst)
    have hcomponents : Path.components ∘ ((Path.ofText directory).child ·.1) =
        ((Path.ofText directory).components ++ ·) ∘ (Prod.fst (α := List String) (β := DiskEntry)) := by
      funext e
      exact components_child _ e.1
    rw [hcomponents, ← List.map_map]
    exact hnodup.map (List.append_right_injective _)
  · intro p
    rw [(List.mergeSort_perm _ precedes).mem_iff, List.mem_map]
    constructor
    · rintro ⟨⟨rel, file⟩, hmem, rfl⟩
      have hbelow := (mem_filter_isDropIn hdisk).mp (hperm.mem_iff.mp hmem)
      exact ⟨rel, file, ⟨names, hnames, hbelow⟩, rfl⟩
    · rintro ⟨rel, file, ⟨names', hnames', hbelow⟩, rfl⟩
      obtain rfl : names = names' := by
        rw [hnames] at hnames'
        cases hnames'
        rfl
      have hmem := (mem_filter_isDropIn hdisk).mpr hbelow
      exact ⟨(rel, file), hperm.mem_iff.mpr hmem, rfl⟩

theorem dropIns_of_listing (hsearch : Searchable disk directory) :
    ∃ files, (dropIns disk listing directory).result = .ok files ∧
      DropIns disk directory files := by
  by_cases hdirectory :
      ∃ names, disk.find (Path.ofText directory).text = .ok (names, .directory)
  · obtain ⟨names, hnames⟩ := hdirectory
    have hshort (e : List String × DiskEntry) (he : e ∈ listing names) (hvisited : isVisited e) :=
      hsearch.inside names hnames e ((hlisting names).mem_iff.mp he) hvisited
    rw [result_dropIns_directory hnames, result_collect hshort]
    exact ⟨_, rfl, dropIns_of_directory hdisk hlisting hnames⟩
  · obtain ⟨found, hfound⟩ := hsearch.itself
    rw [not_exists] at hdirectory
    refine ⟨[], result_dropIns_nothing hfound hdirectory, .nil, fun p => ⟨by simp, ?_⟩⟩
    rintro ⟨rel, file, ⟨names, hnames, -⟩, -⟩
    exact absurd hnames (hdirectory names)

omit hdisk in
theorem dropIns_unsearchable (hsearch : ¬ Searchable disk directory) :
    ∃ place, ∃ kind ∈ Disk.lookupFaults, (dropIns disk listing directory).result =
      .error (.file (Disk.fault place kind)) := by
  cases hfound : disk.exists? (Path.ofText directory).text with
  | error e =>
    obtain ⟨kind, hkind, rfl⟩ := Disk.exists?_error hfound
    exact ⟨_, kind, hkind, result_dropIns_error hfound⟩
  | ok found =>
    by_contra hnone
    refine hsearch ⟨⟨found, hfound⟩, fun names hnames e he hvisited => ?_⟩
    by_contra hlong
    obtain ⟨place, hplace⟩ := result_collect_overlong ((hlisting names).mem_iff.mpr he) hvisited
      (Nat.not_lt.mp hlong)
    refine hnone ⟨place, .nameTooLong, by decide, ?_⟩
    rw [result_dropIns_directory hnames, hplace]
    rfl

end Listing

/-- The octets are those of a text that the reader takes, be it as settings or as malformed. -/
def IsLegible (reader : Reader) (octets : List UInt8) : Prop :=
  ∃ text, octets = Text.Utf8.encode text ∧ ∀ f, reader (String.ofList text) ≠ .error (.fault f)

def Readable (reader : Reader) (disk : Disk) (directory : String) : Prop :=
  ∀ rel octets, StandsBelow disk directory rel (.file octets) → IsLegible reader octets

/-- A file that is passed over: it cannot be opened, or what it holds is malformed. -/
def PassedOver (reader : Reader) : DiskEntry → Prop
  | .sealed _ => True
  | .file octets => ∃ text message, octets = Text.Utf8.encode text ∧
      reader (String.ofList text) = .error (.malformed message)
  | _ => False

def Fails (reader : Reader) : DiskEntry → Prop
  | .sealed _ => True
  | .file octets => ∀ entries, Content.ofOctets reader octets ≠ .loaded entries
  | _ => False

def loaded? (reader : Reader) (disk : Disk) (path : Path) : Option Entries :=
  match readContent reader disk path with
  | .loaded entries => some entries
  | _ => none

section Contents

variable {reader : Reader}

theorem ofOctets_encode (text : List Char) :
    Content.ofOctets reader (Text.Utf8.encode text) = .ofResult (reader (String.ofList text)) := by
  rw [Content.ofOctets, Text.Utf8.decode_encode]

theorem ofResult_eq_unreadable_iff {result : Except ReadError Entries} {f : Fault} :
    Content.ofResult result = .unreadable f ↔ result = .error (.fault f) := by
  rcases result with (message | g) | entries <;> simp [Content.ofResult]

theorem ofOctets_eq_unreadable_iff {octets : List UInt8} {f : Fault} :
    Content.ofOctets reader octets = .unreadable f ↔
      (∃ e, Text.Utf8.decode octets = .error e ∧ f = .codec e) ∨
        ∃ text, octets = Text.Utf8.encode text ∧ reader (String.ofList text) = .error (.fault f) := by
  cases hdecode : Text.Utf8.decode octets with
  | error e =>
    have hnone (text : List Char) : octets ≠ Text.Utf8.encode text := by
      rintro rfl
      rw [Text.Utf8.decode_encode] at hdecode
      cases hdecode
    simp [Content.ofOctets, hdecode, hnone, eq_comm]
  | ok text =>
    obtain rfl := Text.Utf8.decode_eq_ok_iff.mp hdecode
    rw [ofOctets_encode, ofResult_eq_unreadable_iff]
    constructor
    · intro hfault
      exact .inr ⟨text, rfl, hfault⟩
    · rintro (⟨e, he, -⟩ | ⟨text', htext', hfault⟩)
      · cases he
      · rwa [Text.Utf8.encode_injective htext']

theorem isLegible_iff {octets : List UInt8} :
    IsLegible reader octets ↔ ∀ f, Content.ofOctets reader octets ≠ .unreadable f := by
  simp only [ne_eq, ofOctets_eq_unreadable_iff, not_or, not_exists, not_and]
  constructor
  · rintro ⟨text, rfl, hreader⟩ f
    refine ⟨fun e he => ?_, fun text' htext' => ?_⟩
    · rw [Text.Utf8.decode_encode] at he
      cases he
    · rw [← Text.Utf8.encode_injective htext']
      exact hreader f
  · intro h
    cases hdecode : Text.Utf8.decode octets with
    | error e => exact absurd rfl ((h (.codec e)).1 e hdecode)
    | ok text =>
      have hencode := Text.Utf8.decode_eq_ok_iff.mp hdecode
      exact ⟨text, hencode, fun f => (h f).2 text hencode⟩

theorem Fails.isFile {file : DiskEntry} (h : Fails reader file) : file.isFile := by
  cases file with
  | sealed reason => rfl
  | file octets => rfl
  | directory => cases h
  | closed => cases h

theorem PassedOver.fails {file : DiskEntry} (h : PassedOver reader file) : Fails reader file := by
  cases file with
  | sealed reason => trivial
  | file octets =>
    obtain ⟨text, message, rfl, hreader⟩ := h
    intro entries hloaded
    rw [ofOctets_encode, hreader] at hloaded
    cases hloaded
  | directory => exact h
  | closed => exact h

theorem readContent_of_find {disk : Disk} {path : Path} {names : List String} {octets : List UInt8}
    (h : disk.find path.text = .ok (names, .file octets)) :
    readContent reader disk path = .ofOctets reader octets := by
  unfold readContent Disk.read
  rw [h]

theorem readContent_of_sealed {disk : Disk} {path : Path} {names : List String}
    {reason : FileErrorKind} (h : disk.find path.text = .ok (names, .sealed reason)) :
    readContent reader disk path = .refused (Disk.fault path.text reason).message := by
  unfold readContent Disk.read
  rw [h]

theorem loaded?_of_fails {disk : Disk} {path : Path} {names : List String} {file : DiskEntry}
    (h : disk.find path.text = .ok (names, file)) (hfails : Fails reader file) :
    loaded? reader disk path = none := by
  unfold loaded?
  cases file with
  | sealed reason => rw [readContent_of_sealed h]
  | file octets =>
    rw [readContent_of_find h]
    split
    · rename_i entries hloaded
      exact absurd hloaded (hfails entries)
    · rfl
  | directory => cases hfails
  | closed => cases hfails

theorem readFiles_eq {disk : Disk} {files : List Path}
    (h : ∀ p ∈ files, ∀ f, readContent reader disk p ≠ .unreadable f) :
    readFiles reader disk files = .ok (files.filterMap (loaded? reader disk)) := by
  induction files with
  | nil => rfl
  | cons p files ih =>
    have hrest := ih fun q hq => h q (List.mem_cons_of_mem p hq)
    have hp := h p List.mem_cons_self
    rw [List.filterMap_cons]
    unfold readFiles loaded?
    cases hcontent : readContent reader disk p with
    | unreadable f => exact absurd hcontent (hp f)
    | refused reason => exact hrest
    | loaded entries =>
      dsimp only
      rw [hrest]
      rfl

variable {disk : Disk} (hdisk : disk.Sound)

include hdisk

theorem find_below {directory : String} (hsearch : Searchable disk directory) {rel : List String}
    {file : DiskEntry} (h : StandsBelow disk directory rel file) :
    ∃ names, disk.find ((Path.ofText directory).child rel).text = .ok (names, file) := by
  obtain ⟨names, hnames, hget, -, hsettings⟩ := h
  have hne := ne_nil_of_isSettingsFile hsettings
  have hbelow : (rel, file) ∈ disk.below names := by
    rw [Disk.mem_below]
    exact ⟨hne, Disk.mem_of_get? (List.append_ne_nil_of_right_ne_nil names hne) hget⟩
  have hvisited : isVisited (rel, file) := by
    rw [isVisited, hsettings, Bool.or_true]
  have hshort := hsearch.inside names hnames _ hbelow hvisited
  exact ⟨_, Disk.find_child hdisk (Path.normal_ofText directory) hnames hne hget hshort⟩

theorem readContent_below {directory : String} (hsearch : Searchable disk directory)
    {rel : List String} {file : DiskEntry} (h : StandsBelow disk directory rel file) {f : Fault} :
    readContent reader disk ((Path.ofText directory).child rel) = .unreadable f ↔
      ∃ octets, file = .file octets ∧ Content.ofOctets reader octets = .unreadable f := by
  obtain ⟨names, hfind⟩ := find_below hdisk hsearch h
  obtain ⟨-, -, -, hfile, -⟩ := h
  cases file with
  | file octets => simp [readContent_of_find hfind]
  | sealed reason => simp [readContent_of_sealed hfind]
  | directory => cases hfile
  | closed => cases hfile

theorem readFiles_of_dropIns {directory : String} (hsearch : Searchable disk directory)
    (hreadable : Readable reader disk directory) {files : List Path}
    (h : DropIns disk directory files) :
    readFiles reader disk files = .ok (files.filterMap (loaded? reader disk)) := by
  apply readFiles_eq
  intro p hp f hf
  obtain ⟨rel, file, hbelow, rfl⟩ := (h.mem_iff p).mp hp
  obtain ⟨octets, rfl, hunreadable⟩ := (readContent_below hdisk hsearch hbelow).mp hf
  exact isLegible_iff.mp (hreadable rel octets hbelow) f hunreadable

variable {listing : Listing} (hlisting : ∀ names, (listing names).Perm (disk.below names))

include hlisting

theorem readDirectories_eq {directories : List String}
    (hsearch : ∀ d ∈ directories, Searchable disk d)
    (hreadable : ∀ d ∈ directories, Readable reader disk d) :
    ∃ files : String → List Path, (∀ d ∈ directories, DropIns disk d (files d)) ∧
      readDirectories reader disk listing directories =
        .ok (directories.flatMap fun d => (files d).filterMap (loaded? reader disk)) := by
  -- the files are those that the listing gives
  let files (d : String) : List Path := ((dropIns disk listing d).result.toOption).getD []
  have hfiles (d : String) (hd : d ∈ directories) :
      (dropIns disk listing d).result = .ok (files d) ∧ DropIns disk d (files d) := by
    obtain ⟨found, hresult, hfound⟩ := dropIns_of_listing hdisk hlisting (hsearch d hd)
    have heq : files d = found := by
      simp only [files, hresult]
      rfl
    rw [heq]
    exact ⟨hresult, hfound⟩
  refine ⟨files, fun d hd => (hfiles d hd).2, ?_⟩
  clear_value files
  induction directories with
  | nil => rfl
  | cons d rest ih =>
    obtain ⟨hresult, hdropIns⟩ := hfiles d List.mem_cons_self
    have hread := readFiles_of_dropIns hdisk (hsearch d List.mem_cons_self)
      (hreadable d List.mem_cons_self) hdropIns
    have hrest := ih (fun e he => hsearch e (List.mem_cons_of_mem d he))
      (fun e he => hreadable e (List.mem_cons_of_mem d he))
      fun e he => hfiles e (List.mem_cons_of_mem d he)
    rw [readDirectories, hresult, hrest]
    change ((readFiles reader disk (files d)).bind fun layers => .ok (layers ++ _)) = _
    rw [hread]
    rfl

theorem readDirectories_unsearchable {directories : List String}
    (hreadable : ∀ d ∈ directories, Readable reader disk d) {directory : String}
    (hmem : directory ∈ directories) (hsearch : ¬ Searchable disk directory) :
    ∃ place, ∃ kind ∈ Disk.lookupFaults, readDirectories reader disk listing directories =
      .error (.file (Disk.fault place kind)) := by
  induction directories with
  | nil => cases hmem
  | cons d rest ih =>
    rw [readDirectories]
    by_cases hfirst : Searchable disk d
    · have hrest : directory ∈ rest := by
        rcases List.mem_cons.mp hmem with rfl | hrest
        · exact absurd hfirst hsearch
        · exact hrest
      obtain ⟨place, kind, hkind, hplace⟩ :=
        ih (fun e he => hreadable e (List.mem_cons_of_mem d he)) hrest
      obtain ⟨files, hfiles, hdropIns⟩ := dropIns_of_listing hdisk hlisting hfirst
      rw [hfiles, hplace]
      change ∃ place, ∃ kind ∈ Disk.lookupFaults,
        ((readFiles reader disk files).bind fun _ => _) = _
      rw [readFiles_of_dropIns hdisk hfirst (hreadable d List.mem_cons_self) hdropIns]
      exact ⟨place, kind, hkind, rfl⟩
    · obtain ⟨place, kind, hkind, hplace⟩ := dropIns_unsearchable hlisting hfirst
      rw [hplace]
      exact ⟨place, kind, hkind, rfl⟩

end Contents

def MainSettings (reader : Reader) (disk : Disk) (path : String) (main : Entries) : Prop :=
  disk.exists? (Path.ofText path).text = .ok false ∧ main = [] ∨
    disk.exists? (Path.ofText path).text = .ok true ∧
      readContent reader disk (.ofText path) = .loaded main

theorem result_loadMain {reader : Reader} {disk : Disk} {path : String} {main : Entries}
    (h : MainSettings reader disk path main) : (loadMain reader disk path).result = .ok main := by
  unfold loadMain
  rcases h with ⟨hmissing, rfl⟩ | ⟨hfound, hloaded⟩
  · rw [hmissing]
    exact result_log _ _
  · rw [hfound]
    dsimp only
    rw [hloaded]
    exact result_log _ _

theorem result_loadFiles_of_main {reader : Reader} {disk : Disk} {path : String} {main : Entries}
    (h : MainSettings reader disk path main) (listing : Listing) (directories : List String) :
    (loadFiles reader disk listing path directories).result =
      (readDirectories reader disk listing directories).map (·.foldl merge main) := by
  rw [result_loadFiles, readLayers, result_loadMain h]
  change ((readDirectories reader disk listing directories).bind
    fun layers => .ok (main, layers)).map _ = _
  cases readDirectories reader disk listing directories <;> rfl

section Removal

variable {reader : Reader} {disk : Disk} {removed : List String → Bool}
  (hremoved : ∀ names, removed names → ∃ file, disk.get? names = some file ∧ Fails reader file)

include hremoved

theorem file_of_removed (names : List String) (h : removed names) :
    ∃ file, disk.get? names = some file ∧ file.isFile :=
  let ⟨file, hget, hfails⟩ := hremoved names h
  ⟨file, hget, hfails.isFile⟩

theorem standsBelow_of_without {directory : String} {rel : List String} {file : DiskEntry}
    (h : StandsBelow (disk.without removed) directory rel file) :
    StandsBelow disk directory rel file := by
  obtain ⟨names, hnames, hget, hfile, hsettings⟩ := h
  have hdirectory := (Disk.find_without_directory (file_of_removed hremoved)).mp hnames
  refine ⟨names, hdirectory, ?_, hfile, hsettings⟩
  have hne := List.append_ne_nil_of_right_ne_nil names (ne_nil_of_isSettingsFile hsettings)
  rw [Disk.get?_without hne] at hget
  exact (Option.ite_none_left_eq_some.mp hget).2

theorem fails_or_standsBelow_without {directory : String} {rel : List String} {file : DiskEntry}
    (h : StandsBelow disk directory rel file) :
    Fails reader file ∨ StandsBelow (disk.without removed) directory rel file := by
  obtain ⟨names, hnames, hget, hfile, hsettings⟩ := h
  by_cases hgone : removed (names ++ rel)
  · left
    obtain ⟨file', hget', hfails⟩ := hremoved _ hgone
    rw [hget] at hget'
    cases hget'
    exact hfails
  · right
    have hdirectory := (Disk.find_without_directory (file_of_removed hremoved)).mpr hnames
    refine ⟨names, hdirectory, ?_, hfile, hsettings⟩
    have hne := List.append_ne_nil_of_right_ne_nil names (ne_nil_of_isSettingsFile hsettings)
    rw [Disk.get?_without hne, if_neg hgone, hget]

theorem searchable_without {directory : String} (h : Searchable disk directory) :
    Searchable (disk.without removed) directory := by
  constructor
  · obtain ⟨found, hfound⟩ := h.itself
    rcases Disk.exists?_without (file_of_removed hremoved) (Path.ofText directory).text with
      hsame | hmissing
    · exact ⟨found, hsame.trans hfound⟩
    · exact ⟨false, hmissing⟩
  · intro names hnames e he
    exact h.inside names ((Disk.find_without_directory (file_of_removed hremoved)).mp hnames) e
      (Disk.mem_below_without he)

theorem readable_without {directory : String} (h : Readable reader disk directory) :
    Readable reader (disk.without removed) directory :=
  fun rel octets hbelow => h rel octets (standsBelow_of_without hremoved hbelow)

theorem mainSettings_without {path : String} {main : Entries}
    (h : MainSettings reader disk path main) :
    MainSettings reader (disk.without removed) path main := by
  have hfind := Disk.find_without (file_of_removed hremoved) (Path.ofText path).text
  rcases h with ⟨hmissing, hmain⟩ | ⟨hfound, hloaded⟩
  · left
    refine ⟨?_, hmain⟩
    rcases Disk.exists?_without (file_of_removed hremoved) (Path.ofText path).text with hsame | h
    · exact hsame.trans hmissing
    · exact h
  · right
    -- the main file loads, so it is none of those that are removed
    have hsame : (disk.without removed).find (Path.ofText path).text =
        disk.find (Path.ofText path).text := by
      rcases hfind with hsame | ⟨-, hmissing | ⟨names, file, hmem, hget, -, hfile⟩⟩
      · exact hsame
      · rw [hmissing] at hfound
        cases hfound
      · obtain ⟨file', hget', hfails⟩ := hremoved names hmem
        rw [hget] at hget'
        cases hget'
        have hnone := loaded?_of_fails hfile hfails
        rw [loaded?, hloaded] at hnone
        cases hnone
    constructor
    · rw [← hfound, Disk.exists?, Disk.exists?, hsame]
    · rw [← hloaded]
      unfold readContent Disk.read
      rw [hsame]

theorem filterMap_loaded_without (hdisk : disk.Sound) {directory : String}
    (hsearch : Searchable disk directory) {files kept : List Path}
    (hfiles : DropIns disk directory files) (hkept : DropIns (disk.without removed) directory kept) :
    kept.filterMap (loaded? reader (disk.without removed)) =
      files.filterMap (loaded? reader disk) := by
  have hsame (p : Path) (hp : p ∈ kept) :
      p ∈ files ∧ loaded? reader (disk.without removed) p = loaded? reader disk p := by
    obtain ⟨rel, file, hbelow, rfl⟩ := (hkept.mem_iff p).mp hp
    have hbefore := standsBelow_of_without hremoved hbelow
    refine ⟨(hfiles.mem_iff _).mpr ⟨rel, file, hbefore, rfl⟩, ?_⟩
    obtain ⟨names, hfind⟩ := find_below hdisk hsearch hbefore
    obtain ⟨names', hfind'⟩ := find_below (Disk.sound_without (file_of_removed hremoved) hdisk)
      (searchable_without hremoved hsearch) hbelow
    unfold loaded? readContent Disk.read
    rw [hfind, hfind']
    cases file <;> rfl
  have hnone (p : Path) (hp : p ∈ files) (hgone : p ∉ kept) : loaded? reader disk p = none := by
    obtain ⟨rel, file, hbelow, rfl⟩ := (hfiles.mem_iff p).mp hp
    rcases fails_or_standsBelow_without hremoved hbelow with hfails | hstays
    · obtain ⟨names, hfind⟩ := find_below hdisk hsearch hbelow
      exact loaded?_of_fails hfind hfails
    · exact absurd ((hkept.mem_iff _).mpr ⟨rel, file, hstays, rfl⟩) hgone
  have hfilter : kept = files.filter (· ∈ kept) := by
    apply eq_of_ascending hkept.ascending (hfiles.ascending.filter _)
    intro p
    rw [List.mem_filter, decide_eq_true_eq]
    exact ⟨fun hp => ⟨(hsame p hp).1, hp⟩, And.right⟩
  calc kept.filterMap (loaded? reader (disk.without removed))
      = kept.filterMap (loaded? reader disk) := List.filterMap_congr fun p hp => (hsame p hp).2
    _ = (files.filter (· ∈ kept)).filterMap (loaded? reader disk) := by rw [← hfilter]
    _ = files.filterMap (loaded? reader disk) := by
      rw [List.filterMap_filter]
      apply List.filterMap_congr
      intro p hp
      by_cases hgone : p ∈ kept
      · simp [hgone]
      · simp [hgone, hnone p hp hgone]

end Removal

theorem readDirectories_without {reader : Reader} {disk : Disk} (hdisk : disk.Sound)
    {removed : List String → Bool}
    (hremoved : ∀ names, removed names → ∃ file, disk.get? names = some file ∧ Fails reader file)
    {relisting : Listing}
    (hrelisting : ∀ names, (relisting names).Perm ((disk.without removed).below names))
    {directories : List String} (hsearch : ∀ d ∈ directories, Searchable disk d)
    (hreadable : ∀ d ∈ directories, Readable reader (disk.without removed) d)
    {files : String → List Path} (hfiles : ∀ d ∈ directories, DropIns disk d (files d)) :
    readDirectories reader (disk.without removed) relisting directories =
      .ok (directories.flatMap fun d => (files d).filterMap (loaded? reader disk)) := by
  obtain ⟨kept, hkept, hlayers⟩ := readDirectories_eq
    (Disk.sound_without (file_of_removed hremoved) hdisk) hrelisting
    (fun d hd => searchable_without hremoved (hsearch d hd)) hreadable
  have hsame := List.flatMap_congr fun d hd =>
    filterMap_loaded_without hremoved hdisk (hsearch d hd) (hfiles d hd) (hkept d hd)
  rw [hlayers, hsame]

/-- Settings are the main ones with the drop-in files that load laid over them, directory by
directory and in the order of their paths, whatever the order of listing; and files that cannot be
opened or are malformed may as well not be there. A path that cannot be looked up ends the loading
instead, be it that of a directory which cannot exist. -/
theorem loadFiles_of_any_listing {reader : Reader} {disk : Disk} (hdisk : disk.Sound)
    {listing : Listing} (hlisting : ∀ names, (listing names).Perm (disk.below names))
    {path : String} {main : Entries} (hmain : MainSettings reader disk path main)
    {directories : List String} (hreadable : ∀ d ∈ directories, Readable reader disk d) :
    ((∀ d ∈ directories, Searchable disk d) →
      (∃ files : String → List Path, (∀ d ∈ directories, DropIns disk d (files d)) ∧
        (loadFiles reader disk listing path directories).result =
          .ok ((directories.flatMap fun d =>
            (files d).filterMap (loaded? reader disk)).foldl merge main)) ∧
      ∀ (removed : List String → Bool) (relisting : Listing),
        (∀ names, removed names → ∃ file, disk.get? names = some file ∧ PassedOver reader file) →
        (∀ names, (relisting names).Perm ((disk.without removed).below names)) →
        (loadFiles reader (disk.without removed) relisting path directories).result =
          (loadFiles reader disk listing path directories).result) ∧
    ((∃ d ∈ directories, ¬ Searchable disk d) →
      ∃ place, ∃ kind ∈ Disk.lookupFaults,
        (loadFiles reader disk listing path directories).result =
          .error (.file (Disk.fault place kind))) := by
  rw [result_loadFiles_of_main hmain]
  refine ⟨fun hsearch => ?_, ?_⟩
  · obtain ⟨files, hfiles, hlayers⟩ := readDirectories_eq hdisk hlisting hsearch hreadable
    rw [hlayers]
    refine ⟨⟨files, hfiles, rfl⟩, fun removed relisting hpassed hrelisting => ?_⟩
    have hremoved (names : List String) (hnames : removed names) :
        ∃ file, disk.get? names = some file ∧ Fails reader file :=
      (hpassed names hnames).imp fun file h => ⟨h.1, h.2.fails⟩
    rw [result_loadFiles_of_main (mainSettings_without hremoved hmain),
      readDirectories_without hdisk hremoved hrelisting hsearch
        (fun d hd => readable_without hremoved (hreadable d hd)) hfiles]
  · rintro ⟨directory, hmem, hsearch⟩
    obtain ⟨place, kind, hkind, hplace⟩ :=
      readDirectories_unsearchable hdisk hlisting hreadable hmem hsearch
    rw [hplace]
    exact ⟨place, kind, hkind, rfl⟩

def isUnreadable (reader : Reader) : DiskEntry → Bool
  | .file octets =>
    match Content.ofOctets reader octets with
    | .unreadable _ => true
    | _ => false
  | _ => false

theorem readable_of_entries {reader : Reader} {disk : Disk}
    (h : ∀ e ∈ disk.entries, isUnreadable reader e.2 = false) (directory : String) :
    Readable reader disk directory := by
  rintro rel octets ⟨names, -, hget, -, hsettings⟩
  rw [isLegible_iff]
  intro f hf
  have hne := List.append_ne_nil_of_right_ne_nil names (ne_nil_of_isSettingsFile hsettings)
  have hreadable := h _ (Disk.mem_of_get? hne hget)
  rw [isUnreadable, hf] at hreadable
  cases hreadable

theorem searchable_of_directory {disk : Disk} {directory : String} {names : List String}
    (hnames : disk.find (Path.ofText directory).text = .ok (names, .directory))
    (h : ∀ e ∈ disk.below names,
      Disk.octetCount ((Path.ofText directory).child e.1).text < Disk.pathLimit) :
    Searchable disk directory := by
  refine ⟨⟨true, Disk.exists?_of_find hnames⟩, fun names' hnames' e he _ => ?_⟩
  rw [hnames] at hnames'
  cases hnames'
  exact h e he

theorem searchable_of_missing {disk : Disk} {directory : String}
    (h : disk.exists? (Path.ofText directory).text = .ok false) : Searchable disk directory := by
  refine ⟨⟨false, h⟩, fun names hnames => ?_⟩
  rw [Disk.exists?_of_find hnames] at h
  cases h

def sampleDisk : Disk where
  here := ["home"]
  entries :=
    [(["home"], .directory),
     (["home", "conf.d"], .directory),
     (["home", "conf.d", "20.toml"], .file (Text.Utf8.encode "a = 2".toList)),
     (["home", "conf.d", "more"], .directory),
     (["home", "conf.d", "more", "10.toml"], .file (Text.Utf8.encode "a = 1\nb = 1".toList)),
     (["home", "conf.d", "30.toml"], .file (Text.Utf8.encode "a = [".toList)),
     (["home", "conf.d", "40.toml"], .sealed .permissionDenied),
     (["home", "conf.d", "hidden"], .closed)]

def brokenSamples : List (List String) :=
  [["home", "conf.d", "30.toml"], ["home", "conf.d", "40.toml"]]

theorem sampleDisk_sound : sampleDisk.Sound := by decide

theorem mainSettings_sampleDisk (reader : Reader) :
    MainSettings reader sampleDisk "main.toml" [] :=
  .inl ⟨by decide, rfl⟩

theorem searchable_sampleDisk : ∀ d ∈ ["conf.d", "missing"], Searchable sampleDisk d := by
  intro d hd
  rcases List.mem_cons.mp hd with rfl | hd
  · have hnames : sampleDisk.find (Path.ofText "conf.d").text =
        .ok (["home", "conf.d"], .directory) := by
      decide
    exact searchable_of_directory hnames (by decide)
  · cases List.mem_singleton.mp hd
    exact searchable_of_missing (by decide)

def isMalformed (reader : Reader) (text : List Char) : Bool :=
  match reader (String.ofList text) with
  | .error (.malformed _) => true
  | _ => false

theorem contents_sampleDisk :
    (∀ e ∈ sampleDisk.entries, isUnreadable Program.tomlReader e.2 = false) ∧
      isMalformed Program.tomlReader "a = [".toList := by decide +kernel

theorem readable_sampleDisk (directory : String) :
    Readable Program.tomlReader sampleDisk directory :=
  readable_of_entries contents_sampleDisk.1 directory

theorem passedOver_sampleDisk (names : List String) (h : brokenSamples.contains names) :
    ∃ file, sampleDisk.get? names = some file ∧ PassedOver Program.tomlReader file := by
  rw [List.contains_iff_mem] at h
  rcases List.mem_cons.mp h with rfl | h
  · refine ⟨.file (Text.Utf8.encode "a = [".toList), by decide, ?_⟩
    have hmalformed := contents_sampleDisk.2
    rw [isMalformed] at hmalformed
    split at hmalformed
    · exact ⟨_, _, rfl, ‹_›⟩
    · cases hmalformed
  · cases List.mem_singleton.mp h
    exact ⟨.sealed .permissionDenied, by decide, trivial⟩

theorem loadFiles_of_reversed_listing :
    sampleDisk.Sound ∧ MainSettings Program.tomlReader sampleDisk "main.toml" [] ∧
    (∀ d ∈ ["conf.d", "missing"],
      Readable Program.tomlReader sampleDisk d ∧ Searchable sampleDisk d) ∧
    (∃ files : String → List Path, (∀ d ∈ ["conf.d", "missing"], DropIns sampleDisk d (files d)) ∧
      (loadFiles Program.tomlReader sampleDisk (fun names => (sampleDisk.below names).reverse)
          "main.toml" ["conf.d", "missing"]).result =
        .ok ((["conf.d", "missing"].flatMap fun d =>
          (files d).filterMap (loaded? Program.tomlReader sampleDisk)).foldl merge [])) ∧
    let rest := sampleDisk.without brokenSamples.contains
    (loadFiles Program.tomlReader rest rest.below "main.toml" ["conf.d", "missing"]).result =
      (loadFiles Program.tomlReader sampleDisk (fun names => (sampleDisk.below names).reverse)
        "main.toml" ["conf.d", "missing"]).result :=
  have h := (loadFiles_of_any_listing sampleDisk_sound (fun _ => List.reverse_perm _)
    (mainSettings_sampleDisk _) fun d _ => readable_sampleDisk d).1 searchable_sampleDisk
  ⟨sampleDisk_sound, mainSettings_sampleDisk _,
    fun d hd => ⟨readable_sampleDisk d, searchable_sampleDisk d hd⟩, h.1,
    h.2 _ _ passedOver_sampleDisk fun _ => .refl _⟩

def overlongName : String := String.ofList (List.replicate 256 'a')

theorem exists?_overlongName (disk : Disk) : disk.exists? (Path.ofText overlongName).text =
    .error (Disk.fault overlongName .nameTooLong) := by
  have hchars : overlongName.toList = List.replicate 256 'a' := String.toList_ofList
  have hcount : Disk.octetCount overlongName = 256 := by
    rw [Disk.octetCount, hchars]
    decide +kernel
  have hpart : IsPart overlongName := by
    refine ⟨fun h => ?_, fun h => ?_, ?_⟩
    · rw [h] at hcount
      exact absurd hcount (by decide)
    · rw [h] at hcount
      exact absurd hcount (by decide)
    · rw [hchars]
      decide
  apply Disk.exists?_long_name disk hpart
  · rw [hchars]
    decide
  · rw [hcount]
    decide

/-- Nothing stands at a name of 256 characters, and yet it is not passed over as missing. -/
theorem loadFiles_overlong_missing :
    sampleDisk.get? (sampleDisk.here ++ [overlongName]) = none ∧
    ∀ reader, (loadFiles reader sampleDisk sampleDisk.below "main.toml" [overlongName]).result =
      .error (.file (Disk.fault overlongName .nameTooLong)) := by
  refine ⟨by decide +kernel, fun reader => ?_⟩
  rw [result_loadFiles_of_main (mainSettings_sampleDisk reader), readDirectories,
    result_dropIns_error (exists?_overlongName sampleDisk)]
  rfl

end TexHtml.Settings
