import TexHtml.Proofs.DropIns

namespace TexHtml.Settings

section Faults

variable {reader : Reader} {disk : Disk} {listing : Listing}

theorem exists_of_readFiles_error {files : List Path} {f : Fault}
    (h : readFiles reader disk files = .error f) :
    ∃ p ∈ files, readContent reader disk p = .unreadable f := by
  induction files with
  | nil => cases h
  | cons p files ih =>
    unfold readFiles at h
    cases hcontent : readContent reader disk p with
    | unreadable g =>
      rw [hcontent] at h
      cases h
      exact ⟨p, List.mem_cons_self, hcontent⟩
    | refused reason =>
      rw [hcontent] at h
      obtain ⟨q, hq, hfault⟩ := ih h
      exact ⟨q, List.mem_cons_of_mem p hq, hfault⟩
    | loaded entries =>
      rw [hcontent] at h
      cases hrest : readFiles reader disk files with
      | ok layers =>
        rw [hrest] at h
        cases h
      | error g =>
        rw [hrest] at h
        cases h
        obtain ⟨q, hq, hfault⟩ := ih hrest
        exact ⟨q, List.mem_cons_of_mem p hq, hfault⟩

theorem readContent_of_readFiles {files : List Path} {layers : List Entries}
    (h : readFiles reader disk files = .ok layers) {p : Path} (hp : p ∈ files) (f : Fault) :
    readContent reader disk p ≠ .unreadable f := by
  induction files generalizing layers with
  | nil => cases hp
  | cons q files ih =>
    unfold readFiles at h
    cases hcontent : readContent reader disk q with
    | unreadable g =>
      rw [hcontent] at h
      cases h
    | refused reason =>
      rw [hcontent] at h
      rcases List.mem_cons.mp hp with rfl | hp
      · rw [hcontent]
        exact Content.noConfusion
      · exact ih h hp
    | loaded entries =>
      rw [hcontent] at h
      rcases List.mem_cons.mp hp with rfl | hp
      · rw [hcontent]
        exact Content.noConfusion
      · cases hrest : readFiles reader disk files with
        | error g =>
          rw [hrest] at h
          cases h
        | ok more => exact ih hrest hp

theorem readDirectories_cons_cases (reader : Reader) (disk : Disk) (listing : Listing)
    (directory : String) (rest : List String) :
    (∃ f, (dropIns disk listing directory).result = .error f ∧
      readDirectories reader disk listing (directory :: rest) = .error f) ∨
    ∃ files, (dropIns disk listing directory).result = .ok files ∧
      ((∃ f, readFiles reader disk files = .error f ∧
          readDirectories reader disk listing (directory :: rest) = .error f) ∨
        ∃ layers, readFiles reader disk files = .ok layers ∧
          readDirectories reader disk listing (directory :: rest) =
            (readDirectories reader disk listing rest).map (layers ++ ·)) := by
  rw [readDirectories]
  cases hfiles : (dropIns disk listing directory).result with
  | error f => exact .inl ⟨f, rfl, rfl⟩
  | ok files =>
    refine .inr ⟨files, rfl, ?_⟩
    cases hread : readFiles reader disk files with
    | error f =>
      refine .inl ⟨f, rfl, ?_⟩
      change ((readFiles reader disk files).bind fun layers => _) = _
      rw [hread]
      rfl
    | ok layers =>
      refine .inr ⟨layers, rfl, ?_⟩
      change ((readFiles reader disk files).bind fun layers => _) = _
      rw [hread]
      change ((readDirectories reader disk listing rest).bind fun more => .ok (layers ++ more)) = _
      cases readDirectories reader disk listing rest <;> rfl

variable (hdisk : disk.Sound) (hlisting : ∀ names, (listing names).Perm (disk.below names))

include hdisk hlisting

theorem dropIns_of_result {directory : String} {files : List Path}
    (h : (dropIns disk listing directory).result = .ok files) :
    Searchable disk directory ∧ DropIns disk directory files := by
  by_cases hsearch : Searchable disk directory
  · obtain ⟨found, hfound, hdropIns⟩ := dropIns_of_listing hdisk hlisting hsearch
    rw [h] at hfound
    cases hfound
    exact ⟨hsearch, hdropIns⟩
  · obtain ⟨place, kind, -, hplace⟩ := dropIns_unsearchable hlisting hsearch
    rw [h] at hplace
    cases hplace

theorem fault_of_readDirectories {directories : List String} {f : Fault}
    (h : readDirectories reader disk listing directories = .error f) :
    (∃ place, ∃ kind ∈ Disk.lookupFaults, f = .file (Disk.fault place kind)) ∨
      ∃ d ∈ directories, ∃ rel octets, StandsBelow disk d rel (.file octets) ∧
        Content.ofOctets reader octets = .unreadable f := by
  induction directories with
  | nil => cases h
  | cons directory rest ih =>
    rcases readDirectories_cons_cases reader disk listing directory rest with
      ⟨g, hfiles, hresult⟩ | ⟨files, hfiles, ⟨g, hread, hresult⟩ | ⟨layers, hread, hresult⟩⟩
    · rw [h] at hresult
      cases hresult
      by_cases hsearch : Searchable disk directory
      · obtain ⟨found, hfound, -⟩ := dropIns_of_listing hdisk hlisting hsearch
        rw [hfiles] at hfound
        cases hfound
      · obtain ⟨place, kind, hkind, hplace⟩ := dropIns_unsearchable hlisting hsearch
        rw [hfiles] at hplace
        exact .inl ⟨place, kind, hkind, Except.error.inj hplace⟩
    · rw [h] at hresult
      cases hresult
      obtain ⟨hsearch, hdropIns⟩ := dropIns_of_result hdisk hlisting hfiles
      obtain ⟨p, hp, hcontent⟩ := exists_of_readFiles_error hread
      obtain ⟨rel, file, hbelow, rfl⟩ := (hdropIns.mem_iff p).mp hp
      obtain ⟨octets, rfl, hunreadable⟩ := (readContent_below hdisk hsearch hbelow).mp hcontent
      exact .inr ⟨directory, List.mem_cons_self, rel, octets, hbelow, hunreadable⟩
    · cases hrest : readDirectories reader disk listing rest with
      | ok more =>
        rw [h, hrest] at hresult
        cases hresult
      | error g =>
        rw [h, hrest] at hresult
        cases hresult
        refine (ih hrest).imp_right ?_
        rintro ⟨d, hd, hfile⟩
        exact ⟨d, List.mem_cons_of_mem directory hd, hfile⟩

theorem readable_of_readDirectories {directories : List String} {layers : List Entries}
    (h : readDirectories reader disk listing directories = .ok layers) :
    ∀ d ∈ directories, Searchable disk d ∧ Readable reader disk d := by
  induction directories generalizing layers with
  | nil => exact List.forall_mem_nil _
  | cons directory rest ih =>
    rcases readDirectories_cons_cases reader disk listing directory rest with
      ⟨f, -, hresult⟩ | ⟨files, hfiles, ⟨f, -, hresult⟩ | ⟨first, hread, hresult⟩⟩
    · rw [h] at hresult
      cases hresult
    · rw [h] at hresult
      cases hresult
    · obtain ⟨hsearch, hdropIns⟩ := dropIns_of_result hdisk hlisting hfiles
      have hreadable : Readable reader disk directory := by
        intro rel octets hbelow
        rw [isLegible_iff]
        intro f hf
        have hmem := (hdropIns.mem_iff _).mpr ⟨rel, _, hbelow, rfl⟩
        apply readContent_of_readFiles hread hmem f
        exact (readContent_below hdisk hsearch hbelow).mpr ⟨octets, rfl, hf⟩
      cases hrest : readDirectories reader disk listing rest with
      | error f =>
        rw [h, hrest] at hresult
        cases hresult
      | ok more => exact List.forall_mem_cons.mpr ⟨⟨hsearch, hreadable⟩, ih hrest⟩

end Faults

theorem without_none (disk : Disk) : disk.without (fun _ => false) = disk := by
  rw [Disk.without]
  simp

theorem exists_dropIns {disk : Disk} (hdisk : disk.Sound) {directories : List String}
    (hsearch : ∀ d ∈ directories, Searchable disk d) :
    ∃ files : String → List Path, ∀ d ∈ directories, DropIns disk d (files d) := by
  have hfound (d : String) : ∃ files, d ∈ directories → DropIns disk d files := by
    by_cases hd : d ∈ directories
    · obtain ⟨files, -, hfiles⟩ := dropIns_of_listing hdisk (fun _ => .refl _) (hsearch d hd)
      exact ⟨files, fun _ => hfiles⟩
    · exact ⟨[], fun h => absurd h hd⟩
  exact Classical.skolem.mp hfound

/-- Loading succeeds exactly if all paths can be looked up and every drop-in file that can be opened
is legible, and what ends it is such a path, octets that are no text, or a fault of the reader. Of a
reader without faults all texts are legible. As soon as what is left is legible, files that fail for
any reason leave no trace. -/
theorem loadFiles_stops_iff {reader : Reader} {disk : Disk} (hdisk : disk.Sound)
    {listing : Listing} (hlisting : ∀ names, (listing names).Perm (disk.below names))
    {path : String} {main : Entries} (hmain : MainSettings reader disk path main)
    (directories : List String) :
    ((∃ settings, (loadFiles reader disk listing path directories).result = .ok settings) ↔
      ∀ d ∈ directories, Searchable disk d ∧
        ∀ rel octets, StandsBelow disk d rel (.file octets) → IsLegible reader octets) ∧
    (∀ f, (loadFiles reader disk listing path directories).result = .error f →
      (∃ place, ∃ kind ∈ Disk.lookupFaults, f = .file (Disk.fault place kind)) ∨
        ∃ d ∈ directories, ∃ rel octets, StandsBelow disk d rel (.file octets) ∧
          ((∃ e, Text.Utf8.decode octets = .error e ∧ f = .codec e) ∨
            ∃ text, octets = Text.Utf8.encode text ∧
              reader (String.ofList text) = .error (.fault f))) ∧
    ((∀ text f, reader text ≠ .error (.fault f)) →
      ∀ octets, IsLegible reader octets ↔ ∃ text, octets = Text.Utf8.encode text) ∧
    ((∀ d ∈ directories, Searchable disk d) →
      ∃ files : String → List Path, (∀ d ∈ directories, DropIns disk d (files d)) ∧
        ((∀ d ∈ directories, Readable reader disk d) →
          (loadFiles reader disk listing path directories).result =
            .ok ((directories.flatMap fun d =>
              (files d).filterMap (loaded? reader disk)).foldl merge main)) ∧
        ∀ (removed : List String → Bool) (relisting : Listing),
          (∀ names, removed names → ∃ file, disk.get? names = some file ∧ Fails reader file) →
          (∀ d ∈ directories, Readable reader (disk.without removed) d) →
          (∀ names, (relisting names).Perm ((disk.without removed).below names)) →
          (loadFiles reader (disk.without removed) relisting path directories).result =
            .ok ((directories.flatMap fun d =>
              (files d).filterMap (loaded? reader disk)).foldl merge main)) := by
  rw [result_loadFiles_of_main hmain]
  refine ⟨⟨?_, ?_⟩, ?_, ?_, ?_⟩
  · rintro ⟨settings, hsettings⟩
    cases hlayers : readDirectories reader disk listing directories with
    | error f =>
      rw [hlayers] at hsettings
      cases hsettings
    | ok layers => exact readable_of_readDirectories hdisk hlisting hlayers
  · intro h
    obtain ⟨files, -, hlayers⟩ := readDirectories_eq hdisk hlisting (fun d hd => (h d hd).1)
      fun d hd => (h d hd).2
    rw [hlayers]
    exact ⟨_, rfl⟩
  · intro f hf
    cases hlayers : readDirectories reader disk listing directories with
    | ok layers =>
      rw [hlayers] at hf
      cases hf
    | error g =>
      rw [hlayers] at hf
      cases hf
      refine (fault_of_readDirectories hdisk hlisting hlayers).imp_right ?_
      rintro ⟨d, hd, rel, octets, hbelow, hcontent⟩
      exact ⟨d, hd, rel, octets, hbelow, ofOctets_eq_unreadable_iff.mp hcontent⟩
  · intro hreader octets
    refine ⟨fun ⟨text, htext, _⟩ => ⟨text, htext⟩, fun ⟨text, htext⟩ => ⟨text, htext, hreader _⟩⟩
  · intro hsearch
    obtain ⟨files, hfiles⟩ := exists_dropIns hdisk hsearch
    refine ⟨files, hfiles, fun hreadable => ?_,
      fun removed relisting hremoved hreadable hrelisting => ?_⟩
    · -- nothing has to be removed from a disk on which all is legible
      have hnone (names : List String) (h : false = true) :
          ∃ file, disk.get? names = some file ∧ Fails reader file := Bool.noConfusion h
      have hwhole := readDirectories_without hdisk hnone (by rwa [without_none]) hsearch
        (by rwa [without_none]) hfiles
      rw [without_none] at hwhole
      rw [hwhole]
      rfl
    · rw [result_loadFiles_of_main (mainSettings_without hremoved hmain),
        readDirectories_without hdisk hremoved hrelisting hsearch hreadable hfiles]
      rfl

/-- The line `a = "é"` in an encoding where an accent is one octet. -/
def latinOctets : List UInt8 := [0x61, 0x20, 0x3D, 0x20, 0x22, 0xE9, 0x22]

def latinDisk : Disk where
  here := ["home"]
  entries :=
    [(["home"], .directory),
     (["home", "conf.d"], .directory),
     (["home", "conf.d", "10-latin.toml"], .file latinOctets),
     (["home", "conf.d", "15-sealed.toml"], .sealed .permissionDenied),
     (["home", "conf.d", "20-good.toml"], .file (Text.Utf8.encode "b = 2\n".toList))]

def latinFile : List String := ["home", "conf.d", "10-latin.toml"]

theorem latinDisk_sound : latinDisk.Sound := by decide

theorem mainSettings_latinDisk (reader : Reader) :
    MainSettings reader latinDisk "config.toml" [] := .inl ⟨by decide, rfl⟩

theorem find_latinDisk : latinDisk.find (Path.ofText "conf.d").text =
    .ok (["home", "conf.d"], .directory) := by decide

theorem searchable_latinDisk : Searchable latinDisk "conf.d" :=
  searchable_of_directory find_latinDisk (by decide)

def latinMessage : String :=
  "'utf-8' codec can't decode byte 0xe9 in position 5: invalid continuation byte"

def decodingMessage? (octets : List UInt8) : Option String :=
  match Text.Utf8.decode octets with
  | .error e => some e.message
  | .ok _ => none

theorem contents_latinDisk : decodingMessage? latinOctets = some latinMessage ∧
    ∀ e ∈ (latinDisk.without (· == latinFile)).entries,
      isUnreadable Program.tomlReader e.2 = false := by decide +kernel

theorem exists_decode_latin :
    ∃ e, Text.Utf8.decode latinOctets = .error e ∧ e.message = latinMessage := by
  have hmessage := contents_latinDisk.1
  rw [decodingMessage?] at hmessage
  split at hmessage
  · exact ⟨_, ‹_›, Option.some.inj hmessage⟩
  · cases hmessage

theorem standsBelow_latinDisk :
    StandsBelow latinDisk "conf.d" ["10-latin.toml"] (.file latinOctets) :=
  ⟨["home", "conf.d"], find_latinDisk, by decide, rfl, by decide⟩

theorem not_isLegible_latin (reader : Reader) : ¬ IsLegible reader latinOctets := by
  obtain ⟨e, he, -⟩ := exists_decode_latin
  intro hlegible
  exact isLegible_iff.mp hlegible (.codec e) (ofOctets_eq_unreadable_iff.mpr (.inl ⟨e, he, rfl⟩))

theorem loadFiles_stops_iff_latin :
    latinDisk.Sound ∧ MainSettings Program.tomlReader latinDisk "config.toml" [] ∧
    Searchable latinDisk "conf.d" ∧
    (¬ ∃ settings, (loadFiles Program.tomlReader latinDisk latinDisk.below "config.toml"
      ["conf.d"]).result = .ok settings) ∧
    let rest := latinDisk.without (· == latinFile)
    ∃ files, DropIns latinDisk "conf.d" files ∧
      (loadFiles Program.tomlReader rest rest.below "config.toml" ["conf.d"]).result =
        .ok ((files.filterMap (loaded? Program.tomlReader latinDisk)).foldl merge []) := by
  have hmain := mainSettings_latinDisk Program.tomlReader
  obtain ⟨hiff, -, -, hskip⟩ := loadFiles_stops_iff latinDisk_sound (fun _ => .refl _) hmain
    ["conf.d"]
  refine ⟨latinDisk_sound, hmain, searchable_latinDisk, fun hok => ?_, ?_⟩
  · have hlegible := (hiff.mp hok "conf.d" List.mem_cons_self).2 _ _ standsBelow_latinDisk
    exact not_isLegible_latin _ hlegible
  obtain ⟨files, hfiles, -, hrest⟩ := hskip (by simpa using searchable_latinDisk)
  have hremoved (names : List String) (hnames : names == latinFile) :
      ∃ file, latinDisk.get? names = some file ∧ Fails Program.tomlReader file := by
    refine ⟨.file latinOctets, by rw [eq_of_beq hnames]; decide, fun entries hloaded => ?_⟩
    refine not_isLegible_latin Program.tomlReader (isLegible_iff.mpr fun f hf => ?_)
    rw [hloaded] at hf
    cases hf
  have hloaded := hrest _ _ hremoved (fun d _ => readable_of_entries contents_latinDisk.2 d)
    fun _ => .refl _
  refine ⟨files "conf.d", hfiles "conf.d" List.mem_cons_self, ?_⟩
  rw [hloaded, List.flatMap_singleton]

theorem dropIns_latinDisk : (dropIns latinDisk latinDisk.below "conf.d").result =
    .ok [⟨"", ["conf.d", "10-latin.toml"]⟩, ⟨"", ["conf.d", "15-sealed.toml"]⟩,
      ⟨"", ["conf.d", "20-good.toml"]⟩] := by
  have hpaths : ((latinDisk.below ["home", "conf.d"]).filter isDropIn).map
      ((Path.ofText "conf.d").child ·.1) =
        [⟨"", ["conf.d", "10-latin.toml"]⟩, ⟨"", ["conf.d", "15-sealed.toml"]⟩,
          ⟨"", ["conf.d", "20-good.toml"]⟩] := by decide
  rw [result_dropIns_directory find_latinDisk,
    result_collect (searchable_latinDisk.inside _ find_latinDisk), hpaths]
  exact congrArg Except.ok (List.mergeSort_of_pairwise (by decide))

/-- Whatever the reader is, the file in another encoding ends the loading, although there is nothing
wrong with the last one. -/
theorem loadFiles_latin_stopped :
    latinDisk.Sound ∧ Searchable latinDisk "conf.d" ∧
    ∀ reader, MainSettings reader latinDisk "config.toml" [] ∧
      ∃ e, (loadFiles reader latinDisk latinDisk.below "config.toml" ["conf.d"]).result =
        .error (.codec e) ∧ e.message = latinMessage := by
  refine ⟨latinDisk_sound, searchable_latinDisk, fun reader => ⟨mainSettings_latinDisk reader, ?_⟩⟩
  obtain ⟨e, he, hmessage⟩ := exists_decode_latin
  refine ⟨e, ?_, hmessage⟩
  have hfind : latinDisk.find (Path.text ⟨"", ["conf.d", "10-latin.toml"]⟩) =
      .ok (latinFile, .file latinOctets) := by decide
  have hcontent : readContent reader latinDisk ⟨"", ["conf.d", "10-latin.toml"]⟩ =
      .unreadable (.codec e) := by
    rw [readContent_of_find hfind]
    exact ofOctets_eq_unreadable_iff.mpr (.inl ⟨e, he, rfl⟩)
  rw [result_loadFiles_of_main (mainSettings_latinDisk reader), readDirectories, dropIns_latinDisk]
  change Except.map _ ((readFiles reader latinDisk _).bind fun _ => _) = _
  unfold readFiles
  rw [hcontent]
  rfl

end TexHtml.Settings
