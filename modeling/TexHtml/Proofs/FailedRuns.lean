import TexHtml.Program.Basic
import TexHtml.Proofs.FileWrites

/-!
What a run that fails leaves behind. Up to the point where the output is written, all that changes
on the disk are the files of the journal. The output is opened before the text is encoded, so a text
that cannot be encoded leaves it empty; after any other failure it is as it was.
-/

namespace TexHtml

namespace Journal

def handlers (j : Journal) : List Handler := j.loggers.flatMap fun p => p.2.handlers

def LogPlace (j : Journal) (names : List String) : Prop :=
  ∃ h ∈ j.handlers, ∃ path rotating, h.sink = .file path rotating ∧ j.disk.place? path = some names

structure Extends (j j' : Journal) : Prop where
  loggers : j'.loggers = j.loggers
  disk : Disk.SameExcept j.LogPlace j.disk j'.disk

def Apart (j : Journal) (path : String) : Prop :=
  ∀ names, j.disk.place? path = some names → ¬ j.LogPlace names

section SameLoggers

variable {j j' : Journal} {places : List String → Prop} (hloggers : j'.loggers = j.loggers)
  (hdisk : Disk.SameExcept places j.disk j'.disk)

include hloggers hdisk

theorem logPlace_eq : j'.LogPlace = j.LogPlace := by
  funext names
  simp only [LogPlace, handlers, hloggers, hdisk.place?]

theorem Apart.of_same {path : String} (h : j.Apart path) : j'.Apart path := by
  intro names hnames
  rw [hdisk.place?] at hnames
  rw [logPlace_eq hloggers hdisk]
  exact h names hnames

end SameLoggers

def onDisk (j : Journal) (disk : Disk) : Journal := { j with disk }

theorem Apart.onDisk {j : Journal} {path : String} (h : j.Apart path) {disk : Disk}
    {places : List String → Prop} (hdisk : Disk.SameExcept places j.disk disk) :
    (j.onDisk disk).Apart path :=
  @Apart.of_same j (j.onDisk disk) places rfl hdisk path h

namespace Extends

variable {j j' j'' : Journal}

theorem refl (j : Journal) : j.Extends j := ⟨rfl, .refl _ _⟩

theorem trans (h : j.Extends j') (h' : j'.Extends j'') : j.Extends j'' :=
  ⟨h'.loggers.trans h.loggers, h.disk.trans (logPlace_eq h.loggers h.disk ▸ h'.disk)⟩

theorem find (h : j.Extends j') {path : String} (hpath : j.Apart path) :
    (j'.disk.find path).toOption = (j.disk.find path).toOption := h.disk.find hpath

end Extends

theorem extends_handle {j : Journal} {h : Handler} (hh : h ∈ j.handlers) (r : Record) :
    j.Extends (j.handle r h) := by
  rw [handle]
  split
  · exact .refl j
  split
  · exact .refl j
  split
  · exact ⟨rfl, .refl _ _⟩
  rename_i path rotating hsink
  split
  · rename_i disk happend
    refine ⟨rfl, ?_⟩
    cases hplace : j.disk.locateForWriting path with
    | error e => rw [Disk.append, hplace] at happend; cases happend
    | ok place =>
      rw [Disk.append_eq hplace] at happend
      cases happend
      apply (Disk.sameExcept_put hplace _).mono
      rintro _ rfl
      exact ⟨h, hh, path, rotating, hsink, Disk.place?_of_writing hplace⟩
  · exact .refl j

theorem handlers_get {j : Journal} {name : String} {h : Handler} (hh : h ∈ (j.get name).handlers) :
    h ∈ j.handlers := by
  rw [get] at hh
  cases hlookup : j.loggers.lookup name with
  | none => simp [hlookup] at hh
  | some logger =>
    rw [hlookup] at hh
    obtain ⟨before, behind, hloggers, -⟩ := List.lookup_eq_some_iff.mp hlookup
    rw [handlers, List.mem_flatMap]
    exact ⟨(name, logger), by simp [hloggers], hh⟩

-- Each handler leaves the loggers alone, so the handlers still to come are those of the journal.
theorem extends_handleAll {j : Journal} (r : Record) {hs : List Handler}
    (hhs : ∀ h ∈ hs, h ∈ j.handlers) : j.Extends (hs.foldl (fun j h => j.handle r h) j) := by
  induction hs generalizing j with
  | nil => exact .refl j
  | cons h hs ih =>
    have hstep := extends_handle (hhs h List.mem_cons_self) r
    refine hstep.trans (ih fun h' hh' => ?_)
    rw [handlers, hstep.loggers]
    exact hhs h' (List.mem_cons_of_mem h hh')

theorem extends_log (j : Journal) (r : Record) : j.Extends (j.log r) := by
  rw [log]
  split
  · exact .refl j
  split
  · split
    · exact ⟨rfl, .refl _ _⟩
    · exact .refl j
  · apply extends_handleAll r
    intro h hh
    obtain ⟨logger, hlogger, hmem⟩ := List.mem_flatMap.mp hh
    obtain ⟨name, -, rfl⟩ := List.mem_map.mp hlogger
    exact handlers_get hmem

end Journal

namespace TextFile

variable {codecs : Text.Codecs} {disk : Disk} {path : String} {encoding : Value}

theorem exists_codec_of_read {text : String} (h : read codecs disk path encoding = .ok text) :
    ∃ name codec, encodingName encoding = .ok name ∧ codecs name = .ok codec := by
  rw [read] at h
  cases hname : encodingName encoding with
  | error e => rw [hname] at h; cases h
  | ok name =>
    rw [hname] at h
    cases hoctets : disk.read path with
    | error e => rw [hoctets] at h; cases h
    | ok octets =>
      rw [hoctets] at h
      dsimp only [Except.mapError, bind, Except.bind] at h
      cases hcodec : codecs name with
      | error e => rw [hcodec] at h; cases h
      | ok codec => exact ⟨name, codec, rfl, hcodec⟩

section Known

variable {name : String} {codec : Text.Codec} (hname : encodingName encoding = .ok name)
  (hcodec : codecs name = .ok codec) (text : String)

include hname

theorem write_of_unopened {e : FileError} (h : disk.locateForWriting path = .error e) :
    write codecs disk path encoding text = (disk, .error (.file e)) := by
  simp only [write, hname, Disk.write, h, Except.map]

include hcodec

theorem write_of_unencodable {place : List String} {old : List UInt8} {e : CodecError}
    (h : disk.locateForWriting path = .ok (place, old)) (he : codec.encode text.toList = .error e) :
    write codecs disk path encoding text = (disk.put place (.file []), .error (.codec e)) := by
  simp only [write, hname, Disk.write_eq h, hcodec, he]

theorem write_of_encoded {place : List String} {old octets : List UInt8}
    (h : disk.locateForWriting path = .ok (place, old))
    (ho : codec.encode text.toList = .ok octets) :
    write codecs disk path encoding text =
      ((disk.put place (.file [])).put place (.file octets), .ok ()) := by
  simp only [write, hname, Disk.write_eq h, hcodec, ho,
    Disk.write_eq (Disk.locateForWriting_put h [])]

end Known

end TextFile

namespace Program

namespace Run

variable {α β : Type} {x : Run α} {f : α → Run β} {s s' : Session}

theorem on_bind_ok {a : α} (h : x.on s = (.ok a, s')) : (x >>= f).on s = (f a).on s' := by
  change ExceptT.bindCont f (x.on s).1 (x.on s).2 = _
  rw [h]
  rfl

theorem on_bind_error {e : Fault} (h : x.on s = (.error e, s')) :
    (x >>= f).on s = (.error e, s') := by
  change ExceptT.bindCont f (x.on s).1 (x.on s).2 = _
  rw [h]
  rfl

theorem of_on_bind {b : β} (h : (x >>= f).on s = (.ok b, s')) :
    ∃ a s₁, x.on s = (.ok a, s₁) ∧ (f a).on s₁ = (.ok b, s') := by
  rcases hx : x.on s with ⟨r, s₁⟩
  cases r with
  | error e => rw [on_bind_error hx] at h; cases h
  | ok a => exact ⟨a, s₁, rfl, on_bind_ok hx ▸ h⟩

def Harmless (x : Run α) : Prop := ∀ s : Session, s.journal.Extends (x.on s).2.journal

namespace Harmless

theorem bind (hx : Harmless x) (hf : ∀ a, Harmless (f a)) : Harmless (x >>= f) := by
  intro s
  have hs := hx s
  rcases h : x.on s with ⟨r, s₁⟩
  rw [h] at hs
  cases r with
  | error e =>
    rw [on_bind_error h]
    exact hs
  | ok a =>
    rw [on_bind_ok h]
    exact hs.trans (hf a s₁)

theorem pure (a : α) : Harmless (Pure.pure a : Run α) := fun s => .refl s.journal

theorem throw (e : Fault) : Harmless (throw e : Run α) := fun s => .refl s.journal

theorem get : Harmless (MonadState.get : Run Session) := fun s => .refl s.journal

theorem lift (r : Except Fault α) : Harmless (Run.lift r) := by
  cases r with
  | ok a => exact .pure a
  | error e => exact .throw e

theorem say (text : String) : Harmless (Run.say text) := fun s => .refl s.journal

theorem complain (line : String) : Harmless (Run.complain line) := fun _ => ⟨rfl, .refl _ _⟩

theorem log (level : Level) (message : String) : Harmless (Run.log level message) :=
  fun s => s.journal.extends_log _

theorem forM {γ : Type} (l : List γ) {g : γ → Run Unit} (hg : ∀ c, Harmless (g c)) :
    Harmless (l.forM g) := by
  induction l with
  | nil => exact .pure ()
  | cons c l ih => exact .bind (hg c) fun _ => ih

theorem failed (logged shown : String) : Harmless (Program.failed logged shown) :=
  .bind (.log _ _) fun _ => .bind (.complain _) fun _ => .pure 1

theorem pretty (v : Value) : Harmless (Program.pretty v) := .lift _

end Harmless

end Run

open Run

theorem harmless_compiled (c : Compiler) (r : CommandLine.Request) (source : String) :
    Harmless (compiled c r source) := by
  rw [compiled]
  split
  · split
    · exact .bind (.pretty _) fun _ => .pure _
    · exact .pure _
    · exact .throw _
  · split
    · exact .pure _
    · exact .pure _
    · exact .throw _

theorem harmless_process (p : Plan) (r : CommandLine.Request) (input source : String) :
    Harmless (process p r input source) := by
  refine .bind (.lift _) fun c => ?_
  split
  · exact .bind (.lift _) fun report => .bind (.pretty _) fun text =>
      .bind (.say _) fun _ => .pure _
  · refine .bind (harmless_compiled c r source) fun result => ?_
    obtain ⟨result, c'⟩ := result
    cases result with
    | error e => exact .bind (.failed _ _) fun code => .pure _
    | ok text => exact .bind (.forM _ fun name => .log _ _) fun _ => .pure _

theorem failed_on_fst (logged shown : String) (s : Session) :
    ((failed logged shown).on s).1 = .ok 1 := rfl

section Delivery

variable (codecs : Text.Codecs) (p : Plan) (r : CommandLine.Request)

theorem harmless_prepare : Harmless (prepare codecs p r) := by
  refine .bind (.lift _) fun encoding => .bind (.log _ _) fun _ => .bind .get fun s => ?_
  split
  · split
    · exact .bind (.failed _ _) fun code => .pure _
    · exact .throw _
  · exact harmless_process p r _ _

-- Had the encoding been unknown, there would be no source, and no text to deliver.
theorem exists_codec_of_prepare {s s' : Session} {text : String}
    (h : (prepare codecs p r).on s = (.ok (.ok text), s')) :
    ∃ name codec, TextFile.encodingName p.encoding = .ok name ∧ codecs name = .ok codec := by
  obtain ⟨encoding, s₁, -, h⟩ := of_on_bind h
  obtain ⟨_, s₂, -, h⟩ := of_on_bind h
  obtain ⟨s₃, _, -, h⟩ := of_on_bind h
  split at h
  · split at h
    · obtain ⟨code, s₄, -, h⟩ := of_on_bind h
      cases h
    · cases h
  · rename_i source hread
    exact TextFile.exists_codec_of_read hread

variable {codecs p} {s : Session} {path text : String} {disk : Disk}

theorem deliver_of_written
    (h : TextFile.write codecs s.journal.disk path p.encoding text = (disk, .ok ())) :
    ((deliver codecs p (some path) text).on s).1 = .ok 0 := by
  have hget : (get : Run Session).on s = (.ok s, s) := rfl
  rw [deliver, on_bind_ok hget]
  dsimp only
  rw [h]
  rfl

theorem deliver_of_unwritten {e : Fault}
    (h : TextFile.write codecs s.journal.disk path p.encoding text = (disk, .error e)) :
    ((deliver codecs p (some path) text).on s).1 ≠ .ok 0 ∧
      (s.journal.onDisk disk).Extends ((deliver codecs p (some path) text).on s).2.journal := by
  have hget : (get : Run Session).on s = (.ok s, s) := rfl
  have hset (s' : Session) : (set s' : Run PUnit).on s = (.ok (), s') := rfl
  rw [deliver, on_bind_ok hget]
  dsimp only
  rw [h]
  dsimp only
  rw [on_bind_ok (hset _)]
  split
  · refine ⟨?_, Harmless.failed _ _ { s with journal := s.journal.onDisk disk }⟩
    rw [failed_on_fst]
    simp
  · exact ⟨nofun, .refl _⟩

section Known

variable {name : String} {codec : Text.Codec} (hname : TextFile.encodingName p.encoding = .ok name)
  (hcodec : codecs name = .ok codec)

include hname hcodec

theorem deliver_of_unencodable {place : List String} {old : List UInt8} {e : CodecError}
    (hplace : s.journal.disk.locateForWriting path = .ok (place, old))
    (he : codec.encode text.toList = .error e) (hpath : s.journal.Apart path) :
    ((deliver codecs p (some path) text).on s).1 ≠ .ok 0 ∧
      ((deliver codecs p (some path) text).on s).2.journal.disk.find path =
        .ok (place, .file []) := by
  obtain ⟨hresult, hextends⟩ :=
    deliver_of_unwritten (TextFile.write_of_unencodable hname hcodec text hplace he)
  refine ⟨hresult, ?_⟩
  have hempty := hextends.find (hpath.onDisk (Disk.sameExcept_put hplace []))
  rw [Journal.onDisk, Disk.find_put hplace] at hempty
  revert hempty
  cases Disk.find _ path with
  | error e => intro hempty; cases hempty
  | ok found => intro hempty; cases hempty; rfl

theorem deliver_of_encodable (hfail : ((deliver codecs p (some path) text).on s).1 ≠ .ok 0)
    (hencode : ∀ e place, codec.encode text.toList = .error e →
      s.journal.disk.locateForWriting path ≠ .ok place) :
    s.journal.Extends ((deliver codecs p (some path) text).on s).2.journal := by
  cases hplace : s.journal.disk.locateForWriting path with
  | error e => exact (deliver_of_unwritten (TextFile.write_of_unopened hname text hplace)).2
  | ok place =>
    cases hoctets : codec.encode text.toList with
    | error e => exact absurd hplace (hencode e place hoctets)
    | ok octets =>
      exact absurd (deliver_of_written (TextFile.write_of_encoded hname hcodec text hplace hoctets))
        hfail

end Known

/-- The output can be opened, but the text that is to be written cannot be encoded. -/
def Unencodable (codecs : Text.Codecs) (p : Plan) (r : CommandLine.Request) (output : String)
    (s : Session) : Prop :=
  ∃ text s₁ name codec e place, (prepare codecs p r).on s = (.ok (.ok text), s₁) ∧
    TextFile.encodingName p.encoding = .ok name ∧ codecs name = .ok codec ∧
    codec.encode text.toList = .error e ∧ s.journal.disk.locateForWriting output = .ok place

theorem execute_on_text {s₁ : Session} (h : (prepare codecs p r).on s = (.ok (.ok text), s₁)) :
    (execute codecs p r).on s = (deliver codecs p r.output text).on s₁ := on_bind_ok h

theorem execute_of_unencodable {output : String} (hout : r.output = some output)
    (hapart : s.journal.Apart output) (h : Unencodable codecs p r output s) :
    ((execute codecs p r).on s).1 ≠ .ok 0 ∧
      ∃ place, s.journal.disk.place? output = some place ∧
        ((execute codecs p r).on s).2.journal.disk.find output = .ok (place, .file []) := by
  obtain ⟨text, s₁, name, codec, e, ⟨place, old⟩, hprepare, hname, hcodec, he, hplace⟩ := h
  have hs₁ := harmless_prepare codecs p r s
  rw [hprepare] at hs₁
  obtain ⟨old', hplace'⟩ := hs₁.disk.locateForWriting hplace
  rw [execute_on_text r hprepare, hout]
  obtain ⟨hresult, hfind⟩ := deliver_of_unencodable hname hcodec hplace' he
    (hapart.of_same hs₁.loggers hs₁.disk)
  exact ⟨hresult, place, Disk.place?_of_writing hplace, hfind⟩

theorem extends_execute {output : String} (hout : r.output = some output)
    (h : ¬ Unencodable codecs p r output s) (hfail : ((execute codecs p r).on s).1 ≠ .ok 0) :
    s.journal.Extends ((execute codecs p r).on s).2.journal := by
  have hs₁ := harmless_prepare codecs p r s
  rcases hprepare : (prepare codecs p r).on s with ⟨result, s₁⟩
  rw [hprepare] at hs₁
  cases result with
  | error e =>
    rw [execute, on_bind_error hprepare]
    exact hs₁
  | ok result =>
    cases result with
    | error code =>
      rw [execute, on_bind_ok hprepare]
      exact hs₁
    | ok text =>
      obtain ⟨name, codec, hname, hcodec⟩ := exists_codec_of_prepare codecs p r hprepare
      rw [execute_on_text r hprepare, hout] at hfail ⊢
      refine hs₁.trans (deliver_of_encodable hname hcodec hfail ?_)
      intro e place he hplace
      obtain ⟨old, hplace'⟩ := hs₁.disk.symm.locateForWriting hplace
      exact h ⟨text, s₁, name, codec, e, _, hprepare, hname, hcodec, he, hplace'⟩

end Delivery

/-- A run that fails leaves the output as it was, unless it fails because the text cannot be
encoded. Then the output has been opened already, and it is left empty. -/
theorem output_of_failed_run (codecs : Text.Codecs) (p : Plan) (r : CommandLine.Request)
    (s : Session) {output : String} (hout : r.output = some output)
    (hapart : s.journal.Apart output) :
    (Unencodable codecs p r output s → ((execute codecs p r).on s).1 ≠ .ok 0 ∧
      ∃ place, s.journal.disk.place? output = some place ∧
        ((execute codecs p r).on s).2.journal.disk.find output = .ok (place, .file [])) ∧
    (¬ Unencodable codecs p r output s → ((execute codecs p r).on s).1 ≠ .ok 0 →
      (((execute codecs p r).on s).2.journal.disk.find output).toOption =
        (s.journal.disk.find output).toOption) := by
  constructor
  · exact execute_of_unencodable r hout hapart
  · intro hencodable hfail
    exact (extends_execute r hout hencodable hfail).find hapart

def sampleSession (source : String) : Session where
  journal :=
    { loggers := [(rootName, ⟨.warning, [⟨.file "run.log" false, .notSet, "%(message)s"⟩]⟩)]
      stamp := ""
      errorText := ""
      disk := ⟨[(["text.tex"], .file (Text.Utf8.encode source.toList)),
        (["out.html"], .file [0x6F, 0x6C, 0x64])], []⟩ }
  output := ""

def sampleRequest : CommandLine.Request where
  input := some "text.tex"
  output := some "out.html"
  config := ""
  configDirs := none
  ast := false
  validate := false
  noMathScript := false
  printConfig := false

theorem apart_sampleSession (source : String) :
    (sampleSession source).journal.Apart "out.html" := by
  have hlog : (sampleSession source).journal.disk.place? "run.log" = some ["run.log"] := rfl
  have hout : (sampleSession source).journal.disk.place? "out.html" = some ["out.html"] := rfl
  rintro names hnames ⟨h, hh, path, rotating, hsink, hplace⟩
  rw [hout] at hnames
  cases hnames
  cases List.mem_singleton.mp hh
  cases hsink
  rw [hlog] at hplace
  simp at hplace

-- The group is not closed, so the journal grows, and the output stays.
theorem output_of_failed_run_unclosed :
    (sampleSession "\x7b").journal.Apart "out.html" ∧
      ((execute Text.standardCodecs ⟨.str "utf-8", []⟩ sampleRequest).on
        (sampleSession "\x7b")).1.toOption = some 1 ∧
      (((execute Text.standardCodecs ⟨.str "utf-8", []⟩ sampleRequest).on
        (sampleSession "\x7b")).2.journal.disk.find "out.html").toOption =
          some (["out.html"], .file [0x6F, 0x6C, 0x64]) := by
  have hcode : ((execute Text.standardCodecs ⟨.str "utf-8", []⟩ sampleRequest).on
      (sampleSession "\x7b")).1.toOption = some 1 := by decide +kernel
  have hprepare : ((prepare Text.standardCodecs ⟨.str "utf-8", []⟩ sampleRequest).on
      (sampleSession "\x7b")).1.toOption.map Except.toOption = some none := by decide +kernel
  have hapart := apart_sampleSession "\x7b"
  refine ⟨hapart, hcode, ?_⟩
  refine ((output_of_failed_run Text.standardCodecs ⟨.str "utf-8", []⟩ sampleRequest
    (sampleSession "\x7b") rfl hapart).2 ?_ ?_).trans rfl
  · rintro ⟨text, s₁, name, codec, e, place, htext, -⟩
    rw [htext] at hprepare
    simp [Except.toOption] at hprepare
  · intro hzero
    rw [hzero] at hcode
    simp [Except.toOption] at hcode

-- The script has a character that ASCII lacks, and what the output held is lost.
theorem unencodable_output_emptied :
    (sampleSession "plain").journal.Apart "out.html" ∧
      ((sampleSession "plain").journal.disk.read "out.html").toOption = some [0x6F, 0x6C, 0x64] ∧
      ((execute Text.standardCodecs ⟨.str "ascii", [(.str "math_script", .str "é")]⟩
        sampleRequest).on (sampleSession "plain")).1.toOption = some 1 ∧
      (((execute Text.standardCodecs ⟨.str "ascii", [(.str "math_script", .str "é")]⟩
        sampleRequest).on (sampleSession "plain")).2.journal.disk.read "out.html").toOption =
          some [] :=
  ⟨apart_sampleSession "plain", by decide +kernel, by decide +kernel, by decide +kernel⟩

end Program

end TexHtml
