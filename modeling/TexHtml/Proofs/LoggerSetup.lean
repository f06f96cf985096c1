import TexHtml.Proofs.LogFiles
import TexHtml.Proofs.LoggerLevels

namespace TexHtml

def Handler.place (h : Handler) : Sink × String := (h.sink, h.format)

namespace Setup

open Journal

section Outcomes

variable {α β : Type} {x : Setup α} {f : α → Setup β} {j j' i : Journal}

theorem on_bind_ok {a : α} (h : x.on j = (.ok a, i)) : (x >>= f).on j = (f a).on i := by
  change ExceptT.bindCont f (x.on j).1 (x.on j).2 = _
  rw [h]
  rfl

theorem on_bind_error {e : Fault} (h : x.on j = (.error e, i)) : (x >>= f).on j = (.error e, i) := by
  change ExceptT.bindCont f (x.on j).1 (x.on j).2 = _
  rw [h]
  rfl

theorem of_on_bind {b : β} (h : (x >>= f).on j = (.ok b, j')) :
    ∃ a i, x.on j = (.ok a, i) ∧ (f a).on i = (.ok b, j') := by
  rcases hx : x.on j with ⟨r, i⟩
  cases r with
  | error e => rw [on_bind_error hx] at h; cases h
  | ok a => exact ⟨a, i, rfl, on_bind_ok hx ▸ h⟩

theorem of_on_use {r : Except Misuse α} {a : α} (h : (use r).on j = (.ok a, i)) :
    r = .ok a ∧ i = j := by
  cases r with
  | error e => cases h
  | ok b =>
    cases h
    exact ⟨rfl, rfl⟩

theorem of_on_lift {r : Except Fault α} {a : α} (h : (liftM r : Setup α).on j = (.ok a, i)) :
    r = .ok a ∧ i = j := by
  cases r with
  | error e => cases h
  | ok b =>
    cases h
    exact ⟨rfl, rfl⟩

theorem on_use_bind {r : Except Misuse α} {a : α} (h : r = .ok a) :
    (use r >>= f).on j = (f a).on j := by
  rw [h]
  rfl

theorem on_get_bind (f : Journal → Setup β) : (MonadState.get >>= f).on j = (f j).on j := rfl

theorem on_set_bind (f : Unit → Setup β) : ((set i : Setup Unit) >>= f).on j = (f ()).on i := rfl

end Outcomes

def Completes {α : Type} (here : List String) (x : Setup α) : Prop :=
  ∀ j : Journal, j.disk.here = here → ∃ a i, x.on j = (.ok a, i) ∧ i.disk.here = here

namespace Completes

variable {α β : Type} {here : List String} {x : Setup α} {f : α → Setup β}

theorem bind (hx : Completes here x) (hf : ∀ a, Completes here (f a)) : Completes here (x >>= f) := by
  intro j hj
  obtain ⟨a, i, hon, hi⟩ := hx j hj
  rw [on_bind_ok hon]
  exact hf a i hi

theorem pure (here : List String) (a : α) : Completes here (Pure.pure a : Setup α) :=
  fun j hj => ⟨a, j, rfl, hj⟩

theorem get (here : List String) : Completes here (MonadState.get : Setup Journal) :=
  fun j hj => ⟨j, j, rfl, hj⟩

theorem modify {g : Journal → Journal} (hg : ∀ j, (g j).disk.here = j.disk.here) :
    Completes here (modify g : Setup Unit) :=
  fun j hj => ⟨(), g j, rfl, (hg j).trans hj⟩

theorem report (here : List String) (r : Record) : Completes here (report r) :=
  modify fun j => (Alike.log j r).here

theorem forM {γ : Type} (l : List γ) {g : γ → Setup Unit} (hg : ∀ c ∈ l, Completes here (g c)) :
    Completes here (l.forM g) := by
  induction l with
  | nil => exact pure here ()
  | cons c rest ih =>
    exact bind (hg c List.mem_cons_self) fun _ => ih fun d hd => hg d (List.mem_cons_of_mem c hd)

end Completes

def levelOf (v : Value) : Option Level := v.text.toOption.bind Level.ofName?

def levelAt (options : Entries) (key : String) : Option Level := (options.find? key).bind levelOf

def ShownAt (options : Entries) (key : String) : Prop :=
  ∀ v, options.find? key = some v → ∃ text, v.text = .ok text

theorem of_on_level? {v : Value} {j i : Journal} {level : Option Level}
    (h : (level? v).on j = (.ok level, i)) :
    level = levelOf v ∧ (∃ text, v.text = .ok text) ∧ j.Alike i := by
  rw [level?] at h
  rw [levelOf]
  cases hname : v.text with
  | error e => rw [hname] at h; cases h
  | ok name =>
    rw [hname] at h
    dsimp only [readLevel] at h
    cases hlevel : Level.ofName? name with
    | some l =>
      rw [hlevel] at h
      cases h
      exact ⟨hlevel.symm, ⟨name, rfl⟩, .refl j⟩
    | none =>
      rw [hlevel] at h
      cases h
      exact ⟨hlevel.symm, ⟨name, rfl⟩, .log j _⟩

theorem completes_level? {here : List String} {v : Value} (h : ∃ text, v.text = .ok text) :
    Completes here (level? v) := by
  obtain ⟨name, hname⟩ := h
  rw [level?, hname]
  dsimp only [readLevel]
  cases Level.ofName? name with
  | some level => exact .pure here _
  | none => exact .bind (.report here _) fun _ => .pure here none

section Options

variable {options : Entries} {j i : Journal} {here : List String} {fallback : Level} {format : String}

theorem of_on_handlerLevel {key : String} {level : Level}
    (h : (handlerLevel (.table options) key fallback).on j = (.ok level, i)) :
    level = (levelAt options key).getD fallback ∧ ShownAt options key ∧ j.Alike i := by
  obtain ⟨held, j₁, hheld, h₁⟩ := of_on_bind h
  obtain ⟨hholds, rfl⟩ := of_on_use hheld
  cases hholds
  rw [levelAt, ShownAt]
  cases hfind : options.find? key with
  | none =>
    rw [hfind] at h₁
    cases h₁
    exact ⟨rfl, nofun, .refl _⟩
  | some v =>
    rw [hfind] at h₁
    obtain ⟨item, j₂, huse, h₂⟩ := of_on_bind h₁
    obtain ⟨hitem, rfl⟩ := of_on_use huse
    rw [Value.item, hfind] at hitem
    cases hitem
    obtain ⟨level', j₃, hlevel, h₃⟩ := of_on_bind h₂
    obtain ⟨rfl, hshown, halike⟩ := of_on_level? hlevel
    cases h₃
    exact ⟨rfl, fun _ hv => Option.some.inj hv ▸ hshown, halike⟩

theorem completes_handlerLevel {key : String} (h : ShownAt options key) :
    Completes here (handlerLevel (.table options) key fallback) := by
  change Completes here (if (options.find? key).isSome then _ else _)
  cases hfind : options.find? key with
  | none => exact .pure here fallback
  | some v =>
    change Completes here (level? ((options.find? key).getD .null) >>= fun _ => _)
    rw [hfind]
    exact .bind (completes_level? (h v hfind)) fun _ => .pure here _

def wantsConsole (options : Entries) : Bool := ((options.find? "console").getD (.bool false)).truthy

def consoleHandler? (options : Entries) (format : String) (fallback : Level) : Option Handler :=
  if wantsConsole options then some ⟨.stream, (levelAt options "console-level").getD fallback, format⟩
  else none

theorem sink_consoleHandler? {handler : Handler}
    (h : consoleHandler? options format fallback = some handler) : handler.sink = .stream := by
  rw [consoleHandler?] at h
  split at h <;> cases h
  rfl

theorem of_on_streamHandler? {handler : Option Handler}
    (h : (streamHandler? (.table options) format fallback).on j = (.ok handler, i)) :
    handler = consoleHandler? options format fallback ∧
      (wantsConsole options → ShownAt options "console-level") ∧ j.Alike i := by
  obtain ⟨v, j₁, huse, h₁⟩ := of_on_bind h
  obtain ⟨hv, rfl⟩ := of_on_use huse
  cases hv
  rw [consoleHandler?]
  split at h₁
  · rename_i htruthy
    obtain ⟨level, j₂, hlevel, h₂⟩ := of_on_bind h₁
    obtain ⟨rfl, hshown, halike⟩ := of_on_handlerLevel hlevel
    cases h₂
    exact ⟨(if_pos htruthy).symm, fun _ => hshown, halike⟩
  · rename_i htruthy
    cases h₁
    exact ⟨(if_neg htruthy).symm, fun hwants => absurd hwants htruthy, .refl _⟩

theorem completes_streamHandler? (h : wantsConsole options → ShownAt options "console-level") :
    Completes here (streamHandler? (.table options) format fallback) := by
  change Completes here (if wantsConsole options then _ else _)
  split
  · rename_i hwants
    exact .bind (completes_handlerLevel (h hwants)) fun _ => .pure here _
  · exact .pure here none

def fileHandlerAt? (options : Entries) (here : List String) (format : String) (fallback : Level) :
    Option Handler :=
  match options.find? "file" with
  | some (.str path) =>
    some ⟨.file (Path.absolute here path).text ((options.find? "rotate").getD (.bool false)).truthy,
      (levelAt options "file-level").getD fallback, format⟩
  | _ => none

structure FileUsable (options : Entries) (here : List String) : Prop where
  path : ∀ v, options.find? "file" = some v → ∃ path, v = .str path ∧ ¬Barred here path
  level : (options.find? "file").isSome → ShownAt options "file-level"

-- The last case is that of a file that the system refuses, which is reported and no fault.
theorem of_on_fileHandler? {name : String} {handler : Option Handler}
    (hfile : (options.find? "file").isSome)
    (h : (fileHandler? name (.table options) format fallback).on j = (.ok handler, i)) :
    (handler = fileHandlerAt? options j.disk.here format fallback ∧ FileUsable options j.disk.here ∨
      handler = none) ∧ j.Alike i := by
  obtain ⟨v, j₁, hv, h₁⟩ := of_on_bind h
  obtain ⟨hitem, rfl⟩ := of_on_use hv
  obtain ⟨rotating, j₂, hrotating, h₂⟩ := of_on_bind h₁
  obtain ⟨hlookup, rfl⟩ := of_on_use hrotating
  obtain ⟨path, j₃, hpath, h₃⟩ := of_on_bind h₂
  obtain ⟨hread, rfl⟩ := of_on_use hpath
  obtain ⟨found, hfound⟩ := Option.isSome_iff_exists.mp hfile
  have hstr : found = .str path := by
    rw [Value.item, hfound] at hitem
    cases hitem
    cases found <;> cases hread
    rfl
  cases hlookup
  obtain ⟨_, _, hget, h₄⟩ := of_on_bind h₃
  cases hget
  rcases hopen : openFile j₃.disk path with ⟨disk, opened⟩
  have halike : j₃.Alike { j₃ with disk } := ⟨rfl, by rw [← here_openFile j₃.disk path, hopen]⟩
  rw [hopen] at h₄
  obtain ⟨_, _, hset, h₅⟩ := of_on_bind h₄
  cases hset
  cases opened with
  | error e =>
    cases e with
    | embeddedNull => cases h₅
    | system kind place =>
      obtain ⟨_, _, hreport, h₆⟩ := of_on_bind h₅
      cases hreport
      cases h₆
      exact ⟨.inr rfl, halike.trans (.log _ _)⟩
  | ok absolute =>
    obtain ⟨level, _, hlevel, h₆⟩ := of_on_bind h₅
    obtain ⟨rfl, hshown, halike'⟩ := of_on_handlerLevel hlevel
    cases h₆
    have hopened := congrArg Prod.snd hopen
    refine ⟨.inl ⟨?_, fun v hv => ⟨path, ?_, (openFile_ok hopened).2⟩, fun _ => hshown⟩,
      halike.trans halike'⟩
    · rw [fileHandlerAt?, hfound, hstr, (openFile_ok hopened).1]
    · rw [← hstr]
      exact Option.some.inj (hv.symm.trans hfound)

theorem completes_fileHandler? {name : String} (hfile : (options.find? "file").isSome)
    (h : FileUsable options here) :
    Completes here (fileHandler? name (.table options) format fallback) := by
  obtain ⟨v, hv⟩ := Option.isSome_iff_exists.mp hfile
  obtain ⟨path, rfl, hbarred⟩ := h.path v hv
  intro j hj
  have hitem : (Value.table options).item "file" = .ok (.str path) := by
    rw [Value.item, hv]
    rfl
  have hlookup : (Value.table options).lookup "rotate" (.bool false) = .ok _ := rfl
  have hread : readPath (.str path) = .ok path := rfl
  rw [fileHandler?, on_use_bind hitem, on_use_bind hlookup, on_use_bind hread, on_get_bind]
  rw [← hj] at hbarred
  have hopened := mt barred_of_openFile hbarred
  have hhere := (here_openFile j.disk path).trans hj
  rcases hopen : openFile j.disk path with ⟨disk, opened⟩
  rw [hopen] at hopened hhere
  dsimp only
  rw [on_set_bind]
  cases opened with
  | error e =>
    cases e with
    | embeddedNull => exact absurd rfl hopened
    | system kind place =>
      exact Completes.bind (.report here _) (fun _ => .pure here none) { j with disk } hhere
  | ok absolute =>
    exact Completes.bind (completes_handlerLevel (h.level hfile)) (fun _ => .pure here _)
      { j with disk } hhere

end Options

theorem of_on_takeLevel {name : String} {options : Entries} {j j' : Journal}
    (h : (takeLevel name (.table options)).on j = (.ok (), j')) :
    ShownAt options "level" ∧ Within name j j' ∧
      j'.get name = { j.get name with level := (levelAt options "level").getD (j.get name).level } := by
  obtain ⟨held, j₁, hheld, h₁⟩ := of_on_bind h
  obtain ⟨hholds, rfl⟩ := of_on_use hheld
  cases hholds
  rw [levelAt, ShownAt]
  cases hfind : options.find? "level" with
  | none =>
    rw [hfind] at h₁
    cases h₁
    exact ⟨nofun, .refl _ _, rfl⟩
  | some v =>
    rw [hfind] at h₁
    obtain ⟨item, j₂, huse, h₂⟩ := of_on_bind h₁
    obtain ⟨hitem, rfl⟩ := of_on_use huse
    rw [Value.item, hfind] at hitem
    cases hitem
    obtain ⟨level, j₃, hlevel, h₃⟩ := of_on_bind h₂
    obtain ⟨(hof : level = levelOf v), hshown, halike⟩ := of_on_level? hlevel
    refine ⟨fun _ hv => Option.some.inj hv ▸ hshown, ?_⟩
    rw [Option.bind_some, ← hof]
    cases level with
    | none =>
      cases h₃
      exact ⟨.of_alike halike name, halike.get name⟩
    | some level =>
      cases h₃
      exact ⟨(Within.of_alike halike name).trans (.put _ _ _), by rw [get_put, halike.get]; rfl⟩

theorem completes_takeLevel {name : String} {options : Entries} {here : List String}
    (h : ShownAt options "level") : Completes here (takeLevel name (.table options)) := by
  change Completes here (if (options.find? "level").isSome then _ else _)
  cases hfind : options.find? "level" with
  | none => exact .pure here ()
  | some v =>
    change Completes here (level? ((options.find? "level").getD .null) >>= fun _ => _)
    rw [hfind]
    refine .bind (completes_level? (h v hfind)) fun level => ?_
    cases level with
    | none => exact .pure here ()
    | some level => exact .modify fun j => here_put j _ _

theorem of_on_addHandlers {name : String} {handlers : List Handler} {j j' : Journal}
    (h : (handlers.forM (addHandler name)).on j = (.ok (), j')) :
    Within name j j' ∧
      j'.get name = { j.get name with handlers := (j.get name).handlers ++ handlers } := by
  induction handlers generalizing j with
  | nil =>
    cases h
    exact ⟨.refl _ _, by rw [List.append_nil]⟩
  | cons first rest ih =>
    obtain ⟨_, j₁, hfirst, h₁⟩ := of_on_bind h
    cases hfirst
    obtain ⟨hwithin, hget⟩ := ih h₁
    refine ⟨((Within.put _ _ _).trans (.of_alike (.log _ _) name)).trans hwithin, ?_⟩
    rw [hget, (Alike.log _ _).get, get_put]
    simp

theorem completes_addHandlers (here : List String) (name : String) (handlers : List Handler) :
    Completes here (handlers.forM (addHandler name)) :=
  .forM handlers fun _ _ => .bind (.modify fun j => here_put j _ _) fun _ => .report here _

def formatOf (options : Entries) : Except Fault String :=
  readFormat ((options.find? "format").getD (.str defaultFormat))

/-- The handlers that options describe. A format that cannot be used leaves none. -/
def describedHandlers (options : Entries) (here : List String) (fallback : Level) : List Handler :=
  match formatOf options with
  | .error _ => []
  | .ok format =>
    (consoleHandler? options format fallback).toList ++
      (fileHandlerAt? options here format fallback).toList

theorem place_describedHandlers (options : Entries) (here : List String) (level level' : Level) :
    (describedHandlers options here level').map Handler.place =
      (describedHandlers options here level).map Handler.place := by
  rw [describedHandlers, describedHandlers]
  cases formatOf options with
  | error e => rfl
  | ok format =>
    dsimp only
    rw [List.map_append, List.map_append]
    congr 1
    · rw [consoleHandler?, consoleHandler?]
      split <;> rfl
    · rw [fileHandlerAt?, fileHandlerAt?]
      split <;> rfl

def NamesLevels (options : Entries) : Prop :=
  (wantsConsole options → (levelAt options "console-level").isSome) ∧
    ((options.find? "file").isSome → (levelAt options "file-level").isSome)

theorem describedHandlers_of_namesLevels {options : Entries} (h : NamesLevels options)
    (here : List String) (level level' : Level) :
    describedHandlers options here level' = describedHandlers options here level := by
  rw [describedHandlers, describedHandlers]
  cases formatOf options with
  | error e => rfl
  | ok format =>
    dsimp only
    congr 2
    · rw [consoleHandler?, consoleHandler?]
      split
      · rename_i hwants
        obtain ⟨named, hnamed⟩ := Option.isSome_iff_exists.mp (h.1 hwants)
        rw [hnamed]
        rfl
      · rfl
    · rw [fileHandlerAt?, fileHandlerAt?]
      split
      · rename_i path hfile
        obtain ⟨named, hnamed⟩ := Option.isSome_iff_exists.mp (h.2 (by rw [hfile]; rfl))
        rw [hnamed]
        rfl
      · rfl

structure Usable (options : Entries) (here : List String) : Prop where
  level : ShownAt options "level"
  format : ∃ format, formatOf options = .ok format
  console : wantsConsole options → ShownAt options "console-level"
  file : FileUsable options here

/-- What is true of a journal once a logger has been set up: its level, its handlers with the level
that they fall back on, and that nothing else has changed. A file that is refused leaves the logger
without a handler for it. -/
structure Carried (name : String) (options : Entries) (j j' : Journal) : Prop extends
    Within name j j' where
  present : (j'.loggers.lookup name).isSome
  level : (j'.get name).level = (levelAt options "level").getD (j.get name).level
  handlers : Usable options j.disk.here ∧
      (j'.get name).handlers = describedHandlers options j.disk.here (j'.effectiveLevel name) ∨
    (options.find? "file").isSome ∧ ∀ h ∈ (j'.get name).handlers, h.sink = .stream

-- The steps of a setup in their order: the level is taken, the old handlers go, what the new ones are
-- made of is read, and they are added. The level that the logger ends with, has or inherits, is that
-- of the moment when its handlers were made.
theorem settled {name : String} {level : Level} {handlers : List Handler} {j j₂ j₃ j' : Journal}
    (htaken : Within name (j.touch name) j₂)
    (hlevel : j₂.get name = { (j.touch name).get name with level })
    (hmade : Alike (j₂.put name { j₂.get name with handlers := [] }) j₃)
    (hadded : Within name j₃ j')
    (hhandlers : j'.get name = { j₃.get name with handlers := (j₃.get name).handlers ++ handlers }) :
    Within name j j' ∧ (j'.loggers.lookup name).isSome ∧ j'.get name = ⟨level, handlers⟩ ∧
      j'.effectiveLevel name = j₂.effectiveLevel name := by
  have hcleared : Within name j₂ j' := ((Within.put _ _ _).trans (.of_alike hmade name)).trans hadded
  have hpresent₂ : (j₂.loggers.lookup name).isSome := by
    apply htaken.listed
    rw [touch, lookup_put, if_pos rfl]
    rfl
  have hpresent := hcleared.listed hpresent₂
  have hget : j'.get name = ⟨level, handlers⟩ := by
    rw [hhandlers, hmade.get, get_put, hlevel]
    rfl
  refine ⟨((Within.put _ _ _).trans htaken).trans hcleared, hpresent, hget, ?_⟩
  apply effectiveLevel_congr
  rintro m -
  apply sameBelow_of_levelView
  by_cases hm : m = name
  · rw [hm, levelView_of_present hpresent, levelView_of_present hpresent₂, hget, hlevel]
  · rw [levelView, levelView, hcleared.others m hm]

theorem of_on_configure {name : String} {options : Value} {j j' : Journal}
    (h : (configure name options).on j = (.ok (), j')) :
    ∃ entries, options = .table entries ∧ Carried name entries j j' := by
  obtain ⟨_, j₁, htouch, h₁⟩ := of_on_bind h
  cases htouch
  obtain ⟨_, j₂, htake, h₂⟩ := of_on_bind h₁
  obtain ⟨_, _, hget, h₃⟩ := of_on_bind h₂
  cases hget
  obtain ⟨_, _, hclear, h₄⟩ := of_on_bind h₃
  cases hclear
  obtain ⟨given, _, hlookup, h₅⟩ := of_on_bind h₄
  obtain ⟨hgiven, rfl⟩ := of_on_use hlookup
  cases options <;> cases hgiven
  rename_i entries
  obtain ⟨format, j₃, hformat, h₆⟩ := of_on_bind h₅
  have hread : formatOf entries = .ok format ∧ j₃ = _ := of_on_lift hformat
  obtain ⟨hread, rfl⟩ := hread
  obtain ⟨stream, j₄, hstream, h₇⟩ := of_on_bind h₆
  obtain ⟨hconsole, hshown, halike⟩ := of_on_streamHandler? hstream
  obtain ⟨held, j₅, hheld, h₈⟩ := of_on_bind h₇
  obtain ⟨hholds, rfl⟩ := of_on_use hheld
  cases hholds
  obtain ⟨hlevel, hwithin, htaken⟩ := of_on_takeLevel htake
  have htouched : ((j.touch name).get name).level = (j.get name).level :=
    congrArg Logger.level (get_put j name _)
  have hhere : j₅.disk.here = j.disk.here :=
    halike.here.trans ((here_put _ _ _).trans (hwithin.here.trans (here_put _ _ _)))
  refine ⟨entries, rfl, ?_⟩
  split at h₈
  · rename_i hfile
    obtain ⟨file, j₆, hopen, h₉⟩ := of_on_bind h₈
    obtain ⟨hopened, halike'⟩ := of_on_fileHandler? hfile hopen
    obtain ⟨hadded, hhandlers⟩ := of_on_addHandlers h₉
    obtain ⟨hall, hpresent, hset, heffective⟩ :=
      settled hwithin htaken (halike.trans halike') hadded hhandlers
    refine ⟨hall, hpresent, ?_, ?_⟩
    · rw [hset, ← htouched]
    rw [hset, heffective]
    rw [hhere] at hopened
    rcases hopened with ⟨rfl, husable⟩ | rfl
    · refine .inl ⟨⟨hlevel, ⟨format, hread⟩, hshown, husable⟩, ?_⟩
      rw [describedHandlers, hread, hconsole]
    · refine .inr ⟨hfile, fun handler hhandler => ?_⟩
      rw [hconsole] at hhandler
      exact sink_consoleHandler? (by simpa using hhandler)
  · rename_i hfile
    obtain ⟨hadded, hhandlers⟩ := of_on_addHandlers h₈
    obtain ⟨hall, hpresent, hset, heffective⟩ := settled hwithin htaken halike hadded hhandlers
    have hnone : Entries.find? entries "file" = none := by simpa using hfile
    refine ⟨hall, hpresent, ?_, .inl ⟨⟨hlevel, ⟨format, hread⟩, hshown, ?_, ?_⟩, ?_⟩⟩
    · rw [hset, ← htouched]
    · intro v hv
      rw [hnone] at hv
      cases hv
    · intro hsome
      exact absurd hsome hfile
    · rw [hset, heffective, describedHandlers, hread, hconsole]
      dsimp only
      rw [fileHandlerAt?, hnone]

theorem completes_configure {name : String} {options : Entries} {here : List String}
    (h : Usable options here) : Completes here (configure name (.table options)) := by
  obtain ⟨format, hformat⟩ := h.format
  refine .bind (.modify fun j => here_put j _ _) fun _ => ?_
  refine .bind (completes_takeLevel h.level) fun _ => ?_
  refine .bind (.get here) fun j => ?_
  refine .bind (.modify fun j => here_put j _ _) fun _ => ?_
  change Completes here (liftM (formatOf options) >>= fun _ => _)
  rw [hformat]
  change Completes here (streamHandler? (.table options) format _ >>= fun _ => _)
  refine .bind (completes_streamHandler? h.console) fun stream => ?_
  change Completes here (if (options.find? "file").isSome then _ else _)
  split
  · rename_i hfile
    exact .bind (completes_fileHandler? hfile h.file) fun _ => completes_addHandlers here name _
  · exact completes_addHandlers here name _

end Setup

end TexHtml
