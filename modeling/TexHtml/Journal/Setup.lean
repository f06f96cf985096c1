import TexHtml.Fault.Basic
import TexHtml.Journal.Basic
import TexHtml.Value.Access
import TexHtml.Value.Text

/-!
Setting up the journal from a table of options. A logger takes its level, loses its handlers and
gets those that the options ask for; an option that cannot be used is reported in the journal
itself. What a step has done stays when a later step fails.
-/

namespace TexHtml

abbrev Setup := ExceptT Fault (StateM Journal)

namespace Setup

def journalName : String := "lib.logging_utils"

def defaultFormat : String := "%(asctime)s - %(name)s - %(levelname)s - %(message)s"

def readLevel (name : String) : Except Record Level :=
  match Level.ofName? name with
  | some level => .ok level
  | none => .error ⟨.error, journalName, "Invalid log level '" ++ name ++ "'"⟩

def use {α : Type} (r : Except Misuse α) : Setup α :=
  match r with
  | .ok a => pure a
  | .error e => throw (.misuse e)

def report (r : Record) : Setup Unit := modify fun j => j.log r

def level? (v : Value) : Setup (Option Level) :=
  match v.text with
  | .error e => throw (.digits e)
  | .ok name =>
    match readLevel name with
    | .ok level => pure (some level)
    | .error r => do
      report r
      pure none

def handlerLevel (options : Value) (key : String) (fallback : Level) : Setup Level := do
  if ← use (options.holds key) then
    let level ← level? (← use (options.item key))
    pure (level.getD fallback)
  else pure fallback

/-- The format that a value gives; an empty one is the message alone. -/
def readFormat (v : Value) : Except Fault String :=
  let plain := "%(message)s"
  if !v.truthy then .ok plain
  else
    match v with
    | .str s => if Template.isValid s then .ok s else .error (.invalidFormat s)
    | .bytes _ => .error (.misuse .octetFormat)
    | v => .error (.misuse (.notFormat v.typeName))

def readPath : Value → Except Misuse String
  | .str s => .ok s
  | .bytes _ => .error .octetPath
  | v => .error (.notPath v.shortTypeName)

def openFile (disk : Disk) (path : String) : Disk × Except FileError String :=
  let parent := (Path.ofText path).parent
  match disk.ensureDirectories parent.parts.length parent with
  | (disk, .error e) => (disk, .error e)
  | (disk, .ok _) =>
    let absolute := (Path.absolute disk.here path).text
    match disk.append absolute [] with
    | .ok disk => (disk, .ok absolute)
    | .error e => (disk, .error e)

/-- A handler that writes to the file that the options name. There is none if the system refuses the
file. -/
def fileHandler? (name : String) (options : Value) (format : String) (fallback : Level) :
    Setup (Option Handler) := do
  let v ← use (options.item "file")
  let rotating := (← use (options.lookup "rotate" (.bool false))).truthy
  let path ← use (readPath v)
  let j ← get
  let (disk, opened) := openFile j.disk path
  set { j with disk }
  match opened with
  | .error .embeddedNull => throw (.file .embeddedNull)
  | .error e =>
    report ⟨.error, journalName,
      "Failed to setup file logging for " ++ name ++ ": " ++ e.message⟩
    pure none
  | .ok absolute =>
    let level ← handlerLevel options "file-level" fallback
    pure (some ⟨.file absolute rotating, level, format⟩)

def streamHandler? (options : Value) (format : String) (fallback : Level) :
    Setup (Option Handler) := do
  if (← use (options.lookup "console" (.bool false))).truthy then
    let level ← handlerLevel options "console-level" fallback
    pure (some ⟨.stream, level, format⟩)
  else pure none

def addHandler (name : String) (h : Handler) : Setup Unit := do
  modify fun j =>
    let logger := j.get name
    j.put name { logger with handlers := logger.handlers ++ [h] }
  report ⟨.debug, journalName,
    s!"Logger {name}: added {h.typeName}, logLevel: {h.level.number}"⟩

def takeLevel (name : String) (options : Value) : Setup Unit := do
  if ← use (options.holds "level") then
    match ← level? (← use (options.item "level")) with
    | some level => modify fun j => j.put name { j.get name with level }
    | none => pure ()

def configure (name : String) (options : Value) : Setup Unit := do
  modify fun j => j.touch name
  takeLevel name options
  let fallback := (← get).effectiveLevel name
  modify fun j => j.put name { j.get name with handlers := [] }
  let format ← readFormat (← use (options.lookup "format" (.str defaultFormat)))
  let stream ← streamHandler? options format fallback
  let file ←
    if ← use (options.holds "file") then fileHandler? name options format fallback
    else pure none
  (stream.toList ++ file.toList).forM (addHandler name)

def readName (key : Value) : Except Misuse String :=
  if !key.truthy then .ok rootName
  else
    match key with
    | .str s => .ok s
    | _ => .error .loggerName

def configureAll (options : Value) : Setup Unit := do
  modify fun j => j.put rootName { j.get rootName with level := .warning }
  configure rootName options
  match ← use (options.lookup "logger" (.table [])) with
  | .table entries => entries.forM fun e => do configure (← use (readName e.1)) e.2
  | v => throw (.misuse (.lacksMember v.typeName "items"))
  let level := (← get).effectiveLevel rootName
  report ⟨.debug, journalName, s!"Logging configured: root level={level.number}"⟩

def on {α : Type} (x : Setup α) (j : Journal) : Except Fault α × Journal := (x.run).run j

end Setup

end TexHtml
