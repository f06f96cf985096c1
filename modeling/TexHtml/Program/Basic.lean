import TexHtml.CommandLine.Basic
import TexHtml.Journal.Setup
import TexHtml.Json.Dump
import TexHtml.Program.TextFile
import TexHtml.Settings.Load
import TexHtml.Settings.Sections
import TexHtml.Toml.Document
import TexHtml.Value.Outline

namespace TexHtml.Program

structure Session where
  journal : Journal
  output : String

abbrev Run := ExceptT Fault (StateM Session)

namespace Run

def lift {α : Type} (r : Except Fault α) : Run α :=
  match r with
  | .ok a => pure a
  | .error e => throw e

def say (text : String) : Run Unit := modify fun s => { s with output := s.output ++ text }

def complain (line : String) : Run Unit :=
  modify fun s => { s with journal := s.journal.print line }

def journalName : String := "__main__"

def log (level : Level) (message : String) : Run Unit :=
  modify fun s => { s with journal := s.journal.log ⟨level, journalName, message⟩ }

def logAll (records : List Record) : Run Unit :=
  modify fun s => { s with journal := s.journal.logAll records }

def setUp {α : Type} (x : Setup α) : Run α := do
  let s ← get
  let (r, journal) := x.on s.journal
  set { s with journal }
  lift r

def on {α : Type} (x : Run α) (s : Session) : Except Fault α × Session := (x.run).run s

end Run

open Run

/-- JSON text with lines indented by two blanks, for which there is always room. -/
def pretty (v : Value) : Run String :=
  lift ((Json.dump 2 v none [(.str "indent", .int 2)]).mapError .json)

def firstJournal (disk : Disk) (stamp : String) : Journal :=
  (Journal.start disk stamp).put rootName
    ⟨.warning, [⟨.stream, .notSet, "%(levelname)s: %(message)s"⟩]⟩

/-- The reader of TOML. A number that is too long is a fault of its own; anything else that is no
TOML is malformed. -/
def tomlReader : Settings.Reader := fun text =>
  (Toml.read text).mapError fun
    | .malformed message => .malformed message
    | .overlong e => .fault (.digits e)

def loadSettings (reader : Settings.Reader) (env : Environment) (r : CommandLine.Request) :
    Run Entries := do
  let disk := (← get).journal.disk
  let loading := Settings.load reader disk env r.config (r.configDirs.getD []) ".env"
  logAll loading.records
  lift loading.result

def printSettings (settings : Entries) : Run Unit := do
  say "=== latex2html Configuration ===\n\n"
  say ((← pretty (.table settings)) ++ "\n\n=== Compiler options ===\n")
  let options ← lift (Settings.compilerOptions settings)
  say ((← pretty (.table options)) ++ "\n")

structure Plan where
  encoding : Value
  compiler : Entries

def plan (settings : Entries) : Run Plan := do
  let logging ← lift ((Settings.loggingOptions settings).mapError .misuse)
  setUp (Setup.configureAll (.table logging))
  let output ← lift ((Settings.outputOptions settings).mapError .misuse)
  let compiler ← lift (Settings.compilerOptions settings)
  return ⟨(output.find? "encoding").getD (.str "utf-8"), compiler⟩

def failed (logged shown : String) : Run Nat := do
  log .error logged
  complain ("Error: " ++ shown)
  return 1

def newCompiler (p : Plan) (r : CommandLine.Request) : Run Compiler :=
  let options :=
    if r.noMathScript then p.compiler.insert (.str "inject_math_script") (.bool false)
    else p.compiler
  lift ((Compiler.create (.table options)).mapError .misuse)

def compiled (c : Compiler) (r : CommandLine.Request) (source : String) :
    Run (Except ParseError String × Compiler) := do
  if r.ast then
    match c.outline (.str source) with
    | (.ok tree, c) => return (.ok (← pretty tree), c)
    | (.error (.parse e), c) => return (.error e, c)
    | (.error e, _) => throw e
  else
    match c.compile (.str source) with
    | (.ok html, c) => return (.ok html, c)
    | (.error (.parse e), c) => return (.error e, c)
    | (.error e, _) => throw e

def withNewline (text : String) : String :=
  if text.toList.getLast? = some '\n' then text else text ++ "\n"

section Delivery

variable (codecs : Text.Codecs)

def deliver (p : Plan) (output : Option String) (text : String) : Run Nat := do
  match output with
  | none =>
    say (withNewline text)
    return 0
  | some path =>
    let s ← get
    let (disk, written) := TextFile.write codecs s.journal.disk path p.encoding text
    set { s with journal := { s.journal with disk } }
    match written with
    | .ok _ =>
      log .info s!"Wrote {text.length} characters to {path}"
      say s!"Compilation successful: {path}\n"
      return 0
    | .error e =>
      if TextFile.isWriteFailure e then
        failed s!"Failed to write {path}: {e.message}" s!"cannot write {path}: {e.message}"
      else throw e

def process (p : Plan) (r : CommandLine.Request) (input source : String) :
    Run (Except Nat String) := do
  let c ← newCompiler p r
  if r.validate then
    let report ← lift (c.validate (.str source)).1
    say ((← pretty report.outline) ++ "\n")
    return .error (if report.valid then 0 else 1)
  else
    match ← compiled c r source with
    | (.error e, _) =>
      let code ←
        failed s!"Compilation of {input} failed: {e.message}" s!"compilation failed: {e.message}"
      return .error code
    | (.ok text, c) =>
      c.stats.unknown.forM fun name =>
        log .warning ("Unknown command \\" ++ name ++ " in " ++ input)
      return .ok text

def prepare (p : Plan) (r : CommandLine.Request) : Run (Except Nat String) := do
  let input := r.input.getD ""
  let encoding ← lift (p.encoding.text.mapError .digits)
  log .debug ("Reading " ++ input ++ " (" ++ encoding ++ ")")
  match TextFile.read codecs (← get).journal.disk input p.encoding with
  | .error e =>
    if TextFile.isReadFailure e then
      let code ← failed s!"Failed to read {input}: {e.message}" s!"cannot read {input}: {e.message}"
      return .error code
    else throw e
  | .ok source => process p r input source

def execute (p : Plan) (r : CommandLine.Request) : Run Nat := do
  match ← prepare codecs p r with
  | .error code => return code
  | .ok text => deliver codecs p r.output text

def perform (reader : Settings.Reader) (env : Environment) (r : CommandLine.Request) :
    Run Nat := do
  let settings ← loadSettings reader env r
  if r.printConfig then
    printSettings settings
    return 0
  else execute codecs (← plan settings) r

end Delivery

structure Outcome where
  result : Except Fault Nat
  output : String
  errorText : String
  disk : Disk

def exitCode : Except Fault Nat → Except Fault Nat
  | .error (.exit code) => .ok code
  | result => result

def run (codecs : Text.Codecs) (reader : Settings.Reader) (disk : Disk) (env : Environment)
    (stamp : String) (arguments : List String) : Outcome :=
  match CommandLine.read disk.here arguments with
  | .error stop =>
    let columns := CommandLine.columns env
    ⟨exitCode (.error stop.fault), stop.output columns, stop.errorText columns, disk⟩
  | .ok r =>
    let (result, s) := (perform codecs reader env r).on ⟨firstJournal disk stamp, ""⟩
    ⟨exitCode result, s.output, s.journal.errorText, s.journal.disk⟩

end TexHtml.Program
