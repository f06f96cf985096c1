import TexHtml.Settings.Dotenv
import TexHtml.Settings.Merge
import TexHtml.Settings.Placeholder

/-!
Settings as they are loaded: variables from a file first, then the main file, then the files of the
drop-in directories in the order of their paths, each laid over what came before. Placeholders are
replaced at the end. A drop-in file that cannot be opened or is malformed is passed over; the main
file may be missing but not broken. Octets that are no text, faults of the reader and paths that
cannot be looked up end it all.
-/

namespace TexHtml.Settings

def journalName : String := "internal.config.manager"

def record (level : Level) (message : String) : Record := ⟨level, journalName, message⟩

/-- Why the reader of settings gives no table. The two differ in what becomes of the rest: what is
malformed can be passed over, and a fault of the reader itself cannot. -/
inductive ReadError where
  | malformed (message : String)
  | fault (fault : Fault)

/-- The reader is not fixed here. It sees the text of a file and nothing else. -/
abbrev Reader := String → Except ReadError Entries

inductive Content where
  | loaded (entries : Entries)
  | refused (reason : String)
  | unreadable (fault : Fault)

def Content.ofResult : Except ReadError Entries → Content
  | .ok entries => .loaded entries
  | .error (.malformed reason) => .refused reason
  | .error (.fault f) => .unreadable f

section Reading

variable (reader : Reader)

def Content.ofOctets (octets : List UInt8) : Content :=
  match Text.Utf8.decode octets with
  | .error e => .unreadable (.codec e)
  | .ok text => .ofResult (reader (String.ofList text))

def readContent (disk : Disk) (path : Path) : Content :=
  match disk.read path.text with
  | .error e => .refused e.message
  | .ok octets => .ofOctets reader octets

end Reading

structure Logged (α : Type) where
  records : List Record
  result : Except Fault α

namespace Logged

def pure {α : Type} (a : α) : Logged α := ⟨[], .ok a⟩

def fault {α : Type} (f : Fault) : Logged α := ⟨[], .error f⟩

def log {α : Type} (r : Record) (x : Logged α) : Logged α := { x with records := r :: x.records }

def map {α β : Type} (f : α → β) (x : Logged α) : Logged β := { x with result := x.result.map f }

def andThen {α β : Type} (x : Logged α) (f : α → Logged β) : Logged β :=
  match x.result with
  | .error e => ⟨x.records, .error e⟩
  | .ok a => { f a with records := x.records ++ (f a).records }

end Logged

def loadMain (reader : Reader) (disk : Disk) (path : String) : Logged Entries :=
  match disk.exists? (Path.ofText path).text with
  | .error e => .fault (.file e)
  | .ok false =>
    .log (record .debug ("Configuration file " ++ path ++ " not found, using defaults")) (.pure [])
  | .ok true =>
    match readContent reader disk (.ofText path) with
    | .unreadable f => .fault f
    | .refused reason =>
      .log (record .error ("Failed to load configuration " ++ path ++ ": " ++ reason))
        (.fault (.exit 1))
    | .loaded entries =>
      .log (record .info ("Loaded main config from " ++ path)) (.pure entries)

def isSettingsFile (names : List String) : Bool :=
  match names.getLast? with
  | some name => ".toml".toList.isSuffixOf name.toList
  | none => false

/-- Whether one path stands before another or is the same: the first components that differ decide,
by the numbers of their characters. -/
def precedes (a b : Path) : Bool := !decide (b.components < a.components)

/-- A way to list what stands below a directory. Disks differ in the order. -/
abbrev Listing := List String → List (List String × DiskEntry)

/-- Whether an entry is looked up on the way: directories are entered, and of the files those of
settings are looked at. -/
def isVisited (e : List String × DiskEntry) : Bool := e.2.isDirectory || isSettingsFile e.1

def isDropIn (e : List String × DiskEntry) : Bool := e.2.isFile && isSettingsFile e.1

def collect (path : Path) : List (List String × DiskEntry) → Logged (List Path)
  | [] => .pure []
  | e :: rest =>
    let place := path.child e.1
    if isVisited e && Disk.pathLimit ≤ Disk.octetCount place.text then
      .fault (.file (Disk.fault place.text .nameTooLong))
    else if isDropIn e then
      .log (record .debug ("Found config file: " ++ place.text))
        ((collect path rest).map (place :: ·))
    else collect path rest

/-- The drop-in files of a directory, sorted. Nothing is found in a closed one. -/
def dropIns (disk : Disk) (listing : Listing) (directory : String) : Logged (List Path) :=
  let path := Path.ofText directory
  match disk.exists? path.text with
  | .error e => .fault (.file e)
  | .ok false =>
    .log (record .warning ("Config directory " ++ directory ++ " does not exist, skipping"))
      (.pure [])
  | .ok true =>
    match disk.find path.text with
    | .ok (names, .directory) => (collect path (listing names)).map (·.mergeSort precedes)
    | .ok (_, .closed) => .pure []
    | _ =>
      .log (record .warning ("Config path " ++ directory ++ " is not a directory, skipping"))
        (.pure [])

section Merging

variable (reader : Reader)

def mergeFiles (disk : Disk) : List Path → Entries → Logged Entries
  | [], settings => .pure settings
  | path :: rest, settings =>
    match readContent reader disk path with
    | .unreadable f => .fault f
    | .refused reason =>
      .log (record .error ("Failed to load config file " ++ path.text ++ ": " ++ reason))
        (mergeFiles disk rest settings)
    | .loaded entries =>
      .log (record .info ("Merged config from " ++ path.text))
        (mergeFiles disk rest (merge settings entries))

def mergeDirectories (disk : Disk) (listing : Listing) :
    List String → Entries → Logged Entries
  | [], settings => .pure settings
  | directory :: rest, settings =>
    (dropIns disk listing directory).andThen fun files =>
      .log (record .info s!"Found {files.length} .toml files in {directory}")
        ((mergeFiles reader disk files settings).andThen (mergeDirectories disk listing rest))

def loadFiles (disk : Disk) (listing : Listing) (path : String) (directories : List String) :
    Logged Entries :=
  (loadMain reader disk path).andThen fun settings =>
    if directories.isEmpty then .pure settings
    else
      .log (record .info
          s!"Scanning {directories.length} config directories for .toml files")
        (mergeDirectories reader disk listing directories settings)

structure Loading where
  records : List Record
  environment : Environment
  result : Except Fault Entries

def load (disk : Disk) (env : Environment) (path : String) (directories : List String)
    (dotenvPath : String) : Loading :=
  let dotenv := Dotenv.load disk env dotenvPath true
  match dotenv.result with
  | .error e => ⟨dotenv.records, dotenv.environment, .error e⟩
  | .ok _ =>
    let files := loadFiles reader disk disk.below path directories
    ⟨dotenv.records ++ files.records, dotenv.environment,
     files.result.map (Placeholder.substituteEntries dotenv.environment)⟩

end Merging

end TexHtml.Settings
