import TexHtml.Disk.Basic
import TexHtml.Journal.Record
import TexHtml.Journal.Template

namespace TexHtml

inductive Sink where
  | stream
  | file (path : String) (rotating : Bool)
  deriving DecidableEq

structure Handler where
  sink : Sink
  level : Level
  format : String
  deriving DecidableEq

def Handler.typeName (h : Handler) : String :=
  match h.sink with
  | .stream => "StreamHandler"
  | .file _ false => "FileHandler"
  | .file _ true => "TimedRotatingFileHandler"

structure Logger where
  level : Level
  handlers : List Handler
  deriving DecidableEq

def rootName : String := "root"

/-- Loggers that are not listed have no level and no handlers. `stamp` is the time that records are
given, and `errorText` what has been written to the error stream. -/
structure Journal where
  loggers : List (String × Logger)
  stamp : String
  errorText : String
  disk : Disk

namespace Journal

def get (j : Journal) (name : String) : Logger := (j.loggers.lookup name).getD ⟨.notSet, []⟩

def put (j : Journal) (name : String) (logger : Logger) : Journal :=
  if (j.loggers.lookup name).isSome then
    { j with
      loggers := j.loggers.map fun p => if p.1 = name then (name, logger) else p }
  else { j with loggers := j.loggers ++ [(name, logger)] }

def touch (j : Journal) (name : String) : Journal := j.put name (j.get name)

def start (disk : Disk) (stamp : String) : Journal :=
  ⟨[(rootName, ⟨.warning, []⟩)], stamp, "", disk⟩

/-- What stands before the dots of a name, longest first, given backwards as the name is. Where two
dots are adjacent only the second counts, and a dot at the start counts for nothing. -/
def dottedAbove (name : List Char) : List (List Char) :=
  match _h : name.dropWhile (· != '.') with
  | [] => []
  | [_] => []
  | _ :: c :: rest => (c :: rest) :: dottedAbove rest
termination_by name.length
decreasing_by
  have hl := (List.dropWhile_sublist (fun c => c != '.') (l := name)).length_le
  rw [_h] at hl
  simp only [List.length_cons] at hl
  omega

def above? (j : Journal) (name : String) : Option String :=
  ((dottedAbove name.toList.reverse).map fun cs => String.ofList cs.reverse).find? fun n =>
    (j.loggers.lookup n).isSome

def lineage (j : Journal) : (steps : Nat) → (name : String) → List String
  | 0, _ => [rootName]
  | steps + 1, name =>
    if name = rootName then [rootName]
    else
      match j.above? name with
      | some n => name :: j.lineage steps n
      | none => [name, rootName]

def lineageOf (j : Journal) (name : String) : List Logger :=
  (j.lineage name.length name).map j.get

def effectiveLevel (j : Journal) (name : String) : Level :=
  (((j.lineageOf name).map Logger.level).find? fun l => l ≠ .notSet).getD .notSet

def field? (j : Journal) (r : Record) (name : String) : Option Template.Field :=
  match name with
  | "name" => some (.text r.logger)
  | "levelno" => some (.number r.level.number)
  | "levelname" => some (.text r.level.name)
  | "message" => some (.text r.message)
  | "msg" => some (.text r.message)
  | "asctime" => some (.text j.stamp)
  | "args" => some (.other "()" "()")
  | "exc_info" => some (.other "None" "None")
  | "exc_text" => some (.other "None" "None")
  | "stack_info" => some (.other "None" "None")
  | "threadName" => some (.text "MainThread")
  | "processName" => some (.text "MainProcess")
  | _ => none

def wholeText (quote : String → String) (r : Record) : String :=
  "\x7b'name': " ++ quote r.logger ++ ", 'msg': " ++ quote r.message ++
    ", 'args': (), 'levelname': " ++ quote r.level.name ++ s!", 'levelno': {r.level.number}" ++
    ", 'pathname': "

def sourceOf (j : Journal) (r : Record) : Template.Source :=
  ⟨j.field? r, .other (wholeText Text.quoted r) (wholeText Text.quotedAscii r)⟩

def print (j : Journal) (line : String) : Journal :=
  { j with errorText := j.errorText ++ line ++ "\n" }

def handle (j : Journal) (r : Record) (h : Handler) : Journal :=
  if r.level.number < h.level.number then j
  else
    match Template.render (j.sourceOf r) h.format with
    | none => j
    | some line =>
      match h.sink with
      | .stream => j.print line
      | .file path _ =>
        match j.disk.append path (Text.Utf8.encode (line.toList ++ ['\n'])) with
        | .ok disk => { j with disk }
        | .error _ => j

/-- A record that no logger has a handler for goes to the error stream if it is a warning at least.
-/
def log (j : Journal) (r : Record) : Journal :=
  if r.level.number ≤ 0 || r.level.number < (j.effectiveLevel r.logger).number then j
  else
    match (j.lineageOf r.logger).flatMap Logger.handlers with
    | [] => if Level.warning.number ≤ r.level.number then j.print r.message else j
    | handlers => handlers.foldl (fun j h => j.handle r h) j

def logAll (j : Journal) (rs : List Record) : Journal := rs.foldl log j

end Journal

end TexHtml
