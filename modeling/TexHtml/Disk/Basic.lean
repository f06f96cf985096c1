import TexHtml.Disk.Path
import TexHtml.Fault.FileError
import TexHtml.Text.Utf8

/-!
Files and directories, and what happens when one of them is looked up, read, written or made. A path
is followed part by part, so that the error it ends with is that of the first part that fails.
-/

namespace TexHtml

inductive DiskEntry where
  | directory
  | file (octets : List UInt8)
  /-- A file that the system refuses to open, for a reason of its own. -/
  | sealed (reason : FileErrorKind)
  /-- A directory that may neither be listed nor passed through. -/
  | closed
  deriving DecidableEq

namespace DiskEntry

def isFile : DiskEntry → Bool
  | file _ => true
  | sealed _ => true
  | _ => false

def isDirectory : DiskEntry → Bool
  | directory => true
  | closed => true
  | _ => false

end DiskEntry

/-- Entries stand at lists of names, counted from the root, which is a directory itself. Paths that
do not begin at the root begin at `here`. -/
structure Disk where
  entries : List (List String × DiskEntry)
  here : List String

namespace Disk

def get? (d : Disk) (names : List String) : Option DiskEntry :=
  if names.isEmpty then some .directory else d.entries.lookup names

def put (d : Disk) (names : List String) (entry : DiskEntry) : Disk :=
  if (d.entries.lookup names).isSome then
    { d with entries := d.entries.map fun e => if e.1 = names then (names, entry) else e }
  else { d with entries := d.entries ++ [(names, entry)] }

def putParents (d : Disk) (names : List String) : Disk :=
  (List.range names.length).foldl
    (fun d i =>
      let above := names.take i
      if (d.get? above).isSome then d else d.put above .directory) d

inductive Target where
  | entry (names : List String) (entry : DiskEntry)
  | free (names : List String)

def octetCount (s : String) : Nat := (Text.Utf8.encode s.toList).length

/-- The longest name of an entry, and the longest path with the mark at its end, in octets. -/
def nameLimit : Nat := 255

def pathLimit : Nat := 4096

def follow (d : Disk) (place : List String) (entry : DiskEntry) :
    List String → Except FileErrorKind Target
  | [] => .ok (.entry place entry)
  | part :: rest =>
    match entry with
    | .file _ => .error .notDirectory
    | .sealed _ => .error .notDirectory
    | .closed => .error .permissionDenied
    | .directory =>
      if part = ".." then d.follow place.dropLast .directory rest
      else if nameLimit < octetCount part then .error .nameTooLong
      else
        match d.get? (place ++ [part]) with
        | some entry => d.follow (place ++ [part]) entry rest
        | none => if rest.isEmpty then .ok (.free (place ++ [part])) else .error .notFound

def endsWithSlash (path : String) : Bool := (slashParts path.toList).getLast? = some ""

def endsWithPoint (path : String) : Bool :=
  ((slashParts path.toList).filter (· ≠ "")).getLast? = some "."

def fault (path : String) (kind : FileErrorKind) : FileError := .system kind (some path)

def locate (d : Disk) (path : String) : Except FileError Target :=
  if path.toList.contains (Char.ofNat 0) then .error .embeddedNull
  else if path = "" then .error (fault path .notFound)
  else if pathLimit ≤ octetCount path then .error (fault path .nameTooLong)
  else
    let start := if leadingSlashes path.toList = "" then d.here else []
    (d.follow start .directory (namedParts path.toList)).mapError (fault path)

def find (d : Disk) (path : String) : Except FileError (List String × DiskEntry) :=
  match d.locate path with
  | .error e => .error e
  | .ok (.free _) => .error (fault path .notFound)
  | .ok (.entry names entry) =>
    if entry.isFile && (endsWithSlash path || endsWithPoint path) then
      .error (fault path .notDirectory)
    else if entry = .closed && endsWithPoint path then .error (fault path .permissionDenied)
    else .ok (names, entry)

/-- Whether anything is there. A path that cannot lead anywhere leads to nothing, and other errors
stay. -/
def exists? (d : Disk) (path : String) : Except FileError Bool :=
  match d.find path with
  | .ok _ => .ok true
  | .error .embeddedNull => .ok false
  | .error (.system .notFound _) => .ok false
  | .error (.system .notDirectory _) => .ok false
  | .error e => .error e

def isFile (d : Disk) (path : String) : Bool :=
  match d.find path with
  | .ok (_, entry) => entry.isFile
  | .error _ => false

def isDirectory (d : Disk) (path : String) : Bool :=
  match d.find path with
  | .ok (_, entry) => entry.isDirectory
  | .error _ => false

def read (d : Disk) (path : String) : Except FileError (List UInt8) :=
  match d.find path with
  | .error e => .error e
  | .ok (_, .directory) => .error (fault path .isDirectory)
  | .ok (_, .closed) => .error (fault path .permissionDenied)
  | .ok (_, .sealed reason) => .error (fault path reason)
  | .ok (_, .file octets) => .ok octets

def locateForWriting (d : Disk) (path : String) :
    Except FileError (List String × List UInt8) :=
  match d.locate path with
  | .error e => .error e
  | .ok (.entry _ .directory) => .error (fault path .isDirectory)
  | .ok (.entry _ .closed) =>
    .error (fault path (if endsWithPoint path then .permissionDenied else .isDirectory))
  | .ok (.entry _ (.sealed reason)) =>
    .error (fault path
      (if endsWithPoint path then .notDirectory
      else if endsWithSlash path then .isDirectory
      else reason))
  | .ok (.entry names (.file octets)) =>
    if endsWithPoint path then .error (fault path .notDirectory)
    else if endsWithSlash path then .error (fault path .isDirectory)
    else .ok (names, octets)
  | .ok (.free names) =>
    if endsWithPoint path then .error (fault path .notFound)
    else if endsWithSlash path then .error (fault path .isDirectory)
    else .ok (names, [])

def write (d : Disk) (path : String) (octets : List UInt8) : Except FileError Disk :=
  (d.locateForWriting path).map fun p => d.put p.1 (.file octets)

def append (d : Disk) (path : String) (octets : List UInt8) : Except FileError Disk :=
  (d.locateForWriting path).map fun p => d.put p.1 (.file (p.2 ++ octets))

def makeDirectory (d : Disk) (path : String) : Except FileError Disk :=
  match d.locate path with
  | .error e => .error e
  | .ok (.entry _ _) => .error (fault path .alreadyExists)
  | .ok (.free names) => .ok (d.put names .directory)

def ensureDirectory (d : Disk) (path : String) : Disk × Except FileError Unit :=
  match d.makeDirectory path with
  | .ok d => (d, .ok ())
  | .error e => (d, if d.isDirectory path then .ok () else .error e)

def ensureDirectories (d : Disk) : (levels : Nat) → Path → Disk × Except FileError Unit
  | 0, p => d.ensureDirectory p.text
  | levels + 1, p =>
    match d.ensureDirectory p.text with
    | (d, .error (.system .notFound path)) =>
      if p.parent = p then (d, .error (.system .notFound path))
      else
        match d.ensureDirectories levels p.parent with
        | (d, .error e) => (d, .error e)
        | (d, .ok _) => d.ensureDirectory p.text
    | done => done

def below (d : Disk) (names : List String) : List (List String × DiskEntry) :=
  d.entries.filterMap fun e =>
    if names.isPrefixOf e.1 && names.length < e.1.length then some (e.1.drop names.length, e.2)
    else none

end Disk

end TexHtml
