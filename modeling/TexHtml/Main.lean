import TexHtml.Program.Surroundings

/-!
The command line program. It copies the files that a run can touch into a disk of its own, runs on
that, and writes back what the run has changed.
-/

open TexHtml

namespace TexHtml.Main

def pathOf (names : List String) : String := "/" ++ "/".intercalate names

def capturePlace (disk : Disk) (names : List String) : IO Disk := do
  let place := (← IO.currentDir) / pathOf names
  if ← place.isDir then return disk.put names .directory
  else
    try
      return disk.put names (.file (← IO.FS.readBinFile place).toList)
    catch _ =>
      return if ← place.pathExists then disk.put names (.sealed .permissionDenied) else disk

def capture (disk : Disk) (path : String) : IO Disk := do
  let names := (Path.absolute disk.here path).parts
  let mut disk := disk
  for i in List.range names.length do
    disk ← capturePlace disk (names.take (i + 1))
  return disk

/-- Copies all that lies below a directory; links to directories are not followed. -/
partial def captureTree (disk : Disk) (names : List String) : IO Disk := do
  let place := (← IO.currentDir) / pathOf names
  let mut disk := disk
  let entries ←
    try place.readDir
    catch _ => return disk.put names .closed
  for entry in entries do
    let below := names ++ [entry.fileName]
    disk ← capturePlace disk below
    if (← entry.path.symlinkMetadata).type == .dir then disk ← captureTree disk below
  return disk

def restore (before after : Disk) : IO Unit := do
  for (names, entry) in Program.changes before after do
    match entry with
    | .directory => IO.FS.createDirAll (pathOf names)
    | .file octets => IO.FS.writeBinFile (pathOf names) octets.toByteArray
    -- a run neither seals a file nor closes a directory
    | .sealed _ => pure ()
    | .closed => pure ()

def environment : IO Environment := do
  try
    return Program.environmentOfBlock (← IO.FS.readBinFile "/proc/self/environ").toList
  catch _ => return []

def stamp : IO String := do
  try
    let now := (← ((← IO.currentDir) / "/proc/self").metadata).modified
    return Program.stampOf now.sec (now.nsec.toNat / 1000000)
  catch _ => return Program.stampOf 0 0

def captureAll (disk : Disk) (env : Environment) (r : CommandLine.Request) : IO Disk := do
  let mut disk := disk
  for path in Program.requestFiles r do
    disk ← capture disk path
  for directory in r.configDirs.getD [] do
    disk ← capture disk directory
    if disk.isDirectory directory then
      disk ← captureTree disk (Path.absolute disk.here directory).parts
  let directories := r.configDirs.getD []
  match (Settings.load Program.tomlReader disk env r.config directories ".env").result with
  | .error _ => return disk
  | .ok settings =>
    for path in Program.journalFiles settings do
      disk ← capture disk path
    return disk

end TexHtml.Main

def main (arguments : List String) : IO UInt32 := do
  let here := namedParts (← IO.currentDir).toString.toList
  let empty ← TexHtml.Main.capture ⟨[], here⟩ "."
  let env ← TexHtml.Main.environment
  let disk ←
    match CommandLine.read here arguments with
    | .ok r => TexHtml.Main.captureAll empty env r
    | .error _ => pure empty
  let outcome := Program.run Text.standardCodecs Program.tomlReader disk env
    (← TexHtml.Main.stamp) arguments
  TexHtml.Main.restore disk outcome.disk
  IO.print outcome.output
  IO.eprint outcome.errorText
  match outcome.result with
  | .ok code => return code.toUInt32
  | .error fault =>
    IO.eprintln ("Error: " ++ fault.message)
    return 1
