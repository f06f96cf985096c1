import TexHtml.Settings.Load

namespace TexHtml.Settings

/-- What the files hold that load, in order. Reading ends at a file that is unreadable. -/
def readFiles (reader : Reader) (disk : Disk) : List Path → Except Fault (List Entries)
  | [] => .ok []
  | path :: rest =>
    match readContent reader disk path with
    | .unreadable f => .error f
    | .refused _ => readFiles reader disk rest
    | .loaded entries => (readFiles reader disk rest).map (entries :: ·)

def readDirectories (reader : Reader) (disk : Disk) (listing : Listing) :
    List String → Except Fault (List Entries)
  | [] => .ok []
  | directory :: rest => do
    let files ← (dropIns disk listing directory).result
    let layers ← readFiles reader disk files
    return layers ++ (← readDirectories reader disk listing rest)

def readLayers (reader : Reader) (disk : Disk) (listing : Listing) (path : String)
    (directories : List String) : Except Fault (Entries × List Entries) := do
  let main ← (loadMain reader disk path).result
  return (main, ← readDirectories reader disk listing directories)

theorem result_log {α : Type} (r : Record) (x : Logged α) : (x.log r).result = x.result := rfl

theorem result_andThen {α β : Type} (x : Logged α) (f : α → Logged β) :
    (x.andThen f).result = x.result.bind fun a => (f a).result := by
  rw [Logged.andThen]
  cases x.result <;> rfl

section Results

variable (reader : Reader)

theorem result_mergeFiles (disk : Disk) (files : List Path) (base : Entries) :
    (mergeFiles reader disk files base).result =
      (readFiles reader disk files).map (·.foldl merge base) := by
  induction files generalizing base with
  | nil => rfl
  | cons path rest ih =>
    unfold mergeFiles readFiles
    cases readContent reader disk path with
    | unreadable f => rfl
    | refused reason =>
      dsimp only
      rw [result_log]
      exact ih base
    | loaded entries =>
      dsimp only
      rw [result_log, ih]
      cases readFiles reader disk rest <;> rfl

theorem result_mergeDirectories (disk : Disk) (listing : Listing) (directories : List String)
    (base : Entries) :
    (mergeDirectories reader disk listing directories base).result =
      (readDirectories reader disk listing directories).map (·.foldl merge base) := by
  induction directories generalizing base with
  | nil => rfl
  | cons directory rest ih =>
    rw [mergeDirectories, readDirectories, result_andThen]
    cases (dropIns disk listing directory).result with
    | error f => rfl
    | ok files =>
      change (Logged.andThen _ _).result = ((readFiles reader disk files).bind fun layers =>
        (readDirectories reader disk listing rest).bind fun more => .ok (layers ++ more)).map _
      rw [result_andThen, result_mergeFiles]
      cases readFiles reader disk files with
      | error f => rfl
      | ok layers =>
        change (mergeDirectories reader disk listing rest (layers.foldl merge base)).result = _
        rw [ih]
        cases readDirectories reader disk listing rest with
        | error f => rfl
        | ok more => exact congrArg Except.ok List.foldl_append.symm

theorem result_loadFiles (disk : Disk) (listing : Listing) (path : String)
    (directories : List String) :
    (loadFiles reader disk listing path directories).result =
      (readLayers reader disk listing path directories).map fun p => p.2.foldl merge p.1 := by
  rw [loadFiles, readLayers, result_andThen]
  cases (loadMain reader disk path).result with
  | error f => rfl
  | ok main =>
    change Logged.result (if directories.isEmpty then _ else _) =
      ((readDirectories reader disk listing directories).bind fun layers => .ok (main, layers)).map _
    rw [apply_ite Logged.result, result_log, result_mergeDirectories]
    split
    · rename_i hempty
      rw [List.isEmpty_iff.mp hempty]
      rfl
    · cases readDirectories reader disk listing directories <;> rfl

theorem environment_load (disk : Disk) (env : Environment) (path : String)
    (directories : List String) (dotenvPath : String) :
    (load reader disk env path directories dotenvPath).environment =
      (Dotenv.load disk env dotenvPath true).environment := by
  rw [load]
  cases (Dotenv.load disk env dotenvPath true).result <;> rfl

theorem result_load (disk : Disk) (env : Environment) (path : String)
    (directories : List String) (dotenvPath : String) :
    (load reader disk env path directories dotenvPath).result =
      (Dotenv.load disk env dotenvPath true).result.bind fun _ =>
        (loadFiles reader disk disk.below path directories).result.map
          (Placeholder.substituteEntries (Dotenv.load disk env dotenvPath true).environment) := by
  unfold load
  dsimp only
  cases (Dotenv.load disk env dotenvPath true).result with
  | error f => rfl
  | ok given =>
    dsimp only
    rw [Except.bind]

end Results

end TexHtml.Settings
