import TexHtml.Program.Basic

namespace TexHtml.Program

def splitAt (mark : UInt8) (octets : List UInt8) : List (List UInt8) :=
  octets.foldr
    (fun b pieces =>
      if b = mark then [] :: pieces
      else
        match pieces with
        | [] => [[b]]
        | piece :: rest => (b :: piece) :: rest)
    [[]]

/-- The variables of a block in which each ends with a NUL. What is no text is left out. -/
def environmentOfBlock (octets : List UInt8) : Environment :=
  .ofPairs ((splitAt 0 octets).filterMap fun piece =>
    match Text.Utf8.decode piece with
    | .ok text => (Dotenv.splitAtEquals text).map fun p => (String.ofList p.1, String.ofList p.2)
    | .error _ => none)

/-- The date that lies a number of days behind the first of January 1970. Years are counted from
March, so that a leap day is the last of its year, and in cycles of 400 years, which all have the
same length. -/
def dateOfDays (days : Int) : Date :=
  let z := days + 719468
  let cycle := Int.fdiv z 146097
  let day := (z - cycle * 146097).toNat
  let year := (day - day / 1460 + day / 36524 - day / 146096) / 365
  let inYear := day - (365 * year + year / 4 - year / 100)
  let m := (5 * inYear + 2) / 153
  let month := if m < 10 then m + 3 else m - 9
  let full := (year : Int) + cycle * 400 + (if month ≤ 2 then 1 else 0)
  ⟨full.toNat, month, inYear - (153 * m + 2) / 5 + 1⟩

def stampOf (seconds : Int) (milliseconds : Nat) : String :=
  let days := Int.fdiv seconds 86400
  let rest := (seconds - days * 86400).toNat
  let clock : Time := ⟨rest / 3600, rest / 60 % 60, rest % 60, 0⟩
  (dateOfDays days).text ++ " " ++ clock.text ++ "," ++ zeroPadded 3 milliseconds

def filesInOptions (options : Entries) : List String :=
  match options.find? "file" with
  | some (.str path) => [path]
  | _ => []

def journalFiles (settings : Entries) : List String :=
  match Settings.loggingOptions settings with
  | .error _ => []
  | .ok options =>
    let inner :=
      match options.find? "logger" with
      | some (.table loggers) =>
        loggers.flatMap fun e =>
          match e.2 with
          | .table options => filesInOptions options
          | _ => []
      | _ => []
    filesInOptions options ++ inner

def requestFiles (r : CommandLine.Request) : List String :=
  [".env", r.config] ++ r.input.toList ++ r.output.toList

def changes (before after : Disk) : List (List String × DiskEntry) :=
  after.entries.filter fun e => before.get? e.1 ≠ some e.2

end TexHtml.Program
