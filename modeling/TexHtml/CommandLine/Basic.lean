import TexHtml.CommandLine.Usage
import TexHtml.Disk.Path
import TexHtml.Fault.Basic
import TexHtml.Number.Integer
import TexHtml.Settings.Environment
import TexHtml.Text.Quoted

namespace TexHtml.CommandLine

/-- What the program is asked to do. Paths of settings are absolute. -/
structure Request where
  input : Option String
  output : Option String
  config : String
  configDirs : Option (List String)
  ast : Bool
  validate : Bool
  noMathScript : Bool
  printConfig : Bool

inductive Stop where
  | help
  | misused (error : UsageError)
  | unusable (error : Misuse)

/-- What has been read so far. The separator as an attached value is dropped, which leaves nothing.
-/
structure Draft where
  input : Option String
  output : Option String
  config : Option String
  configDirs : List (Option String)
  ast : Bool
  validate : Bool
  noMathScript : Bool
  printConfig : Bool

namespace Draft

def start : Draft := ⟨none, none, some "config.toml", [], false, false, false, false⟩

def apply (d : Draft) (switch : Switch) (value : Option String) : Except Stop Draft :=
  match switch with
  | .help => .error .help
  | .config => .ok { d with config := value }
  | .configDir => .ok { d with configDirs := d.configDirs ++ [value] }
  | .ast => .ok { d with ast := true }
  | .validate => .ok { d with validate := true }
  | .noMathScript => .ok { d with noMathScript := true }
  | .printConfig => .ok { d with printConfig := true }

def applyAll (d : Draft) : List (Switch × Option String) → Except Stop Draft
  | [] => .ok d
  | (switch, value) :: rest =>
    match d.apply switch value with
    | .ok d => d.applyAll rest
    | .error e => .error e

end Draft

structure Cluster where
  switches : List (Switch × Option String)
  usesNext : Bool

def single (switch : Switch) (next : Option String) : Except UsageError Cluster :=
  if switch.takesValue then
    match next with
    | some value => .ok ⟨[(switch, some value)], true⟩
    | none => .error (.valueRequired switch)
  else .ok ⟨[(switch, none)], false⟩

def Cluster.prepend (switch : Switch) (c : Cluster) : Cluster :=
  { c with switches := (switch, none) :: c.switches }

def attachedValue (text : List Char) : Option String :=
  if text = ['-', '-'] then none else some (String.ofList text)

def attached (next : Option String) (switch : Switch) (short : Bool) (text : List Char) :
    Except UsageError Cluster :=
  if switch.takesValue then .ok ⟨[(switch, attachedValue text)], false⟩
  else
    let ignored := .error (.valueIgnored switch (String.ofList text))
    match short, text with
    | true, c :: rest =>
      match Switch.ofSpelling? (String.ofList ['-', c]), rest with
      | none, _ => ignored
      | some inner, [] => (single inner next).map (Cluster.prepend switch)
      | some inner, d :: more =>
        (attached next inner true (d :: more)).map (Cluster.prepend switch)
    | _, _ => ignored

def cluster (r : Reading) (next : Option String) : Except UsageError Cluster :=
  match r.attached with
  | none => single r.switch next
  | some text => attached next r.switch r.short text

def takeWord (arguments : List Argument) : List String × List Argument :=
  let front := arguments.takeWhile Argument.isSeparator
  let rest := arguments.dropWhile Argument.isSeparator
  let (words, rest) :=
    match rest with
    | .word text :: rest => ([text], rest)
    | rest => ([], rest)
  let back := rest.takeWhile Argument.isSeparator
  (front.map Argument.text ++ words ++ back.map Argument.text,
   rest.dropWhile Argument.isSeparator)

def wordValue (texts : List String) : Option String := (texts.erase "--").head?

def takeWords (d : Draft) (arguments : List Argument) : Draft × List Argument :=
  let (first, rest) := takeWord arguments
  let (second, rest) := takeWord rest
  ({ d with input := wordValue first, output := wordValue second }, rest)

def nextWord : List Argument → Option String
  | .word text :: _ => some text
  | _ => none

/-- Reads arguments in turn. `expecting` tells whether input and output are still to come, and
`extras` are the texts not recognised so far; `rounds` bounds the number of arguments. -/
def readArguments : (rounds : Nat) → (expecting : Bool) → Draft → (extras : List String) →
    List Argument → Except Stop (Draft × List String)
  | 0, _, d, extras, _ => .ok (d, extras)
  | rounds + 1, expecting, d, extras, arguments =>
    match arguments with
    | .switch reading :: rest =>
      match cluster reading (nextWord rest) with
      | .error e => .error (.misused e)
      | .ok c =>
        match d.applyAll c.switches with
        | .error e => .error e
        | .ok d =>
          readArguments rounds expecting d extras (if c.usesNext then rest.drop 1 else rest)
    | .unknown text :: rest => readArguments rounds expecting d (extras ++ [text]) rest
    | arguments =>
      if expecting then
        let (d, rest) := takeWords d arguments
        readArguments rounds false d extras rest
      else
        let words := arguments.takeWhile fun a => !a.isSwitch
        let rest := arguments.dropWhile fun a => !a.isSwitch
        if rest.isEmpty then .ok (d, extras ++ words.map Argument.text)
        else readArguments rounds false d (extras ++ words.map Argument.text) rest

def settingsPath (here : List String) (value : Option String) : Except Stop String :=
  match value with
  | some path => .ok (Path.absolute here path).text
  | none => .error (.unusable (.notPath "list"))

def Draft.finish (d : Draft) (here : List String) : Except Stop Request := do
  let config ← settingsPath here d.config
  let directories ← d.configDirs.mapM (settingsPath here)
  if d.input.isNone && !d.printConfig then .error (.misused .inputRequired)
  else
    return ⟨d.input, d.output, config, if directories.isEmpty then none else some directories,
      d.ast, d.validate, d.noMathScript, d.printConfig⟩

def read (here : List String) (arguments : List String) : Except Stop Request :=
  match classifyAll arguments with
  | .error e => .error (.misused e)
  | .ok classified =>
    match readArguments (2 * classified.length + 2) true .start [] classified with
    | .error e => .error e
    | .ok (d, extras) =>
      if !extras.isEmpty then .error (.misused (.unrecognized extras)) else d.finish here

def defaultColumns : Nat := 80

def columns (env : Environment) : Nat :=
  match ((env.get? "COLUMNS").bind readInteger?).map Int.toNat with
  | some (n + 1) => n + 1
  | _ => defaultColumns

def UsageError.message : UsageError → String
  | inputRequired => "the following arguments are required: input"
  | unrecognized words => "unrecognized arguments: " ++ " ".intercalate words
  | valueRequired switch => "argument " ++ switch.label ++ ": expected one argument"
  | valueIgnored switch value =>
    "argument " ++ switch.label ++ ": ignored explicit argument " ++ Text.quoted value
  | ambiguous given candidates =>
    "ambiguous option: " ++ given ++ " could match " ++ ", ".intercalate candidates

namespace Stop

def fault : Stop → Fault
  | help => .exit 0
  | misused _ => .exit 2
  | unusable error => .misuse error

def output (columns : Nat) : Stop → String
  | help => helpText (lineWidth columns)
  | _ => ""

def errorText (columns : Nat) : Stop → String
  | misused error =>
    usage (lineWidth columns) ++ programName ++ ": error: " ++ error.message ++ "\n"
  | _ => ""

end Stop

end TexHtml.CommandLine
