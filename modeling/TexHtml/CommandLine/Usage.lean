import TexHtml.CommandLine.Switch
import TexHtml.Text.Lines

namespace TexHtml.CommandLine

def programName : String := "main.py"

def description : String := "latex2html - compile a LaTeX-like document into HTML"

def words : List (String × String) :=
  [("input", "Path to LaTeX source file"),
   ("output", "Path to write HTML to (default: stdout)")]

namespace Switch

def all : List Switch :=
  [help, config, configDir, ast, validate, noMathScript, printConfig]

def valueMark : Switch → String
  | config => " CONFIG"
  | configDir => " CONFIG_DIR"
  | _ => ""

def about : Switch → String
  | help => "show this help message and exit"
  | config => "Path to configuration file (default: config.toml)"
  | configDir =>
    "Directory to search for .toml config files recursively (can be specified multiple times)"
  | ast => "Write the parsed syntax tree as JSON instead of HTML"
  | validate => "Print validation report as JSON and exit"
  | noMathScript => "Do not inject the MathJax script block"
  | printConfig => "Pretty-print loaded configuration and exit"

def heading (s : Switch) : String := ", ".intercalate (s.spelled.map (· ++ s.valueMark))

def brief (s : Switch) : String := "[" ++ s.spelled.head?.getD "" ++ s.valueMark ++ "]"

end Switch

def lineWidth (columns : Nat) : Nat := columns - 2

def blanks (n : Nat) : String := String.ofList (List.replicate n ' ')

/-- Joins parts to lines of at most `width` columns. Of the line that is being filled `taken`
columns are gone, and `indent` columns will be gone at the start of the lines below. -/
def joinParts (width indent : Nat) :
    (taken : Nat) → (line : List String) → List String → List String
  | _, line, [] => if line.isEmpty then [] else [" ".intercalate line]
  | taken, line, part :: rest =>
    if width < taken + part.length && !line.isEmpty then
      " ".intercalate line :: joinParts width indent (indent + part.length + 1) [part] rest
    else joinParts width indent (taken + part.length + 1) (line ++ [part]) rest

def switchParts : List String := Switch.all.map Switch.brief

def wordParts : List String := words.map fun w => "[" ++ w.1 ++ "]"

def usageMark : String := "usage: "

/-- The summary on one line if it fits, else in lines that begin behind the name of the program, or
below it if the name takes up more than three quarters of a line. -/
def usage (width : Nat) : String :=
  let whole := " ".intercalate (programName :: switchParts ++ wordParts)
  let start := usageMark.length + programName.length
  let lines : List String :=
    if usageMark.length + whole.length ≤ width then [whole]
    else if 4 * start ≤ 3 * width then
      let indent := start + 1
      let switches := joinParts width indent usageMark.length [] (programName :: switchParts)
      let words := joinParts width indent indent [] wordParts
      switches.take 1 ++ (switches.drop 1 ++ words).map (blanks indent ++ ·)
    else
      let indent := usageMark.length
      let together := joinParts width indent indent [] (switchParts ++ wordParts)
      let lines :=
        if together.length ≤ 1 then together
        else
          joinParts width indent indent [] switchParts ++ joinParts width indent indent [] wordParts
      programName :: lines.map (blanks indent ++ ·)
  usageMark ++ "\n".intercalate lines ++ "\n"

def leastWidth : Nat := 11

def helpColumn (width : Nat) : Nat := min 24 (max (width - 20) 4)

def entry (width : Nat) (heading about : String) : String :=
  let column := helpColumn width
  let texts := Text.wrap (max (width - column) leastWidth) about
  if heading.length + 4 ≤ column then
    let gap := blanks (column - 2 - heading.length)
    "  " ++ heading ++ gap ++ ("\n" ++ blanks column).intercalate texts ++ "\n"
  else "  " ++ heading ++ "\n" ++ String.join (texts.map fun t => blanks column ++ t ++ "\n")

def helpText (width : Nat) : String :=
  usage width ++ "\n" ++
  "\n".intercalate (Text.wrap (max width leastWidth) description) ++ "\n\n" ++
  "positional arguments:\n" ++
  String.join (words.map fun w => entry width w.1 w.2) ++ "\n" ++
  "options:\n" ++
  String.join (Switch.all.map fun s => entry width s.heading s.about)

end TexHtml.CommandLine
