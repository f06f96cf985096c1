import TexHtml.Text.CharClass

/-!
Switches of the command line, and the arguments that are readings of them. A long switch may be
shortened as long as it stays the only one that begins so, and a value may follow an equals sign;
the value of a short one may follow it directly.
-/

namespace TexHtml.CommandLine

inductive Switch where
  | help
  | config
  | configDir
  | ast
  | validate
  | noMathScript
  | printConfig
  deriving DecidableEq

def spellings : List (String × Switch) :=
  [("-h", .help), ("--help", .help), ("-c", .config), ("--config", .config),
   ("--config-dir", .configDir), ("--ast", .ast), ("--validate", .validate),
   ("--no-math-script", .noMathScript), ("--print-config", .printConfig)]

namespace Switch

def takesValue : Switch → Bool
  | config => true
  | configDir => true
  | _ => false

def spelled (s : Switch) : List String := (spellings.filter fun p => p.2 = s).map Prod.fst

def label (s : Switch) : String := "/".intercalate s.spelled

def ofSpelling? (text : String) : Option Switch := spellings.lookup text

end Switch

structure Reading where
  switch : Switch
  short : Bool
  attached : Option (List Char)

inductive Argument where
  | word (text : String)
  | separator
  | switch (reading : Reading)
  | unknown (text : String)

namespace Argument

def isWord : Argument → Bool
  | word _ => true
  | _ => false

def isSeparator : Argument → Bool
  | separator => true
  | _ => false

def isSwitch : Argument → Bool
  | switch _ => true
  | unknown _ => true
  | _ => false

def text : Argument → String
  | word text => text
  | separator => "--"
  | switch _ => ""
  | unknown text => text

end Argument

inductive UsageError where
  | inputRequired
  | unrecognized (words : List String)
  | valueRequired (switch : Switch)
  | valueIgnored (switch : Switch) (value : String)
  | ambiguous (given : String) (candidates : List String)

def splitAtEquals : List Char → List Char × Option (List Char)
  | [] => ([], none)
  | c :: rest =>
    if c = '=' then ([], some rest)
    else (c :: (splitAtEquals rest).1, (splitAtEquals rest).2)

/-- Digits, or digits with a point before at least one of them, behind a minus sign. A newline may
follow. -/
def isNegativeNumber (cs : List Char) : Bool :=
  match cs with
  | '-' :: rest =>
    let body := if rest.getLast? = some '\n' then rest.dropLast else rest
    match body.dropWhile Text.isDecimalDigit with
    | [] => !body.isEmpty
    | '.' :: places => !places.isEmpty && places.all Text.isDecimalDigit
    | _ => false
  | _ => false

def candidates (cs : List Char) : List (String × Reading) :=
  match cs with
  | '-' :: '-' :: _ =>
    let (stem, attached) := splitAtEquals cs
    spellings.filterMap fun p =>
      if stem.isPrefixOf p.1.toList then some (p.1, ⟨p.2, false, attached⟩) else none
  | cs =>
    spellings.filterMap fun p =>
      if p.1.toList = cs.take 2 then some (p.1, ⟨p.2, true, some (cs.drop 2)⟩) else none

def isShort (cs : List Char) : Bool := (cs.drop 1).head? ≠ some '-'

def classify (text : String) : Except UsageError Argument :=
  let cs := text.toList
  if cs.head? ≠ some '-' then .ok (.word text)
  else
    match Switch.ofSpelling? text with
    | some s => .ok (.switch ⟨s, isShort cs, none⟩)
    | none =>
      if cs.length = 1 then .ok (.word text)
      else
        let (stem, attached) := splitAtEquals cs
        match attached.isSome, Switch.ofSpelling? (String.ofList stem) with
        | true, some s => .ok (.switch ⟨s, isShort stem, attached⟩)
        | _, _ =>
          match candidates cs with
          | [(_, reading)] => .ok (.switch reading)
          | [] =>
            if isNegativeNumber cs || cs.contains ' ' then .ok (.word text)
            else .ok (.unknown text)
          | several => .error (.ambiguous text (several.map Prod.fst))

def classifyAll : List String → Except UsageError (List Argument)
  | [] => .ok []
  | text :: rest =>
    if text = "--" then .ok (.separator :: rest.map .word)
    else do
      let argument ← classify text
      let arguments ← classifyAll rest
      return argument :: arguments

end TexHtml.CommandLine
