import TexHtml.Number.Integer
import TexHtml.Toml.Failure

namespace TexHtml.Toml

def isBlank (c : Char) : Bool := c = ' ' || c = '\t'

def isBlankOrNewline (c : Char) : Bool := isBlank c || c = '\n'

def isBareKeyChar (c : Char) : Bool :=
  ('a' ≤ c && c ≤ 'z') || ('A' ≤ c && c ≤ 'Z') || ('0' ≤ c && c ≤ '9') || c = '-' || c = '_'

def isControl (c : Char) : Bool := (c.toNat < 32 && c != '\t') || c.toNat = 127

def isControlInLines (c : Char) : Bool := isControl c && c != '\n'

def skipBlanks (s : List Char) : List Char := s.dropWhile isBlank

def skipComment (s : List Char) : Except Failure (List Char) :=
  match s with
  | '#' :: rest =>
    let line := rest.takeWhile (· != '\n')
    match line.dropWhile (fun c => !isControl c) with
    | [] => .ok (rest.dropWhile (· != '\n'))
    | c :: behind =>
      .error ⟨.invalidCharacter c, behind.length + 1 + (rest.length - line.length)⟩
  | s => .ok s

def skipFiller : (rounds : Nat) → List Char → Except Failure (List Char)
  | 0, s => .ok s
  | rounds + 1, s =>
    match s.dropWhile isBlankOrNewline with
    | '#' :: rest =>
      match skipComment ('#' :: rest) with
      | .error e => .error e
      | .ok rest => skipFiller rounds rest
    | rest => .ok rest

def escapedScalar (width : Nat) (s : List Char) : Except Failure (Char × List Char) :=
  let ds := s.take width
  let rest := s.drop width
  if ds.length ≠ width then fail .invalidHex s
  else
    match Text.hexNumber? ds with
    | none => fail .invalidHex s
    | some n => if n.isValidChar then .ok (Char.ofNat n, rest) else fail .notScalar rest

def simpleEscape? (c : Char) : Option Char :=
  if c = 'b' then some '\x08'
  else if c = 't' then some '\t'
  else if c = 'n' then some '\n'
  else if c = 'f' then some '\x0c'
  else if c = 'r' then some '\r'
  else if c = '"' then some '"'
  else if c = '\\' then some '\\'
  else none

def lineContinuation (s : List Char) : Except Failure (List Char) :=
  match s with
  | '\n' :: rest => .ok (rest.dropWhile isBlankOrNewline)
  | s =>
    match skipBlanks s with
    | [] => .ok []
    | '\n' :: rest => .ok (rest.dropWhile isBlankOrNewline)
    | rest => fail .badEscape rest

def readEscape (multiline : Bool) (s : List Char) : Except Failure (Option Char × List Char) :=
  match s with
  | [] => fail .badEscape []
  | c :: rest =>
    if multiline && isBlankOrNewline c then
      match lineContinuation (c :: rest) with
      | .error e => .error e
      | .ok rest => .ok (none, rest)
    else if c = 'u' || c = 'U' then
      match escapedScalar (if c = 'u' then 4 else 8) rest with
      | .error e => .error e
      | .ok (scalar, rest) => .ok (some scalar, rest)
    else
      match simpleEscape? c with
      | some e => .ok (some e, rest)
      | none => fail .badEscape rest

def readBasic (multiline : Bool) :
    (rounds : Nat) → List Char → Except Failure (List Char × List Char)
  | 0, s => fail .unterminatedString s
  | _ + 1, [] => fail .unterminatedString []
  | rounds + 1, c :: rest =>
    if c = '"' && !multiline then .ok ([], rest)
    else if c = '"' && rest.take 2 = ['"', '"'] then .ok ([], rest.drop 2)
    else if c = '\\' then
      match readEscape multiline rest with
      | .error e => .error e
      | .ok (given, rest) =>
        match readBasic multiline rounds rest with
        | .error e => .error e
        | .ok (text, rest) => .ok (given.toList ++ text, rest)
    else if (if multiline then isControlInLines c else isControl c) then
      fail (.illegalCharacter c) (c :: rest)
    else
      match readBasic multiline rounds rest with
      | .error e => .error e
      | .ok (text, rest) => .ok (c :: text, rest)

def splitAtMark (mark : List Char) : List Char → Option (List Char × List Char)
  | [] => if mark.isEmpty then some ([], []) else none
  | c :: rest =>
    if mark.isPrefixOf (c :: rest) then some ([], (c :: rest).drop mark.length)
    else (splitAtMark mark rest).map fun p => (c :: p.1, p.2)

def readLiteral (mark : List Char) (illegal : Char → Bool) (s : List Char) :
    Except Failure (List Char × List Char) :=
  match splitAtMark mark s with
  | none => fail (.expectedText (String.ofList mark)) []
  | some (text, rest) =>
    match text.dropWhile (fun c => !illegal c) with
    | [] => .ok (text, rest)
    | c :: behind =>
      .error ⟨.invalidCharacter c, behind.length + 1 + mark.length + rest.length⟩

/-- Up to two more quotes behind a string of several lines belong to it. -/
def closingQuotes (q : Char) (text rest : List Char) : List Char × List Char :=
  match rest with
  | c :: d :: behind =>
    if c = q then if d = q then (text ++ [q, q], behind) else (text ++ [q], d :: behind)
    else (text, rest)
  | [c] => if c = q then (text ++ [q], []) else (text, [c])
  | [] => (text, [])

def dropNewline (s : List Char) : List Char :=
  match s with
  | '\n' :: rest => rest
  | s => s

def readString? (bound : Nat) (s : List Char) :
    Option (Except Failure (List Char × List Char)) :=
  match s with
  | '"' :: '"' :: '"' :: rest =>
    some ((readBasic true bound (dropNewline rest)).map fun p =>
      closingQuotes '"' p.1 p.2)
  | '"' :: rest => some (readBasic false bound rest)
  | '\'' :: '\'' :: '\'' :: rest =>
    some ((readLiteral ['\'', '\'', '\''] isControlInLines (dropNewline rest)).map fun p =>
      closingQuotes '\'' p.1 p.2)
  | '\'' :: rest => some (readLiteral ['\''] isControl rest)
  | _ => none

def readKeyPart (bound : Nat) (s : List Char) : Except Failure (String × List Char) :=
  match s with
  | '\'' :: rest => (readLiteral ['\''] isControl rest).map fun p => (String.ofList p.1, p.2)
  | '"' :: rest =>
    (readBasic false bound rest).map fun p => (String.ofList p.1, p.2)
  | s =>
    match s.takeWhile isBareKeyChar with
    | [] => fail .invalidKeyStart s
    | part => .ok (String.ofList part, s.dropWhile isBareKeyChar)

def readKey : (bound : Nat) → List Char → Except Failure (Key × List Char)
  | 0, s => fail .invalidKeyStart s
  | bound + 1, s =>
    match readKeyPart (bound + 1) s with
    | .error e => .error e
    | .ok (part, rest) =>
      match skipBlanks rest with
      | '.' :: rest =>
        match readKey bound (skipBlanks rest) with
        | .error e => .error e
        | .ok (more, rest) => .ok (part :: more, rest)
      | rest => .ok ([part], rest)

end TexHtml.Toml
