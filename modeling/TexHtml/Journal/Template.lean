import TexHtml.Number.Places
import TexHtml.Text.CharClass
import TexHtml.Text.Quoted

/-!
Templates: texts in which `%(name)s` and the like stand for the fields of a record. Behind the name
come flags, a width, a precision and the letter of a conversion. The first of them may do without a
name and stands for the whole record then. A template that asks for what it cannot have gives
nothing.
-/

namespace TexHtml.Template

inductive Field where
  | text (s : String)
  | number (n : Int)
  | other (shown ascii : String)

structure Source where
  field? : String → Option Field
  whole : Field

structure Directive where
  left : Bool
  plus : Bool
  blank : Bool
  marked : Bool
  zeros : Bool
  width : Option Nat
  precision : Option Nat
  conversion : Char

namespace Directive

def isNumeric (d : Directive) : Bool := "diuoxXeEfFgG".toList.contains d.conversion

def isWhole (d : Directive) : Bool := "diuoxX".toList.contains d.conversion

def isFloating (d : Directive) : Bool := "eEfFgG".toList.contains d.conversion

def hasBaseMark (d : Directive) : Bool := d.marked && "oxX".toList.contains d.conversion

/-- No width or precision has more than 31 bits. -/
def largestCount : Nat := Nat.pow 2 31 - 1

def isPossible (d : Directive) : Bool :=
  d.width.getD 0 ≤ largestCount && d.precision.getD 0 ≤ largestCount

end Directive

def upper (cs : List Char) : List Char := cs.map Char.toUpper

def wholeDigits (d : Directive) (n : Nat) : List Char :=
  let base :=
    if d.conversion = 'o' then 8
    else if d.conversion = 'x' || d.conversion = 'X' then 16
    else 10
  let ds := Double.padLeft (d.precision.getD 0) '0' (Nat.toDigits base n)
  let mark :=
    if d.hasBaseMark then if d.conversion = 'o' then ['0', 'o'] else ['0', 'x'] else []
  if d.conversion = 'X' then upper (mark ++ ds) else mark ++ ds

def floatingDigits? (d : Directive) (n : Nat) : Option (List Char) :=
  ((Double.ofInt n).quotient?).map fun q =>
    let places := d.precision.getD 6
    let ds :=
      if d.conversion = 'f' || d.conversion = 'F' then
        Places.fixed places d.marked q.1.natAbs q.2
      else if d.conversion = 'e' || d.conversion = 'E' then
        Places.scientific places d.marked false q.1.natAbs q.2
      else Places.general places d.marked q.1.natAbs q.2
    if d.conversion.isUpper then upper ds else ds

def padNumber (d : Directive) (negative : Bool) (body : List Char) : List Char :=
  let sign := if negative then ['-'] else if d.plus then ['+'] else if d.blank then [' '] else []
  let mark := if d.hasBaseMark then body.take 2 else []
  let digits := if d.hasBaseMark then body.drop 2 else body
  let missing := d.width.getD 0 - (sign.length + body.length)
  if d.left then sign ++ body ++ List.replicate missing ' '
  else if d.zeros then sign ++ mark ++ List.replicate missing '0' ++ digits
  else List.replicate missing ' ' ++ sign ++ body

def padText (d : Directive) (body : List Char) : List Char :=
  let missing := d.width.getD 0 - body.length
  if d.left then body ++ List.replicate missing ' ' else List.replicate missing ' ' ++ body

def cutText (d : Directive) (body : List Char) : List Char :=
  match d.precision with
  | some n => body.take n
  | none => body

def character? : Field → Option Char
  | .text s =>
    match s.toList with
    | [c] => some c
    | _ => none
  | .number n => if 0 ≤ n && n.toNat.isValidChar then some (Char.ofNat n.toNat) else none
  | .other _ _ => none

def convert? (d : Directive) (field : Field) : Option (List Char) :=
  let asText (quote : String → String) (ascii : Bool) : List Char :=
    let body :=
      match field with
      | .text s => quote s
      | .number n => toString n
      | .other shown inAscii => if ascii then inAscii else shown
    padText d (cutText d body.toList)
  if !d.isPossible then none
  else if d.conversion = 's' then some (asText id false)
  else if d.conversion = 'r' then some (asText Text.quoted false)
  else if d.conversion = 'a' then some (asText Text.quotedAscii true)
  else if d.conversion = 'c' then (character? field).map fun c => padText d [c]
  else
    match field with
    | .text _ => none
    | .other _ _ => none
    | .number n =>
      if d.isWhole then some (padNumber d (n < 0) (wholeDigits d n.natAbs))
      else if d.isFloating then
        (floatingDigits? d n.natAbs).map fun body => padNumber d (n < 0) body
      else none

def readName : (opened : Nat) → List Char → Option (List Char × List Char)
  | _, [] => none
  | opened, c :: rest =>
    if c = ')' then
      match opened with
      | 0 => some ([], rest)
      | opened + 1 => (readName opened rest).map fun p => (c :: p.1, p.2)
    else
      (readName (if c = '(' then opened + 1 else opened) rest).map fun p => (c :: p.1, p.2)

def isFlag (c : Char) : Bool := c = '-' || c = '+' || c = ' ' || c = '#' || c = '0'

def isDigit (c : Char) : Bool := '0' ≤ c && c ≤ '9'

def readCount (s : List Char) : Option Nat × List Char :=
  match s.takeWhile isDigit with
  | [] => (none, s)
  | ds => (some (ds.foldl (fun n c => n * 10 + (c.toNat - 48)) 0), s.dropWhile isDigit)

def readPrecision (s : List Char) : Option Nat × List Char :=
  match s with
  | '.' :: rest => (some ((readCount rest).1.getD 0), (readCount rest).2)
  | s => (none, s)

def skipSize (s : List Char) : List Char :=
  match s with
  | c :: rest => if c = 'h' || c = 'l' || c = 'L' then rest else s
  | [] => []

def readSpec (s : List Char) : Option (Directive × List Char) :=
  let flags := s.takeWhile isFlag
  let (width, s) := readCount (s.dropWhile isFlag)
  let (precision, s) := readPrecision s
  match skipSize s with
  | [] => none
  | c :: rest =>
    some (⟨flags.contains '-', flags.contains '+', flags.contains ' ', flags.contains '#',
      flags.contains '0', width, precision, c⟩, rest)

structure Step where
  text : List Char
  rest : List Char
  fresh : Bool

/-- A directive behind its percent sign. A second percent sign stands for itself; without a name the
directive has to be the first. -/
def readDirective (source : Source) (fresh : Bool) (s : List Char) : Option Step :=
  let fill (field : Field) (s : List Char) : Option Step := do
    let (directive, rest) ← readSpec s
    return ⟨← convert? directive field, rest, false⟩
  match s with
  | '%' :: rest => some ⟨['%'], rest, fresh⟩
  | '(' :: rest => do
    let (name, rest) ← readName 0 rest
    fill (← source.field? (String.ofList name)) rest
  | s => if fresh then fill source.whole s else none

def fill (source : Source) : (rounds : Nat) → (fresh : Bool) → List Char → Option (List Char)
  | _, _, [] => some []
  | 0, _, _ :: _ => none
  | rounds + 1, fresh, c :: rest =>
    if c = '%' then do
      let step ← readDirective source fresh rest
      let more ← fill source rounds step.fresh step.rest
      return step.text ++ more
    else (fill source rounds fresh rest).map (c :: ·)

def render (source : Source) (template : String) : Option String :=
  (fill source template.length true template.toList).map String.ofList

def skipCount (s : List Char) : Option (List Char) :=
  match s with
  | '*' :: rest => some rest
  | s =>
    match s.takeWhile Text.isDecimalDigit with
    | [] => none
    | _ => some (s.dropWhile Text.isDecimalDigit)

/-- Letters of conversions in either case, with the letters that have the case form of one. -/
def isConversionLetter (c : Char) : Bool := "diouxefgcrsaDIOUXEFGCRSA%ıİſ".toList.contains c

def beginsWithDirective (s : List Char) : Bool :=
  match s with
  | '%' :: '(' :: rest =>
    let name := rest.takeWhile Text.isWordChar
    match rest.dropWhile Text.isWordChar with
    | ')' :: rest =>
      let rest := rest.dropWhile isFlag
      let rest := (skipCount rest).getD rest
      let rest :=
        match rest with
        | '.' :: behind => (skipCount behind).getD rest
        | _ => rest
      !name.isEmpty && (rest.head?.map isConversionLetter).getD false
    | _ => false
  | _ => false

def hasDirective : List Char → Bool
  | [] => false
  | c :: rest => beginsWithDirective (c :: rest) || hasDirective rest

def isValid (template : String) : Bool := hasDirective template.toList

end TexHtml.Template
