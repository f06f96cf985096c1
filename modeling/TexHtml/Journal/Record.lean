namespace TexHtml

structure Level where
  number : Int
  deriving DecidableEq

namespace Level

def notSet : Level := ⟨0⟩
def debug : Level := ⟨10⟩
def info : Level := ⟨20⟩
def warning : Level := ⟨30⟩
def error : Level := ⟨40⟩
def critical : Level := ⟨50⟩

/-- Names of levels; the first name of a level is the one it is shown by. -/
def names : List (String × Level) :=
  [("CRITICAL", critical), ("FATAL", critical), ("ERROR", error), ("WARNING", warning),
   ("WARN", warning), ("INFO", info), ("DEBUG", debug), ("NOTSET", notSet)]

def name (l : Level) : String :=
  match names.find? fun n => n.2 = l with
  | some n => n.1
  | none => s!"Level {l.number}"

/-- The upper-case form of a character where that is ASCII. Other characters occur in no name of a
level and stay. -/
def upperAscii (c : Char) : List Char :=
  if c = 'ı' then ['I']
  else if c = 'ſ' then ['S']
  else if c = 'ß' then ['S', 'S']
  else if c = 'ﬀ' then ['F', 'F']
  else if c = 'ﬁ' then ['F', 'I']
  else if c = 'ﬂ' then ['F', 'L']
  else if c = 'ﬃ' then ['F', 'F', 'I']
  else if c = 'ﬄ' then ['F', 'F', 'L']
  else if c = 'ﬅ' || c = 'ﬆ' then ['S', 'T']
  else [c.toUpper]

def ofName? (name : String) : Option Level :=
  names.lookup (String.ofList (name.toList.flatMap upperAscii))

end Level

structure Record where
  level : Level
  logger : String
  message : String
  deriving DecidableEq

end TexHtml
