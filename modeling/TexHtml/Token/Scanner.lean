import TexHtml.Token.Scan

namespace TexHtml

structure Scanner where
  text : List Char
  cursor : Cursor
  tokens : List Token
  deriving DecidableEq

namespace Scanner

def start (text : String) : Scanner := ⟨text.toList, Cursor.start text.toList, []⟩

def current? (s : Scanner) : Option Char := s.cursor.rest.head?

def advance (s : Scanner) (n : Int) : Scanner := { s with cursor := s.cursor.skip n.toNat }

def takeWhile (s : Scanner) (p : Char → Bool) : String × Scanner :=
  (String.ofList (s.cursor.span p).1, { s with cursor := (s.cursor.span p).2 })

def scanCommand (s : Scanner) : Scanner :=
  { s with cursor := s.cursor.command.2, tokens := s.tokens ++ [s.cursor.command.1] }

def scanMath (s : Scanner) : Scanner :=
  { s with cursor := s.cursor.math.2, tokens := s.tokens ++ [s.cursor.math.1] }

def scanText (s : Scanner) : Scanner :=
  { s with cursor := s.cursor.textRun.2, tokens := s.tokens ++ s.cursor.textRun.1.toList }

def scanAll (s : Scanner) : Scanner :=
  { s with
    cursor := (Cursor.start s.text).scan.2
    tokens := (Cursor.start s.text).scan.1 }

def ensureScanned (s : Scanner) : Scanner := if s.tokens.isEmpty then s.scanAll else s

end Scanner

end TexHtml
