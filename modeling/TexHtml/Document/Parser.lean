import TexHtml.Document.Parse

/-!
A parser that can be driven step by step. It holds its tokens, a cursor into them and the number of
groups that it counts as open; both keep what a failed step left behind.
-/

namespace TexHtml

structure Parser where
  tokens : List Token
  limit : Int
  pos : Nat
  depth : Int

inductive StepError where
  | parse (error : ParseError)
  | noToken
  | opensNoGroup (kind : TokenKind)

abbrev Stepped (α : Type) := Except StepError α × Parser

def Stepped.andThen {α β : Type} (r : Stepped α) (f : α → Parser → Stepped β) : Stepped β :=
  match r with
  | (.ok value, p) => f value p
  | (.error e, p) => (.error e, p)

namespace Parser

def start (tokens : List Token) (limit : Int) : Parser := ⟨tokens, limit, 0, 0⟩

def rest (p : Parser) : List Token := p.tokens.drop p.pos

/-- The token at the cursor; behind the last token that is the last token again. -/
def current? (p : Parser) : Option Token := p.rest.head? <|> p.tokens.getLast?

def atEnd (p : Parser) : Bool :=
  match p.rest with
  | [] => true
  | t :: _ => t.kind = .endOfInput

def check (p : Parser) (kind : TokenKind) : Bool :=
  match p.rest with
  | [] => false
  | t :: _ => t.kind ≠ .endOfInput && t.kind = kind

/-- Reads the current token. The cursor does not leave the end of the input. -/
def advance (p : Parser) : Stepped Token :=
  match p.current? with
  | none => (.error .noToken, p)
  | some t => (.ok t, if p.atEnd then p else { p with pos := p.pos + 1 })

def closes (p : Parser) : Option Delimiter → Bool
  | none => false
  | some d => p.check (.closer d)

def enter (p : Parser) : Parser := { p with depth := p.depth + 1 }

def leave (p : Parser) : Parser := { p with depth := p.depth - 1 }

end Parser

namespace Drive

mutual

def elements : Nat → Option Delimiter → Parser → Stepped (List Node)
  | 0, _, p => (.ok [], p)
  | n + 1, inside, p =>
    if p.atEnd || p.closes inside then (.ok [], p)
    else (element n p).andThen fun found p =>
      (elements n inside p).andThen fun nodes p => (.ok (found.toList ++ nodes), p)

def element : Nat → Parser → Stepped (Option Node)
  | 0, p => p.advance.andThen fun _ p => (.ok none, p)
  | n + 1, p =>
    match p.current? with
    | none => (.error .noToken, p)
    | some t =>
      match t.kind with
      | .command => (command n p).andThen fun node p => (.ok (some node), p)
      | .opener _ => (group n p).andThen fun nodes p => (.ok (some (.group nodes)), p)
      | _ => p.advance.andThen fun t p => (.ok t.leaf?, p)

def command : Nat → Parser → Stepped Node
  | 0, p => p.advance.andThen fun t p => (.ok (.command t.content [] []), p)
  | n + 1, p =>
    p.advance.andThen fun t p =>
      (groups n .bracket p).andThen fun optional p =>
        (groups n .brace p).andThen fun required p =>
          (.ok (.command t.content (required.map packArgument) optional.flatten), p)

def groups : Nat → Delimiter → Parser → Stepped (List (List Node))
  | 0, _, p => (.ok [], p)
  | n + 1, d, p =>
    if p.check (.opener d) then
      (group n p).andThen fun first p =>
        (groups n d p).andThen fun others p => (.ok (first :: others), p)
    else (.ok [], p)

def group : Nat → Parser → Stepped (List Node)
  | 0, p => p.advance.andThen fun _ p => (.ok [], p)
  | n + 1, p =>
    p.advance.andThen fun t p =>
      match t.kind with
      | .opener d =>
        if p.limit ≤ p.depth then (.error (.parse (.tooDeep p.limit d t)), p)
        else (elements n (some d) p.enter).andThen fun nodes p =>
          if p.leave.check (.closer d) then p.leave.advance.andThen fun _ p => (.ok nodes, p)
          else (.error (.parse (.unclosed d t)), p.leave)
      | kind => (.error (.opensNoGroup kind), p)

end

end Drive

namespace Parser

def element (p : Parser) : Stepped (Option Node) := Drive.element (fuel p.tokens) p

def command (p : Parser) : Stepped Node := Drive.command (fuel p.tokens) p

def group (p : Parser) : Stepped (List Node) := Drive.group (fuel p.tokens) p

def answer : Stepped (List Node) → Stepped (Except ParseError Node)
  | (.ok nodes, p) => (.ok (.ok (.group nodes)), p)
  | (.error (.parse e), p) => (.ok (.error e), p)
  | (.error e, p) => (.error e, p)

def parse (p : Parser) : Stepped (Except ParseError Node) :=
  answer (Drive.elements (fuel p.tokens) none (start p.tokens p.limit))

end Parser

end TexHtml
