import TexHtml.Document.ParseError
import TexHtml.Node.Basic

/-!
Reading tokens as a document, by recursive descent with one token of lookahead:

    document := element*
    element  := command | text | math | newline | group
    command  := name ('[' element* ']')* ('{' element* '}')*

A closing delimiter that closes nothing is skipped. The reading functions take the tokens that are
left and return those behind what they read. Their first argument bounds the number of nested calls;
`fuel` is enough for any list of tokens.
-/

namespace TexHtml

namespace TokenKind

def closes (kind : TokenKind) (inside : Option Delimiter) : Bool :=
  match inside with
  | none => false
  | some d => kind = .closer d

end TokenKind

structure Stop where
  error : ParseError
  rest : List Token
  depth : Int

inductive Parsed (α : Type) where
  | ok (value : α) (rest : List Token)
  | stopped (stop : Stop)

namespace Parsed

variable {α β : Type}

def andThen (r : Parsed α) (f : α → List Token → Parsed β) : Parsed β :=
  match r with
  | ok value rest => f value rest
  | stopped stop => stopped stop

@[simp] theorem ok_andThen (value : α) (rest : List Token) (f : α → List Token → Parsed β) :
    (ok value rest).andThen f = f value rest := rfl

@[simp] theorem stopped_andThen (stop : Stop) (f : α → List Token → Parsed β) :
    (stopped stop : Parsed α).andThen f = stopped stop := rfl

end Parsed

/-- The argument for the elements of a pair of braces: one element stands for itself. -/
def packArgument : List Node → Node
  | [] => .text ""
  | [n] => n
  | ns => .group ns

def Token.leaf? (t : Token) : Option Node :=
  match t.kind with
  | .text => some (.text t.content)
  | .math display => some (.math t.content display)
  | .newline => some (.text " ")
  | _ => none

namespace Parse

def endGroup (d : Delimiter) (depth : Int) (opener : Token) (nodes : List Node) :
    List Token → Parsed (List Node)
  | [] => .stopped ⟨.unclosed d opener, [], depth⟩
  | t :: ts =>
    if t.kind = .closer d then .ok nodes ts else .stopped ⟨.unclosed d opener, t :: ts, depth⟩

mutual

def elements (limit : Int) :
    Nat → Option Delimiter → Int → List Token → Parsed (List Node)
  | 0, _, _, ts => .ok [] ts
  | _ + 1, _, _, [] => .ok [] []
  | n + 1, inside, depth, t :: ts =>
    if t.kind = .endOfInput || t.kind.closes inside then .ok [] (t :: ts)
    else (element limit n depth t ts).andThen fun found rest =>
      (elements limit n inside depth rest).andThen fun nodes rest =>
        .ok (found.toList ++ nodes) rest

def element (limit : Int) : Nat → Int → Token → List Token → Parsed (Option Node)
  | 0, _, _, ts => .ok none ts
  | n + 1, depth, t, ts =>
    match t.kind with
    | .command => (command limit n depth t.content ts).andThen fun node rest => .ok (some node) rest
    | .opener d => (group limit n d depth t ts).andThen fun nodes rest =>
        .ok (some (.group nodes)) rest
    | _ => .ok t.leaf? ts

def command (limit : Int) : Nat → Int → String → List Token → Parsed Node
  | 0, _, name, ts => .ok (.command name [] []) ts
  | n + 1, depth, name, ts =>
    (groups limit n .bracket depth ts).andThen fun optional rest =>
      (groups limit n .brace depth rest).andThen fun required rest =>
        .ok (.command name (required.map packArgument) optional.flatten) rest

def groups (limit : Int) :
    Nat → Delimiter → Int → List Token → Parsed (List (List Node))
  | 0, _, _, ts => .ok [] ts
  | _ + 1, _, _, [] => .ok [] []
  | n + 1, d, depth, t :: ts =>
    if t.kind = .opener d then
      (group limit n d depth t ts).andThen fun first rest =>
        (groups limit n d depth rest).andThen fun others rest => .ok (first :: others) rest
    else .ok [] (t :: ts)

def group (limit : Int) :
    Nat → Delimiter → Int → Token → List Token → Parsed (List Node)
  | 0, _, _, _, ts => .ok [] ts
  | n + 1, d, depth, opener, ts =>
    if limit ≤ depth then .stopped ⟨.tooDeep limit d opener, ts, depth⟩
    else (elements limit n (some d) (depth + 1) ts).andThen (endGroup d depth opener)

end

end Parse

/-- More nested calls than reading `ts` can need. -/
def fuel (ts : List Token) : Nat := 4 * (ts.length + 1)

def nestingLimit : Int := 100

def parseAll (ts : List Token) (limit : Int) : Parsed (List Node) :=
  Parse.elements limit (fuel ts) none 0 ts

def parse (ts : List Token) (limit : Int) : Except ParseError Node :=
  match parseAll ts limit with
  | .ok nodes _ => .ok (.group nodes)
  | .stopped stop => .error stop.error

end TexHtml
