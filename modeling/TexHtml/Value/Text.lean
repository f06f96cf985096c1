import TexHtml.Number.Integer
import TexHtml.Value.Basic

namespace TexHtml

namespace Value

/-- Parts in brackets, with a comma behind a single part if `lone` holds. -/
def bracketed (opening closing : String) (lone : Bool) (parts : List String) : String :=
  match lone, parts with
  | true, [one] => opening ++ one ++ "," ++ closing
  | _, _ => opening ++ ", ".intercalate parts ++ closing

mutual

def expression : Value → Except DigitError String
  | null => .ok "None"
  | bool b => .ok (Node.boolName b)
  | int n => integerText n
  | float x => .ok x.text
  | str s => .ok (Text.quoted s)
  | bytes octets => .ok (Text.quotedBytes octets)
  | list items => (expressions items).map (bracketed "[" "]" false)
  | tuple items => (expressions items).map (bracketed "(" ")" true)
  | table entries => (entryExpressions entries).map (bracketed "\x7b" "\x7d" false)
  | node n => .ok n.describe
  | date d => .ok d.expression
  | time t => .ok t.expression
  | dateTime m => .ok m.expression

def expressions : List Value → Except DigitError (List String)
  | [] => .ok []
  | v :: rest => do return (← expression v) :: (← expressions rest)

def entryExpressions : List (Value × Value) → Except DigitError (List String)
  | [] => .ok []
  | (k, v) :: rest => do
    return ((← expression k) ++ ": " ++ (← expression v)) :: (← entryExpressions rest)

end

def text : Value → Except DigitError String
  | str s => .ok s
  | date d => .ok d.text
  | time t => .ok t.text
  | dateTime m => .ok m.text
  | v => v.expression

end Value

end TexHtml
