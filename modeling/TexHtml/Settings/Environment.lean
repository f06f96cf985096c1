import TexHtml.Fault.FileError

namespace TexHtml

abbrev Environment := List (String × String)

namespace Environment

def get? (env : Environment) (name : String) : Option String := env.lookup name

def put (env : Environment) (name value : String) : Environment :=
  match env with
  | [] => [(name, value)]
  | (n, v) :: rest => if n = name then (n, value) :: rest else (n, v) :: put rest name value

def ofPairs (pairs : List (String × String)) : Environment :=
  pairs.foldl (fun env p => put env p.1 p.2) []

def hasNull (s : String) : Bool := s.toList.contains (Char.ofNat 0)

def refusal? (name value : String) : Option FileError :=
  if hasNull name || hasNull value then some .embeddedNull
  else if name = "" then some (.system .invalidArgument none)
  else none

/-- Sets one variable after another unless it is set already, up to the first that cannot be set. -/
def adopt (env : Environment) : List (String × String) → Environment × Except FileError Unit
  | [] => (env, .ok ())
  | (name, value) :: rest =>
    if (env.get? name).isSome then adopt env rest
    else
      match refusal? name value with
      | some e => (env, .error e)
      | none => adopt (env ++ [(name, value)]) rest

end Environment

end TexHtml
