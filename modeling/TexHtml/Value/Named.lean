import TexHtml.Fault.Misuse
import TexHtml.Value.Basic

namespace TexHtml

def Value.namedOptions (operation : String) (v : Value) : Except Misuse Entries :=
  match v with
  | .table entries => .ok entries
  | v => .error (.keywordsNotMapping operation v.typeName)

namespace Entries

def names (options : Entries) : Except Misuse (List String) :=
  match options.mapM fun e => e.1.str? with
  | some names => .ok names
  | none => .error .keywordType

def checkNames (options : Entries) (operation : String) (taken : List String) :
    Except Misuse Unit :=
  match options.names with
  | .error e => .error e
  | .ok names =>
    match names.find? taken.contains with
    | none => .ok ()
    | some name => .error (.repeatedName operation name)

end Entries

end TexHtml
