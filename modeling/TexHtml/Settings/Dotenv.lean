import TexHtml.Disk.Basic
import TexHtml.Fault.Basic
import TexHtml.Journal.Record
import TexHtml.Settings.Environment
import TexHtml.Text.CharClass
import TexHtml.Text.Lines

namespace TexHtml.Dotenv

def splitAtEquals : List Char → Option (List Char × List Char)
  | [] => none
  | c :: rest =>
    if c = '=' then some ([], rest)
    else (splitAtEquals rest).map fun p => (c :: p.1, p.2)

/-- The variable that a line sets. Blanks around the line, the name and the value are dropped, and
then quotation marks around the value. -/
def assignment? (line : List Char) : Option (String × String) :=
  let line := Text.trim Text.isBlank line
  if line.head? = some '#' then none
  else
    (splitAtEquals line).map fun (name, value) =>
      (String.ofList (Text.trim Text.isBlank name),
       String.ofList (Text.trim (· = '"') (Text.trim Text.isBlank value)))

def read (text : List Char) : Environment := .ofPairs ((Text.lines text).filterMap assignment?)

def journalName : String := "lib.utils"

structure Loading where
  records : List Record
  environment : Environment
  result : Except Fault Environment

def load (disk : Disk) (env : Environment) (path : String) (adopting : Bool) : Loading :=
  if !disk.isFile path then
    ⟨[⟨.debug, journalName, "No dotenv file at " ++ path⟩], env, .ok []⟩
  else
    match disk.read path with
    | .error e => ⟨[], env, .error (.file e)⟩
    | .ok octets =>
      match Text.Utf8.decodeInBlocks octets with
      | .error e => ⟨[], env, .error (.codec e)⟩
      | .ok text =>
        let values := read text
        if adopting then
          match env.adopt values with
          | (env, .ok _) => ⟨[], env, .ok values⟩
          | (env, .error e) => ⟨[], env, .error (.file e)⟩
        else ⟨[], env, .ok values⟩

end TexHtml.Dotenv
