import TexHtml.Disk.Basic
import TexHtml.Fault.Basic
import TexHtml.Text.Encoding
import TexHtml.Text.Lines
import TexHtml.Value.Basic

/-!
Files of text in a given encoding. The encoding comes from the settings, so it may be anything, and
what it means is up to the codecs at hand.
-/

namespace TexHtml.TextFile

open Text

def encodingName : Value → Except Misuse String
  | .str s => if s.toList.contains (Char.ofNat 0) then .error .nullInName else .ok s
  | v => .error (.notEncoding v.typeName)

/-- The text of a file, every line end as a newline. The file is looked for before the encoding is.
-/
def read (codecs : Codecs) (disk : Disk) (path : String) (encoding : Value) :
    Except Fault String := do
  let name ← (encodingName encoding).mapError .misuse
  let octets ← (disk.read path).mapError .file
  let codec ← (codecs name).mapError .codec
  let text ← (codec.decode octets).mapError .codec
  return String.ofList (unifyNewlines text)

/-- Writes a file. It is emptied before the text is encoded, so a text that cannot be encoded leaves
an empty file. -/
def write (codecs : Codecs) (disk : Disk) (path : String) (encoding : Value) (text : String) :
    Disk × Except Fault Unit :=
  match encodingName encoding with
  | .error e => (disk, .error (.misuse e))
  | .ok name =>
    match disk.write path [] with
    | .error e => (disk, .error (.file e))
    | .ok emptied =>
      match codecs name with
      | .error e => (emptied, .error (.codec e))
      | .ok codec =>
        match codec.encode text.toList with
        | .error e => (emptied, .error (.codec e))
        | .ok octets =>
          match emptied.write path octets with
          | .error e => (emptied, .error (.file e))
          | .ok written => (written, .ok ())

def isReadFailure : Fault → Bool
  | .file (.system _ _) => true
  | .codec (.undecodable _ _ _ _ _) => true
  | _ => false

def isWriteFailure : Fault → Bool
  | .file (.system _ _) => true
  | .codec (.unencodable _ _ _ _ _) => true
  | _ => false

end TexHtml.TextFile
