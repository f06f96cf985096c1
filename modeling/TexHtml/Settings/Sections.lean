import TexHtml.Fault.Basic
import TexHtml.Settings.Merge
import TexHtml.Value.Text

namespace TexHtml.Settings

def sectionOf (settings : Entries) (name : String) : Value :=
  (settings.find? name).getD (.table [])

def compilerOptions (settings : Entries) : Except Fault Entries :=
  match sectionOf settings "compiler" with
  | .table entries =>
    let flag (name : String) : Value :=
      .bool (((Entries.find? entries name).map Value.truthy).getD true)
    let flags : Entries :=
      [(.str "inject_math_script", flag "inject-math-script"),
       (.str "escape_html", flag "escape-html")]
    match Entries.find? entries "math-script" with
    | none => .ok flags
    | some v =>
      match v.text with
      | .ok script => .ok (flags ++ [(.str "math_script", .str script)])
      | .error e => .error (.digits e)
  | v => .error (.misuse (.lacksMember v.typeName "get"))

def outputOptions (settings : Entries) : Except Misuse Entries :=
  match sectionOf settings "output" with
  | .table entries => .ok (.ofPairs ((.str "encoding", .str "utf-8") :: entries))
  | v => .error (.notMapping v.typeName)

def defaultLogging : Entries :=
  [(.str "level", .str "WARNING"), (.str "console", .bool true),
   (.str "format", .str "%(levelname)s: %(message)s")]

def loggingOptions (settings : Entries) : Except Misuse Entries :=
  match sectionOf settings "logging" with
  | .table entries => .ok (merge defaultLogging entries)
  | v => .error (.lacksMember v.typeName "items")

end TexHtml.Settings
