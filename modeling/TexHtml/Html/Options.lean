import TexHtml.Html.Render
import TexHtml.Value.Access

namespace TexHtml.Html

def mathScript : String :=
  "\n<script src=\"https://polyfill.io/v3/polyfill.min.js?features=es6\"></script>\n" ++
  "<script id=\"MathJax-script\" async " ++
  "src=\"https://cdn.jsdelivr.net/npm/mathjax@3/es5/tex-mml-chtml.js\"></script>\n" ++
  "<script>\nwindow.MathJax = \x7b\n  tex: \x7b\n    inlineMath: [['$', '$']],\n" ++
  "    displayMath: [['$$', '$$']]\n  \x7d\n\x7d;\n</script>\n"

structure Options where
  escaping : Bool
  injecting : Bool
  script : Value

namespace Options

def default : Options := ⟨true, true, .str mathScript⟩

def ofEntries (entries : Entries) : Options :=
  ⟨((entries.find? "escape_html").map Value.truthy).getD true,
   ((entries.find? "inject_math_script").map Value.truthy).getD true,
   (entries.find? "math_script").getD (.str mathScript)⟩

def ofValue (v : Value) : Except Misuse Options :=
  if !v.truthy then .ok default
  else
    match v with
    | .table entries => .ok (ofEntries entries)
    | v => .error (.lacksMember v.typeName "get")

end Options

def renderDocument (options : Options) (document : Node) : Except Misuse String :=
  let html := render options.escaping document
  if !options.injecting then .ok html
  else
    match options.script with
    | .str script => .ok (injectScript script html)
    | v => .error v.additionFault

end TexHtml.Html
