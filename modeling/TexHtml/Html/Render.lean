import TexHtml.Node.Basic
import TexHtml.Token.Basic

namespace TexHtml.Html

/-- Characters with a meaning in HTML and the entities that stand for them. The ampersand comes
first, so that no entity is escaped again. -/
def entities : List (Char × String) :=
  [('&', "&amp;"), ('<', "&lt;"), ('>', "&gt;"), ('"', "&quot;"), ('\'', "&#39;")]

def replaceChar (c : Char) (replacement s : List Char) : List Char :=
  s.flatMap fun x => if x = c then replacement else [x]

def escape (s : String) : String :=
  String.ofList (entities.foldl (fun t e => replaceChar e.1 e.2.toList t) s.toList)

def fixedCommands : List (String × String) :=
  [("documentclass", "<!DOCTYPE html>\n<html>\n<head>\n<meta charset=\"UTF-8\">\n"),
   ("item", "<li>"),
   ("maketitle", "<div class=\"title-page\">\n"),
   ("par", "<p>"),
   (lineBreakName, "<br>\n")]

def wrappingCommands : List (String × String × String) :=
  [("title", "<title>", "</title>\n"),
   ("section", "<h1>", "</h1>\n"),
   ("subsection", "<h2>", "</h2>\n"),
   ("subsubsection", "<h3>", "</h3>\n"),
   ("textbf", "<strong>", "</strong>"),
   ("textit", "<em>", "</em>"),
   ("texttt", "<code>", "</code>")]

def specialCommands : List String := ["author", "begin", "end"]

def openingTags : List (String × String) :=
  [("document", "</head>\n<body>\n"),
   ("itemize", "<ul>\n"),
   ("enumerate", "<ol>\n"),
   ("center", "<div style=\"text-align: center;\">\n")]

def closingTags : List (String × String) :=
  [("document", "\n</body>\n</html>"),
   ("itemize", "</ul>\n"),
   ("enumerate", "</ol>\n")]

def isKnownCommand (name : String) : Bool :=
  (fixedCommands.lookup name).isSome || (wrappingCommands.lookup name).isSome ||
    specialCommands.contains name

def beginEnvironment (name : String) : String :=
  match openingTags.lookup name with
  | some tags => tags
  | none => "<div class=\"" ++ escape name ++ "\">\n"

def endEnvironment (name : String) : String := (closingTags.lookup name).getD "</div>\n"

/-- The content of math is left as it is, for a script to typeset. -/
def math (content : String) (display : Bool) : String :=
  if display then "<div class=\"math-display\">$$" ++ content ++ "$$</div>"
  else "<span class=\"math-inline\">$" ++ content ++ "$</span>"

def unknownCommand (name : String) : String := "<!-- Unknown command: " ++ name ++ " -->"

def command (name : String) (argument : Option (String × String)) : String :=
  match fixedCommands.lookup name with
  | some html => html
  | none =>
    match wrappingCommands.lookup name, argument with
    | some (opening, closing), some (html, _) => opening ++ html ++ closing
    | some _, none => ""
    | none, argument =>
      if specialCommands.contains name then
        match argument with
        | none => ""
        | some (html, literal) =>
          if name = "author" then "<meta name=\"author\" content=\"" ++ html ++ "\">\n"
          else if name = "begin" then beginEnvironment literal
          else endEnvironment literal
      else unknownCommand name

mutual

def render (escaping : Bool) : Node → String
  | .text content => if escaping then escape content else content
  | .math content display => math content display
  | .group children => String.join (renderAll escaping children)
  | .command name required _ => command name (renderFirst escaping required)
  | .foreign typeName _ => "<!-- Unknown node type: " ++ typeName ++ " -->"

def renderAll (escaping : Bool) : List Node → List String
  | [] => []
  | n :: rest => render escaping n :: renderAll escaping rest

def renderFirst (escaping : Bool) : List Node → Option (String × String)
  | [] => none
  | n :: _ => some (render escaping n, n.literalText)

end

def headClose : String := "</head>"

def insertBefore? (mark script : List Char) : List Char → Option (List Char)
  | [] => if mark.isEmpty then some script else none
  | c :: rest =>
    if mark.isPrefixOf (c :: rest) then some (script ++ c :: rest)
    else (insertBefore? mark script rest).map (c :: ·)

def injectScript (script html : String) : String :=
  match insertBefore? headClose.toList script.toList html.toList with
  | some cs => String.ofList cs
  | none => script ++ html

end TexHtml.Html
