import TexHtml.Compiler.Options
import TexHtml.Document.Parse
import TexHtml.Fault.Basic
import TexHtml.Token.Scan
import TexHtml.Value.Named

namespace TexHtml

structure Stats where
  tokens : Nat
  nodes : Nat
  depth : Nat
  /-- Names of unknown commands, each once, in the order of their first use. -/
  unknown : List String
  errors : List String
  deriving DecidableEq

namespace Stats

def zero : Stats := ⟨0, 0, 0, [], []⟩

end Stats

def distinct (names : List String) : List String :=
  names.foldl (fun seen name => if seen.contains name then seen else seen ++ [name]) []

namespace Node

def unknownName? : Node → Option String
  | command name _ _ => if Html.isKnownCommand name then none else some name
  | _ => none

def unknownCommands (n : Node) : List String := distinct (n.flatten.filterMap unknownName?)

end Node

def readSource (source : String) : Except ParseError Node × Stats :=
  let tokens := tokenize source
  match parse tokens nestingLimit with
  | .ok document =>
    (.ok document,
     ⟨tokens.length, document.flatten.length, document.height, document.unknownCommands, []⟩)
  | .error e => (.error e, ⟨tokens.length, 0, 0, [], [e.message]⟩)

structure Compiler where
  options : Html.Options
  stats : Stats

structure Report where
  valid : Bool
  errors : List String
  warnings : List String
  stats : Stats

namespace Compiler

def create (options : Value) : Except Misuse Compiler :=
  match readOptions options with
  | .ok options => .ok ⟨options, .zero⟩
  | .error e => .error e

/-- Reads a source, which has to be text. Only then do the statistics change. -/
def parseResult (c : Compiler) (source : Value) :
    Except Fault (Except ParseError Node) × Compiler :=
  match source with
  | .str s => (.ok (readSource s).1, { c with stats := (readSource s).2 })
  | _ => (.error (.misuse .notText), c)

def parse (c : Compiler) (source : Value) : Except Fault Node × Compiler :=
  match c.parseResult source with
  | (.error e, c) => (.error e, c)
  | (.ok (.error e), c) => (.error (.parse e), c)
  | (.ok (.ok document), c) => (.ok document, c)

def compile (c : Compiler) (source : Value) : Except Fault String × Compiler :=
  match c.parse source with
  | (.error e, c) => (.error e, c)
  | (.ok document, c) => ((Html.renderDocument c.options document).mapError .misuse, c)

def validate (c : Compiler) (source : Value) : Except Fault Report × Compiler :=
  match c.parseResult source with
  | (.error e, c) => (.error e, c)
  | (.ok result, c) =>
    (.ok ⟨result.toOption.isSome, c.stats.errors,
      c.stats.unknown.map ("Unknown command: " ++ ·), c.stats⟩, c)

end Compiler

def sourceOptions (operation : String) (options : Value) : Except Misuse Entries := do
  let options ← options.namedOptions ("lib.latex.compiler." ++ operation)
  options.checkNames operation ["text"]
  return options

def compileSource (source : Value) (options : Entries) : Except Fault String :=
  match Compiler.create (.table options) with
  | .error e => .error (.misuse e)
  | .ok c => (c.compile source).1

def compileFragment (source : Value) (options : Entries) : Except Fault String :=
  match options.find? "inject_math_script" with
  | some _ => compileSource source options
  | none => compileSource source (options.insert (.str "inject_math_script") (.bool false))

def parseSource (source : Value) (options : Entries) : Except Fault Node :=
  match Compiler.create (.table options) with
  | .error e => .error (.misuse e)
  | .ok c => (c.parse source).1

def validateSource (source : Value) (options : Entries) : Except Fault Report :=
  match Compiler.create (.table options) with
  | .error e => .error (.misuse e)
  | .ok c => (c.validate source).1

end TexHtml
