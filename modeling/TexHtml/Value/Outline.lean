import TexHtml.Compiler.Basic

namespace TexHtml

namespace Value

def record (fields : List (String × Value)) : Value :=
  .table (fields.map fun f => (.str f.1, f.2))

def texts (items : List String) : Value := .list (items.map .str)

end Value

namespace Node

mutual

def outline : Node → Value
  | text content => .record [("type", .str "text"), ("content", .str content)]
  | math content display =>
    .record [("type", .str "math"), ("content", .str content), ("display_mode", .bool display)]
  | group children => .record [("type", .str "group"), ("children", .list (outlines children))]
  | command name required optional =>
    .record [("type", .str "command"), ("name", .str name),
      ("required_args", .list (outlines required)), ("optional_args", .list (outlines optional))]
  | foreign typeName _ => .record [("type", .str "foreign"), ("class", .str typeName)]

def outlines : List Node → List Value
  | [] => []
  | n :: rest => outline n :: outlines rest

end

end Node

def Compiler.outline (c : Compiler) (source : Value) : Except Fault Value × Compiler :=
  match c.parse source with
  | (.error e, c) => (.error e, c)
  | (.ok document, c) => (.ok document.outline, c)

namespace Stats

def outline (s : Stats) : Value :=
  .record [("tokens_processed", .int s.tokens), ("nodes_created", .int s.nodes),
    ("max_depth", .int s.depth), ("unknown_commands", .texts s.unknown),
    ("errors", .texts s.errors)]

end Stats

namespace Report

def outline (r : Report) : Value :=
  .record [("valid", .bool r.valid), ("errors", .texts r.errors),
    ("warnings", .texts r.warnings), ("stats", r.stats.outline)]

end Report

end TexHtml
