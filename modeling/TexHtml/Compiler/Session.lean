import TexHtml.Value.Outline

namespace TexHtml

inductive Call where
  | compile (source : Value)
  | parse (source : Value)
  | parseResult (source : Value)
  | validate (source : Value)
  | outline (source : Value)
  | stats

inductive Answer where
  | html (result : Except Fault String)
  | document (result : Except Fault Node)
  | parsed (result : Except Fault (Except ParseError Node))
  | report (result : Except Fault Report)
  | outline (result : Except Fault Value)
  | stats (stats : Stats)

namespace Compiler

def answer (c : Compiler) : Call → Answer × Compiler
  | .compile source => Prod.map .html id (c.compile source)
  | .parse source => Prod.map .document id (c.parse source)
  | .parseResult source => Prod.map .parsed id (c.parseResult source)
  | .validate source => Prod.map .report id (c.validate source)
  | .outline source => Prod.map .outline id (c.outline source)
  | .stats => (.stats c.stats, c)

def answers (c : Compiler) : List Call → List Answer × Compiler
  | [] => ([], c)
  | call :: rest =>
    let (answer, c) := c.answer call
    let (others, c) := c.answers rest
    (answer :: others, c)

end Compiler

end TexHtml
