import TexHtml.Compiler.Session
import TexHtml.Document.Parser
import TexHtml.Main
import TexHtml.Proofs.Accounting
import TexHtml.Proofs.AuthorAttribute
import TexHtml.Proofs.Comments
import TexHtml.Proofs.Contents
import TexHtml.Proofs.Coordinates
import TexHtml.Proofs.DropIns
import TexHtml.Proofs.Escaping
import TexHtml.Proofs.Expansion
import TexHtml.Proofs.FailedRuns
import TexHtml.Proofs.Fragment
import TexHtml.Proofs.IllegibleFiles
import TexHtml.Proofs.JsonLayouts
import TexHtml.Proofs.JsonReading
import TexHtml.Proofs.JsonText
import TexHtml.Proofs.Keys
import TexHtml.Proofs.Layering
import TexHtml.Proofs.Loading
import TexHtml.Proofs.LogFiles
import TexHtml.Proofs.LoggerLevels
import TexHtml.Proofs.LoggerSetup
import TexHtml.Proofs.LoggerTables
import TexHtml.Proofs.Lookup
import TexHtml.Proofs.Lossless
import TexHtml.Proofs.Markup
import TexHtml.Proofs.Nesting
import TexHtml.Proofs.NewlineJoin
import TexHtml.Proofs.Occurrence
import TexHtml.Proofs.OutlineText
import TexHtml.Proofs.Paths
import TexHtml.Proofs.Placeholders
import TexHtml.Proofs.Placement
import TexHtml.Proofs.PlainText
import TexHtml.Proofs.Relocation
import TexHtml.Proofs.Rendering
import TexHtml.Proofs.Reprinting
import TexHtml.Proofs.ScriptPlace
import TexHtml.Proofs.Session
import TexHtml.Proofs.StackScan
import TexHtml.Proofs.StepOutcome
import TexHtml.Proofs.Substitution
import TexHtml.Proofs.TreeDepth
import TexHtml.Proofs.UnknownCommands
import TexHtml.Proofs.Utf8
import TexHtml.Proofs.VariableFiles
import TexHtml.Proofs.Variables
import TexHtml.Proofs.Visiting
import TexHtml.Token.Scanner
