import Stencil.Text.Blank
import Stencil.Entries
import Stencil.Token.Lexer
import Stencil.Construct
import Stencil.Diagnostic
import Stencil.Node.Parser
import Stencil.Decimal.Shortest
import Stencil.Decimal.Reading
import Stencil.Expr.Parser
import Stencil.MetaBlock
import Stencil.Path
import Stencil.Digest
import Stencil.Scopes
import Stencil.Render
import Stencil.Template
import Stencil.CommandLine
import Stencil.Surroundings
import Stencil.Main
import Stencil.Shell.Command
import Stencil.Shell.Command.Lexer
import Stencil.Shell.Command.Parser
import Stencil.Shell.State
import Stencil.Shell.Pattern
import Stencil.Shell.Arithmetic
import Stencil.Shell.Expansion
import Stencil.Shell.Format
import Stencil.Shell.Builtin
import Stencil.Shell.Run
import Stencil.Shell.Execution
import Stencil.Shell.Utility.Lines
import Stencil.Shell.Utility.Selection
import Stencil.Shell.Regex
import Stencil.Shell.Utility.Grep
import Stencil.Shell.Utility.Edit.Script
import Stencil.Shell.Utility.Arguments
import Stencil.Shell.Utility.Find
import Stencil.Shell.Utility.Compare
import Stencil.Shell.Utility.Words
import Stencil.Proofs.Grammar
import Stencil.Proofs.Forming
import Stencil.Proofs.Parsing
import Stencil.Proofs.Node
import Stencil.Proofs.Placement
import Stencil.Proofs.Action
import Stencil.Proofs.Analysis
import Stencil.Proofs.Configuration
import Stencil.Proofs.Import
import Stencil.Proofs.Effects
import Stencil.Proofs.Descent
import Stencil.Proofs.Inheritance
import Stencil.Proofs.Path
import Stencil.Proofs.Cycle
import Stencil.Proofs.Splicing
import Stencil.Proofs.Layout
import Stencil.Proofs.Order
import Stencil.Proofs.Pinning
import Stencil.Proofs.Rendering
import Stencil.Proofs.Visits
import Stencil.Proofs.Scopes
import Stencil.Proofs.Deeds
import Stencil.Proofs.Frame
import Stencil.Proofs.Variables
import Stencil.Proofs.Confinement
import Stencil.Proofs.Failing
import Stencil.Proofs.Bodies
import Stencil.Proofs.Naming
import Stencil.Proofs.Origins
import Stencil.Proofs.Tower
import Stencil.Proofs.Lines
import Stencil.Proofs.Reading
import Stencil.Proofs.Commenting
import Stencil.Proofs.Blindness
import Stencil.Proofs.Erasure
import Stencil.Proofs.Destination
import Stencil.Proofs.Extraction
import Stencil.Proofs.Attribution
import Stencil.Proofs.Escaping
import Stencil.Proofs.Calculating
import Stencil.Proofs.Provenance
import Stencil.Proofs.Stripping
import Stencil.Proofs.Rows
import Stencil.Proofs.Balance
import Stencil.Proofs.Leaves
import Stencil.Proofs.Substitution
import Stencil.Proofs.Interpolation
import Stencil.Proofs.Literal
import Stencil.Proofs.Trail
import Stencil.Proofs.Heading
import Stencil.Proofs.Dispatch
import Stencil.Proofs.Arena
import Stencil.Proofs.Guarded
import Stencil.Proofs.Invocation
import Stencil.Proofs.Scanning
