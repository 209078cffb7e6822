import SyntaxCheck.Position
import SyntaxCheck.Token.Kind
import SyntaxCheck.Token.Basic
import SyntaxCheck.Text.Blank
import SyntaxCheck.Text.Visible
import SyntaxCheck.Text.Quoted
import SyntaxCheck.Text.Lines
import SyntaxCheck.Diagnostic.Basic
import SyntaxCheck.Diagnostic.Excerpt
import SyntaxCheck.Token.Scan
import SyntaxCheck.Token.Source
import SyntaxCheck.Grammar.Rule
import SyntaxCheck.Grammar.Event
import SyntaxCheck.Grammar.Run
import SyntaxCheck.Grammar.Recognize
import SyntaxCheck.Report.Trace
import SyntaxCheck.Report.Tree
import SyntaxCheck.Report.Builder
import SyntaxCheck.Report.Signal
import SyntaxCheck.Report.Recognition
import SyntaxCheck.Cli.Arguments
import SyntaxCheck.Cli.Session
import SyntaxCheck.Main
import SyntaxCheck.Proofs.Runs
import SyntaxCheck.Proofs.Grammar
import SyntaxCheck.Proofs.Sequences
import SyntaxCheck.Proofs.Soundness
import SyntaxCheck.Proofs.Completeness
import SyntaxCheck.Proofs.Consumption
import SyntaxCheck.Proofs.Programs
import SyntaxCheck.Proofs.FailFast
import SyntaxCheck.Proofs.Locality
import SyntaxCheck.Proofs.Shapes
import SyntaxCheck.Proofs.ViablePrefixes
import SyntaxCheck.Proofs.Brackets
import SyntaxCheck.Proofs.Leniency
import SyntaxCheck.Proofs.Excerpts
import SyntaxCheck.Proofs.Streams
import SyntaxCheck.Proofs.Termination
import SyntaxCheck.Proofs.TreeBuilding
import SyntaxCheck.Proofs.ErrorLayout
import SyntaxCheck.Proofs.CommandLine
import SyntaxCheck.Proofs.CharacterBoundaries
