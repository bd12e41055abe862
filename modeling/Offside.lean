import Offside.Compilation.Session
import Offside.Main
import Offside.Proofs.Compilation.Sessions
import Offside.Proofs.Code.Lowered
import Offside.Proofs.Code.Labels
import Offside.Proofs.Code.Machine
import Offside.Proofs.Code.Behavior
import Offside.Proofs.Code.ControlFlow
import Offside.Proofs.Grammar.Reading
import Offside.Proofs.Grammar.Derivation
import Offside.Proofs.Grammar.Extension
import Offside.Proofs.Grammar.Soundness
import Offside.Proofs.Grammar.Completeness
import Offside.Proofs.Grammar.Recognition
import Offside.Proofs.Code.Evaluation
import Offside.Proofs.Code.EvaluationOrder
import Offside.Proofs.Grammar.Nesting
import Offside.Proofs.Grammar.Towers
import Offside.Proofs.Grammar.NestingLimit
import Offside.Proofs.Grammar.Blame
import Offside.Proofs.Source.Positions
import Offside.Proofs.Token.Lexeme
import Offside.Proofs.Token.Enclosure
import Offside.Proofs.Token.Scanning
import Offside.Proofs.Token.Places
import Offside.Proofs.Token.Levels
import Offside.Proofs.Token.Cut
import Offside.Proofs.Token.CutRun
import Offside.Proofs.Token.Stages
import Offside.Proofs.Token.Coverage
import Offside.Proofs.Token.Shape
import Offside.Proofs.Token.Faults
import Offside.Proofs.Token.LineStarts
import Offside.Proofs.Token.Minima
import Offside.Proofs.Token.LineWidths
import Offside.Proofs.Compilation.Lines
import Offside.Proofs.Program.Bare
import Offside.Proofs.Program.Gap
import Offside.Proofs.Code.Reconstruction
import Offside.Proofs.Code.SingleAssignment
import Offside.Proofs.Code.JumpTargets
import Offside.Proofs.Grammar.Sentences
import Offside.Proofs.Grammar.Acceptance
import Offside.Proofs.Grammar.Programs
import Offside.Proofs.Token.CutUnique
import Offside.Proofs.Token.Words
import Offside.Proofs.Token.WrittenLines
import Offside.Proofs.Program.Text
import Offside.Proofs.Program.Levels
import Offside.Proofs.Grammar.Spelling
import Offside.Proofs.Program.Layout
import Offside.Proofs.Grammar.Takes
import Offside.Proofs.Grammar.Rereading
import Offside.Proofs.Grammar.RoundTrip
import Offside.Proofs.Token.Literals
import Offside.Proofs.Token.Ascending
import Offside.Proofs.Program.Assignments
import Offside.Proofs.Grammar.Spans
import Offside.Proofs.Grammar.Signs
import Offside.Proofs.Code.Assignments
import Offside.Proofs.Program.Recast
import Offside.Proofs.Grammar.Mirroring
import Offside.Proofs.Grammar.Classes
import Offside.Proofs.Token.Formatted
import Offside.Proofs.Code.Likeness
import Offside.Proofs.Compilation.Formatting
import Offside.Proofs.Program.Visits
import Offside.Proofs.Code.Misplacement
import Offside.Proofs.Code.WellFormed
import Offside.Proofs.Code.Separation
import Offside.Proofs.Compilation.ErrorPlaces
import Offside.Proofs.Token.LineEndings
import Offside.Proofs.Compilation.LineEndings
import Offside.Proofs.Compilation.OutlineText
import Offside.Proofs.Compilation.ListingText
import Offside.Proofs.Program.Parts
import Offside.Proofs.Program.Numbering
import Offside.Proofs.Grammar.Limits
import Offside.Proofs.Program.Nodes
import Offside.Proofs.Token.Rows
import Offside.Proofs.Grammar.SpanTree
import Offside.Proofs.Grammar.Excerpts
import Offside.Proofs.Grammar.Readings
import Offside.Proofs.Grammar.Enclosing
import Offside.Proofs.Grammar.Delimiting
import Offside.Proofs.Grammar.Lookahead
import Offside.Proofs.Grammar.Restoring
import Offside.Proofs.Grammar.Termination
import Offside.Proofs.Token.LongestMatch
import Offside.Proofs.Token.Moves
import Offside.Proofs.Token.NumberRuns
import Offside.Proofs.Token.StringItems
import Offside.Proofs.Token.Driving
import Offside.Proofs.Compilation.StringConstants
import Offside.Proofs.Source.Lines
import Offside.Proofs.Token.Shifting
import Offside.Proofs.Token.Seams
import Offside.Proofs.Token.EmptyLines
import Offside.Proofs.Token.Joining
import Offside.Proofs.Token.TabWidths
import Offside.Proofs.Compilation.Snippets
import Offside.Proofs.Source.LineTable
import Offside.Proofs.Token.LevelHistory
import Offside.Proofs.Token.Margins
