import FourthGen.Main
import FourthGen.Proofs.Parser.Clean
import FourthGen.Proofs.Parser.Grammar
import FourthGen.Proofs.Parser.CleanRules
import FourthGen.Proofs.Parser.Soundness
import FourthGen.Proofs.Parser.Completeness
import FourthGen.Proofs.Document.Numbering
import FourthGen.Proofs.Document.Store
import FourthGen.Proofs.Parser.Rendering
import FourthGen.Proofs.Server.View
import FourthGen.Proofs.Server.History
import FourthGen.Proofs.Parser.Likeness
import FourthGen.Proofs.Parser.Agreement
import FourthGen.Proofs.Parser.Simulation
import FourthGen.Proofs.Token.Append
import FourthGen.Proofs.Parser.Isolation
import FourthGen.Proofs.Token.Munch
import FourthGen.Proofs.Token.Places
import FourthGen.Proofs.Document.Lines
import FourthGen.Proofs.Document.Offsets
import FourthGen.Proofs.Workspace.Consistency
import FourthGen.Proofs.Parser.Ensures
import FourthGen.Proofs.Parser.Nesting
import FourthGen.Proofs.Parser.Ranges
import FourthGen.Proofs.Server.Answers
import FourthGen.Proofs.Parser.Declarations
import FourthGen.Proofs.Parser.Framing
import FourthGen.Proofs.Symbol.Scope
import FourthGen.Proofs.Symbol.Table
import FourthGen.Proofs.Token.Spacing
import FourthGen.Proofs.Parser.Layout
import FourthGen.Proofs.Parser.CountedRules
import FourthGen.Proofs.Parser.Operations
import FourthGen.Proofs.Parser.Counting
import FourthGen.Proofs.Parser.Descent
import FourthGen.Proofs.Workspace.Independence
import FourthGen.Proofs.Parser.LetterCase
import FourthGen.Proofs.Document.LineBreaks
import FourthGen.Proofs.Parser.Confinement
import FourthGen.Proofs.Parser.Limit
import FourthGen.Proofs.Parser.Skipping
import FourthGen.Proofs.Parser.ErrorOrder
import FourthGen.Proofs.Document.Names
import FourthGen.Proofs.Completion
import FourthGen.Proofs.Document.Clamping
import FourthGen.Proofs.Lint.Matching
import FourthGen.Proofs.Lint.Locality
import FourthGen.Proofs.Lint.Marks
import FourthGen.Proofs.Lint.Calendar
import FourthGen.Proofs.Lint.Apart
import FourthGen.Proofs.Lint.Occurrences
import FourthGen.Proofs.Token.LineFeed
import FourthGen.Proofs.Document.Words
