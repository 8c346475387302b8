import MarcPath.Item
import MarcPath.Path.Induction
import MarcPath.Workspace.Command
import MarcPath.Document.Editor
import MarcPath.Proofs.Outcome
import MarcPath.Proofs.Ask
import MarcPath.Proofs.RoundTrip
import MarcPath.Proofs.Depth
import MarcPath.Proofs.Record
import MarcPath.Proofs.Serialise
import MarcPath.Proofs.Legible
import MarcPath.Proofs.Joined
import MarcPath.Proofs.Composed
import MarcPath.Proofs.Single
import MarcPath.Proofs.Join
import MarcPath.Proofs.Comparison
import MarcPath.Proofs.Grown
import MarcPath.Proofs.Store
import MarcPath.Proofs.View
import MarcPath.Proofs.Intern
import MarcPath.Proofs.Create
import MarcPath.Proofs.Addition
import MarcPath.Proofs.Reachable
import MarcPath.Proofs.Frame
import MarcPath.Proofs.Encoding
import MarcPath.Proofs.Subterm
import MarcPath.Proofs.Hover
import MarcPath.Proofs.Backstop
import MarcPath.Proofs.Acceptance
import MarcPath.Proofs.Trace
import MarcPath.Proofs.Indicators
import MarcPath.Proofs.Absent
import MarcPath.Proofs.Cut
import MarcPath.Proofs.Spelling
import MarcPath.Proofs.Escape
import MarcPath.Proofs.Position
import MarcPath.Proofs.Grammar
import MarcPath.Proofs.Language
import MarcPath.Proofs.Inside
import MarcPath.Proofs.Recomposed
import MarcPath.Proofs.LineEnding
