import Courseware.Compilation
import Courseware.Document.Json
import Courseware.Document.Text
import Courseware.Json.Reader
import Courseware.Library.Directory
import Courseware.Library.Memory
import Courseware.Options.Json
import Courseware.Resource.Json
import Courseware.Resource.Shape
import Courseware.Proofs.Document.Concatenation
import Courseware.Proofs.Document.InnerComments
import Courseware.Proofs.Document.LineEndings
import Courseware.Proofs.Document.Lookahead
import Courseware.Proofs.Document.Paths
import Courseware.Proofs.Document.Unreached
import Courseware.Proofs.Document.Verbatim
import Courseware.Proofs.Evaluation.Dependence
import Courseware.Proofs.Evaluation.Dependencies
import Courseware.Proofs.Evaluation.Depth
import Courseware.Proofs.Evaluation.Diagnostics
import Courseware.Proofs.Evaluation.Failures
import Courseware.Proofs.Evaluation.Growth
import Courseware.Proofs.Evaluation.Inlining
import Courseware.Proofs.Evaluation.Ledger
import Courseware.Proofs.Evaluation.MadeVariables
import Courseware.Proofs.Evaluation.Nesting
import Courseware.Proofs.Evaluation.Protocol
import Courseware.Proofs.Evaluation.Rearrangement
import Courseware.Proofs.Evaluation.SourceOrder
import Courseware.Proofs.Grammar.RepeatedKeys
import Courseware.Proofs.Library.Agreement
import Courseware.Proofs.Library.Latest
import Courseware.Proofs.Library.Writes
import Courseware.Proofs.Token.CarriageReturns
