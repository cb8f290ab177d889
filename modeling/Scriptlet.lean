import Scriptlet.Files.Tree
import Scriptlet.Main
import Scriptlet.Proofs.Evaluation.Concatenation
import Scriptlet.Proofs.Syntax.Acceptance
import Scriptlet.Proofs.Syntax.RoundTrip
import Scriptlet.Proofs.Syntax.Cursor
import Scriptlet.Proofs.Evaluation.Blame
import Scriptlet.Proofs.Token.Coverage
import Scriptlet.Proofs.Syntax.Recovery
import Scriptlet.Proofs.Evaluation.Outcome
import Scriptlet.Proofs.Evaluation.Genuine
import Scriptlet.Proofs.Evaluation.Signals
import Scriptlet.Proofs.Evaluation.Bindings
import Scriptlet.Proofs.Token.Separation
import Scriptlet.Proofs.Evaluation.Enclosure
import Scriptlet.Proofs.Syntax.Enclosure
import Scriptlet.Proofs.Evaluation.Layout
import Scriptlet.Proofs.Evaluation.Soundness
import Scriptlet.Proofs.Evaluation.Position
import Scriptlet.Proofs.Syntax.Product
import Scriptlet.Proofs.Syntax.Resumption
import Scriptlet.Proofs.Token.LongestMatch
import Scriptlet.Proofs.Session.Fold
import Scriptlet.Proofs.Evaluation.Locality
import Scriptlet.Proofs.Evaluation.Purity
import Scriptlet.Proofs.Syntax.Nesting
import Scriptlet.Proofs.Syntax.Exactness
import Scriptlet.Proofs.Syntax.Outline
import Scriptlet.Proofs.Token.Layout
import Scriptlet.Proofs.Token.Numeral
import Scriptlet.Proofs.CommandLine.Opening
import Scriptlet.Proofs.Report.Location
