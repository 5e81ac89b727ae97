import Semcheck.Json.Writer
import Semcheck.Main
import Semcheck.Proofs.Exit
import Semcheck.Proofs.Infer.Termination
import Semcheck.Proofs.Infer.Writes
import Semcheck.Proofs.Lower.Order
import Semcheck.Proofs.Lower.Scopes
import Semcheck.Proofs.Tree.RoundTrip
import Semcheck.Proofs.Lower.Stages
import Semcheck.Proofs.Lower.Exact
import Semcheck.Proofs.Decl.Lookup
import Semcheck.Proofs.Lower.Returnless
import Semcheck.Proofs.Lower.Literal
import Semcheck.Proofs.Name.Suggest
import Semcheck.Proofs.Ty.Text
import Semcheck.Proofs.Output
