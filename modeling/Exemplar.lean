import Exemplar.Construction
import Exemplar.Frame
import Exemplar.Json.Reader
import Exemplar.Json.Writer
import Exemplar.Model
import Exemplar.Session
import Exemplar.Value.Plain
import Exemplar.Proofs.Runs
import Exemplar.Proofs.Bounds
import Exemplar.Proofs.Breakdowns
import Exemplar.Proofs.Containment
import Exemplar.Proofs.Location
import Exemplar.Proofs.Rejections
import Exemplar.Proofs.Leniency
import Exemplar.Proofs.Policy
import Exemplar.Proofs.OneByOne
import Exemplar.Proofs.Depth
import Exemplar.Proofs.Documents
import Exemplar.Proofs.Rechecks
import Exemplar.Proofs.Restoring
import Exemplar.Proofs.Idempotence
import Exemplar.Proofs.Relocation
import Exemplar.Proofs.Places
import Exemplar.Proofs.Changes
import Exemplar.Proofs.Chronicle
import Exemplar.Proofs.Recursion
import Exemplar.Proofs.Repointing
import Exemplar.Proofs.Configurations
import Exemplar.Proofs.Inheritance
import Exemplar.Proofs.Coherence
import Exemplar.Proofs.Undeclared
import Exemplar.Proofs.Unbroken
import Exemplar.Proofs.MissingInput
import Exemplar.Proofs.RoundTrip
import Exemplar.Proofs.Accounts
import Exemplar.Proofs.Determinacy
import Exemplar.Proofs.FieldByField
import Exemplar.Proofs.Agreement
import Exemplar.Proofs.Membership
import Exemplar.Proofs.BigIntegers
import Exemplar.Proofs.Circles
import Exemplar.Proofs.Unfolding
import Exemplar.Proofs.Heredity
import Exemplar.Proofs.Leftovers
import Exemplar.Proofs.Walks
import Exemplar.Proofs.Requirements
import Exemplar.Proofs.SafeIntegers
import Exemplar.Proofs.Sizes
import Exemplar.Proofs.Orders
import Exemplar.Proofs.Probes
import Exemplar.Proofs.NewRecords
import Exemplar.Proofs.Spellings
import Exemplar.Proofs.Locality
import Exemplar.Proofs.Defaults
import Exemplar.Proofs.Copies
import Exemplar.Proofs.Sharing
import Exemplar.Proofs.Handouts
import Exemplar.Proofs.Unshared
