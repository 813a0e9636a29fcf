import CooperativeLisp.Extension
import CooperativeLisp.Main
import CooperativeLisp.Value.Equality
import CooperativeLisp.Proofs.Fuel
import CooperativeLisp.Proofs.Run
import CooperativeLisp.Proofs.Slices
import CooperativeLisp.Proofs.Tasks
import CooperativeLisp.Proofs.Splice
import CooperativeLisp.Proofs.Resolved
import CooperativeLisp.Proofs.Direct
import CooperativeLisp.Proofs.Compiled
import CooperativeLisp.Proofs.Placed
import CooperativeLisp.Proofs.Realized
import CooperativeLisp.Proofs.Faithful
import CooperativeLisp.Proofs.Orderly
import CooperativeLisp.Proofs.Adequate
import CooperativeLisp.Proofs.Regular
import CooperativeLisp.Proofs.Balance
import CooperativeLisp.Proofs.Scopes
import CooperativeLisp.Proofs.Tail
import CooperativeLisp.Proofs.TailCalls
import CooperativeLisp.Proofs.Grammar
import CooperativeLisp.Proofs.Reading
import CooperativeLisp.Proofs.Alike
import CooperativeLisp.Proofs.AlikeLibrary
import CooperativeLisp.Proofs.Correspondence
import CooperativeLisp.Proofs.Session
import CooperativeLisp.Proofs.Pairing
import CooperativeLisp.Proofs.Isolation
import CooperativeLisp.Proofs.Written
import CooperativeLisp.Proofs.History
import CooperativeLisp.Proofs.WriteOnce
import CooperativeLisp.Proofs.Responsive
import CooperativeLisp.Proofs.Synonyms
import CooperativeLisp.Proofs.Documents
import CooperativeLisp.Proofs.Twins
import CooperativeLisp.Proofs.TwinWorlds
import CooperativeLisp.Proofs.TwinRuns
import CooperativeLisp.Proofs.Backtraces
import CooperativeLisp.Proofs.Conservative
import CooperativeLisp.Proofs.Inversion
import CooperativeLisp.Proofs.Lasting
import CooperativeLisp.Proofs.BindingForms
import CooperativeLisp.Proofs.Reserved
import CooperativeLisp.Proofs.Steadfast
import CooperativeLisp.Proofs.Connectives
import CooperativeLisp.Proofs.Innermost
import CooperativeLisp.Proofs.Turns
import CooperativeLisp.Proofs.Exporting
import CooperativeLisp.Proofs.FailedStreams
import CooperativeLisp.Proofs.Lookup
import CooperativeLisp.Proofs.Lifecycle
import CooperativeLisp.Proofs.Parameters
import CooperativeLisp.Proofs.Invocations
import CooperativeLisp.Proofs.Lockstep
import CooperativeLisp.Proofs.Calling
import CooperativeLisp.Proofs.Joining
import CooperativeLisp.Proofs.NormalForms
import CooperativeLisp.Proofs.Checked
import CooperativeLisp.Proofs.Nesting
import CooperativeLisp.Proofs.Image
