import Resumable.Proofs.Finalization
import Resumable.Proofs.Finishing
import Resumable.Proofs.Labels
import Resumable.Proofs.Locals
import Resumable.Proofs.Reentry
import Resumable.Proofs.Rejection
import Resumable.Proofs.Sending
import Resumable.Session.Step
import Resumable.Proofs.Contracts
import Resumable.Proofs.RestPoints
import Resumable.Proofs.Detached
import Resumable.Proofs.Independence
import Resumable.Proofs.Throwing
import Resumable.Proofs.Escaping
import Resumable.Proofs.Delivery
import Resumable.Proofs.Raising
import Resumable.Proofs.Driven
import Resumable.Proofs.Delegators
import Resumable.Proofs.Towers
import Resumable.Proofs.Abandoning
import Resumable.Proofs.Orderly
import Resumable.Proofs.SendingNone
import Resumable.Proofs.Operands
import Resumable.Proofs.Conflicts
import Resumable.Proofs.Counting
import Resumable.Proofs.Agreement
import Resumable.Proofs.RelayEnds
import Resumable.Proofs.Pulling
import Resumable.Proofs.Observation
import Resumable.Proofs.Traversal
import Resumable.Proofs.Equality
import Resumable.Proofs.Normalization
import Resumable.Proofs.ResumePoints
