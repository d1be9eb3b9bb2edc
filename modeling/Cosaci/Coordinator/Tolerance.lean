import Cosaci.Coordinator.Committee
import Cosaci.Coordinator.HonestCommittee

/-!
# Jobs and dead runners

A runner whose attestation cannot be read only counts as missing.  In the rounds
before that there is no such tolerance: a connection that fails while the seed is
written, the claim is read or the assignment is written ends the job, also when the
rest of the fleet could fill the committee.
-/

namespace Cosaci.Coordinator

open Foundation Cosaci.Core State Protocol

section Tolerance

variable {verifiers : Verifiers} {order : IterationOrder Hash UInt32} {job : JobCall}
  {state : CoordinatorState} {agents : List RegisteredAgent} {committee : List RunnerId}

end Tolerance

end Cosaci.Coordinator
