import Cosaci.Coordinator.RunOneJob
import Cosaci.Foundation.Machine

/-!
# A session of the coordinator

The fleet is gathered once, by `accept_fleet`; then the jobs run one after another on
the same connections.  Registration checks the possession of the VRF key, the
enrollment and the form of the signing key of each connection on its own; it does not
look at the runners registered before.
-/

namespace Cosaci.Coordinator

open Foundation Cosaci.Core State Protocol

/-! ## Registration -/

/-- The runners that the operator has enrolled, with the fingerprints of their keys. -/
structure EnrolledRecord where
  runnerId : RunnerId
  signingFp : Hash
  vrfFp : Hash
  deriving DecidableEq

structure EnrollmentSet where
  records : Table RunnerId EnrolledRecord

def EnrollmentSet.insert (enrolled : EnrollmentSet) (record : EnrolledRecord) :
    EnrollmentSet :=
  ⟨enrolled.records.insert record.runnerId record⟩

/-- Whether the runner is enrolled with these fingerprints. -/
def EnrollmentSet.isEnrolled (enrolled : EnrollmentSet) (runner : RunnerId)
    (signingFp vrfFp : Hash) : Bool :=
  match enrolled.records.lookup runner with
  | some record => record.signingFp == signingFp && record.vrfFp == vrfFp
  | none => false

def fingerprint (crypto : Crypto) (pubkey : Bytes 32) : Hash :=
  crypto.sha256 pubkey.toList

/-- The input on which an agent proves the possession of its VRF key. -/
def vrfRegistrationChallenge : List UInt8 :=
  "cosaci-runner-registration-v1".toUTF8.toList

/-- What the coordinator checks a registration against. -/
structure Registrar where
  verifiers : Verifiers
  /-- No enrollment set means that every runner is let in. -/
  enrollment : Option EnrollmentSet

namespace Registrar

/-- The enrollment gate. -/
def lets (registrar : Registrar) (runner : RunnerId) (signingPubkey vrfPubkey : Bytes 32) :
    Bool :=
  match registrar.enrollment with
  | some enrolled => enrolled.isEnrolled runner
      (fingerprint registrar.verifiers.crypto signingPubkey)
      (fingerprint registrar.verifiers.crypto vrfPubkey)
  | none => true

/-- Register the agent at the other end of a connection, or drop the connection. -/
def register (registrar : Registrar) (stream : Stream) : Option RegisteredAgent :=
  match readEnvelope stream with
  | (.ok (.register runnerId signingPubkey vrfPubkey vrfOutput vrfProof stake capabilities),
      stream) =>
      if !registrar.verifiers.vrf vrfPubkey vrfRegistrationChallenge vrfOutput vrfProof then
        none
      else if !registrar.lets runnerId signingPubkey vrfPubkey then
        none
      else if !registrar.verifiers.crypto.validKey signingPubkey then
        none
      else
        match writeEnvelope stream .registerAck with
        | (.error _, _) => none
        | (.ok _, stream) =>
            some ⟨runnerId, stream, signingPubkey, vrfPubkey, stake, capabilities⟩
  | _ => none

/-- A registered agent has shown that it owns its VRF key. -/
theorem possession_of_register {registrar : Registrar} {stream : Stream}
    {agent : RegisteredAgent} (registered : registrar.register stream = some agent) :
    ∃ output proof, registrar.verifiers.vrf agent.vrfPk vrfRegistrationChallenge output
      proof = true := by
  unfold register at registered
  split at registered
  · next runnerId signingPubkey vrfPubkey vrfOutput vrfProof stake capabilities _ _ =>
      split at registered
      · cases registered
      next proven =>
      split at registered
      · cases registered
      split at registered
      · cases registered
      split at registered
      · cases registered
      cases registered
      exact ⟨vrfOutput, vrfProof, by simpa using proven⟩
  · cases registered

end Registrar

/-- What the listener returns. -/
inductive Arrival where
  /-- `accept` or the set-up of the socket failed. -/
  | failed (kind : IoErrorKind)
  /-- No TLS state could be created for the connection. -/
  | refused
  | connected (stream : Stream)

/-- How far the assembly of the fleet got. -/
inductive Assembly where
  | waiting (agents : List RegisteredAgent)
  | failed (kind : IoErrorKind)
  | assembled (agents : List RegisteredAgent)

/-- Accept connections until the fleet has its size. -/
def acceptFleet (registrar : Registrar) (fleet : Nat) :
    List RegisteredAgent → List Arrival → Assembly
  | agents, [] => if fleet ≤ agents.length then .assembled agents else .waiting agents
  | agents, arrival :: rest =>
      if fleet ≤ agents.length then
        .assembled agents
      else
        match arrival with
        | .failed kind => .failed kind
        | .refused => acceptFleet registrar fleet agents rest
        | .connected stream =>
            acceptFleet registrar fleet (agents ++ (registrar.register stream).toList) rest

/-- Every agent of an assembled fleet went through the registration. -/
theorem registered_of_acceptFleet {registrar : Registrar} {fleet : Nat}
    {agents gathered : List RegisteredAgent} {arrivals : List Arrival}
    (assembled : acceptFleet registrar fleet gathered arrivals = .assembled agents) :
    ∀ agent ∈ agents, agent ∈ gathered ∨
      ∃ stream, registrar.register stream = some agent := by
  intro agent member
  induction arrivals generalizing gathered with
  | nil =>
      rw [acceptFleet] at assembled
      split at assembled
      · cases assembled
        exact Or.inl member
      · cases assembled
  | cons arrival rest ih =>
      unfold acceptFleet at assembled
      split at assembled
      · cases assembled
        exact Or.inl member
      cases arrival with
      | failed kind => cases assembled
      | refused => exact ih assembled
      | connected stream =>
          rcases ih assembled with listed | registered
          · rcases List.mem_append.mp listed with earlier | new
            · exact Or.inl earlier
            · exact Or.inr ⟨stream, Option.mem_toList.mp new⟩
          · exact Or.inr registered

/-! ## Running jobs -/

/-- The coordinator as a machine that consumes jobs. -/
def jobMachine (verifiers : Verifiers) (order : IterationOrder Hash UInt32) :
    Machine CoordinatorState JobCall JobRun where
  step state job :=
    let run := runOneJob verifiers order job state
    (run, run.state)

/-- The state after a sequence of jobs; a job that failed is only logged. -/
def runJobs (verifiers : Verifiers) (order : IterationOrder Hash UInt32)
    (state : CoordinatorState) (jobs : List JobCall) : CoordinatorState :=
  (jobMachine verifiers order).final state jobs

/-- What an agent registered with: everything but its connection. -/
structure Registration where
  runnerId : RunnerId
  signingPk : Bytes 32
  vrfPk : Bytes 32
  stake : Weight
  capabilities : Capabilities

def RegisteredAgent.registration (agent : RegisteredAgent) : Registration where
  runnerId := agent.runnerId
  signingPk := agent.signingPk
  vrfPk := agent.vrfPk
  stake := agent.stake
  capabilities := agent.capabilities

section Frame

variable (verifiers : Verifiers) (order : IterationOrder Hash UInt32) (job : JobCall)

private theorem registration_assignTo (committee : List RunnerId) (agent : RegisteredAgent) :
    (assignTo job committee agent).2.registration = agent.registration := by
  unfold assignTo
  split <;> rfl

private theorem registration_collectFrom (committee : List RunnerId)
    (agent : RegisteredAgent) :
    (collectFrom verifiers.crypto committee agent).2.registration = agent.registration := by
  have unread : agent.read.2.registration = agent.registration := rfl
  unfold collectFrom
  split
  · split
    · next received =>
        rw [received] at unread
        split <;> exact unread
    · next received =>
        rw [received] at unread
        exact unread
  · rfl

private theorem registration_assignCommittee (agents : List RegisteredAgent)
    (claims : List (RunnerId × Bytes 32)) :
    (assignCommittee job agents claims).2.map RegisteredAgent.registration =
      agents.map RegisteredAgent.registration := by
  unfold assignCommittee
  split
  · rfl
  next committee formed =>
  have informed : (sendAssign job committee agents).2.map RegisteredAgent.registration =
      agents.map RegisteredAgent.registration :=
    map_strictRound_snd (registration_assignTo job committee) agents
  split
  · next failed =>
      rw [failed] at informed
      exact informed
  · next assigned =>
      rw [assigned] at informed
      exact informed

/-- The rounds before the collection keep every registration in its place. -/
theorem registration_convene (agents : List RegisteredAgent) :
    (convene verifiers job agents).2.map RegisteredAgent.registration =
      agents.map RegisteredAgent.registration := by
  have kept : (sendJobSeed job.jobId agents).2.map RegisteredAgent.registration =
      agents.map RegisteredAgent.registration :=
    map_strictRound_snd (fun _ => rfl) agents
  rcases seeding : sendJobSeed job.jobId agents with ⟨kind | seeds, seeded⟩
  · rw [convene_of_seed_error verifiers seeding, ← kept, seeding]
  have asked : (collectClaims verifiers job.jobId seeded).2.map
      RegisteredAgent.registration = seeded.map RegisteredAgent.registration := by
    apply map_strictRound_snd
    intro agent
    rw [readClaim_snd]
    rfl
  rw [seeding] at kept
  rcases claiming : collectClaims verifiers job.jobId seeded with ⟨kind | claims, fleet⟩
  · rw [convene_of_claim_error seeding claiming, ← kept, ← asked, claiming]
  · rw [convene_of_claimed seeding claiming, registration_assignCommittee, ← kept, ← asked,
      claiming]

theorem agents_conclude (committee : List RunnerId) (received : List Delivery)
    (state : CoordinatorState) :
    (conclude verifiers.crypto order job committee received state).state.agents =
      state.agents := by
  unfold conclude
  dsimp only
  split
  · split <;> rfl
  · rfl

/-- A job keeps every registration in its place. -/
theorem registration_runOneJob (state : CoordinatorState) :
    (runOneJob verifiers order job state).state.agents.map RegisteredAgent.registration =
      state.agents.map RegisteredAgent.registration := by
  have kept : ∀ step agents, convene verifiers job state.agents = (step, agents) →
      agents.map RegisteredAgent.registration =
        state.agents.map RegisteredAgent.registration := by
    intro step agents convened
    have same := registration_convene verifiers job state.agents
    rw [convened] at same
    exact same
  unfold runOneJob
  dsimp only
  split
  · next failed => exact kept _ _ failed
  · next unfilled => exact kept _ _ unfilled
  · next unassigned => exact kept _ _ unassigned
  · next committee agents convened =>
      rw [agents_conclude, ← kept _ _ convened]
      simp only [collectAttestations, tolerantRound, List.map_map, Function.comp_def,
        registration_collectFrom]

/-- A job neither adds nor removes stake entries. -/
theorem mem_stakes_runOneJob (state : CoordinatorState) {runner : RunnerId} :
    runner ∈ (runOneJob verifiers order job state).state.stakeLedger.stakes ↔
      runner ∈ state.stakeLedger.stakes := by
  by_cases convened : ∃ committee, Convenes verifiers job state.agents committee
  · rcases convened with ⟨committee, convenes⟩
    rcases runOneJob_eq order convenes with ⟨collected, ledger, -, -, concluded⟩
    rw [concluded, stakeLedger_conclude, ledger, slashingOf]
    split
    · exact StakeLedger.mem_stakes_settle
    · rfl
  · rw [(runOneJob_unconvened order (not_exists.mp convened)).2.1]

end Frame

section Run

variable (verifiers : Verifiers) (order : IterationOrder Hash UInt32)
  (state : CoordinatorState) (jobs : List JobCall)

/-- The fleet stays the one that registered. -/
theorem registration_runJobs :
    (runJobs verifiers order state jobs).agents.map RegisteredAgent.registration =
      state.agents.map RegisteredAgent.registration := by
  refine (jobMachine verifiers order).final_of_step
    (fun now => now.agents.map RegisteredAgent.registration =
      state.agents.map RegisteredAgent.registration) ?_ rfl jobs
  intro now job same
  exact (registration_runOneJob verifiers order job now).trans same

theorem mem_stakes_runJobs {runner : RunnerId} :
    runner ∈ (runJobs verifiers order state jobs).stakeLedger.stakes ↔
      runner ∈ state.stakeLedger.stakes := by
  refine (jobMachine verifiers order).final_of_step
    (fun now => runner ∈ now.stakeLedger.stakes ↔ runner ∈ state.stakeLedger.stakes)
    ?_ Iff.rfl jobs
  intro now job same
  exact (mem_stakes_runOneJob verifiers order job now).trans same

end Run

end Cosaci.Coordinator
