import Cosaci.Agent.MainLoop
import Cosaci.Coordinator.Conclude

/-!
# One job

`run_one_job` as a whole, and what ties the attestations it acts on to the
connections they were read from.  The only check is the signature under the key of
the connection; votes, slashing and records go by the runner named inside the
attestation.
-/

namespace Cosaci.Coordinator

open Foundation Cosaci.Core State Protocol
open Agent (u64ToUuid)

/-- Run one job.  It ends without a report when it does not get as far as
aggregating votes. -/
def runOneJob (verifiers : Verifiers) (order : IterationOrder Hash UInt32) (job : JobCall)
    (state : CoordinatorState) : JobRun :=
  let state := state.journalAppend [.jobSubmitted job.jobId]
  match convene verifiers job state.agents with
  | (.failed kind, agents) => ⟨.error kind, none, { state with agents := agents }⟩
  | (.unfilled, agents) => ⟨.ok (), none, { state with agents := agents }⟩
  | (.unassigned committee kind, agents) =>
      let state := state.journalAppend [.committeeSelected job.jobId committee]
      ⟨.error kind, none, { state with agents := agents }⟩
  | (.convened committee, agents) =>
      let state := state.journalAppend [.committeeSelected job.jobId committee]
      let (responses, agents) := collectAttestations verifiers.crypto committee agents
      let received := deliveries responses
      let state := state.journalAppend
        (received.map fun delivery => .attestationReceived job.jobId delivery.connection)
      conclude verifiers.crypto order job committee received { state with agents := agents }

/-! ## What a job does, from its inputs -/

/-- The attestations a committee's connections deliver. -/
def fleetDeliveries (crypto : Crypto) (committee : List RunnerId)
    (agents : List RegisteredAgent) : List Delivery :=
  deliveries (agents.map (response crypto committee))

/-- The signature-valid attestation that an agent submits, if it does. -/
def Submits (crypto : Crypto) (agent : RegisteredAgent) (attestation : Attestation) : Prop :=
  ∃ captures, agent.answer = .ok (.submitAttestation ⟨attestation, captures⟩) ∧
    attestation.verifySignature crypto agent.signingPk = true

private theorem delivery_response {crypto : Crypto} {committee : List RunnerId}
    {agent : RegisteredAgent} {delivery : Delivery} :
    (response crypto committee agent).delivery = some delivery ↔
      agent.runnerId ∈ committee ∧ agent.runnerId = delivery.connection ∧
        Submits crypto agent delivery.attestation := by
  constructor
  · intro delivered
    unfold response at delivered
    split at delivered
    · next member =>
        split at delivered
        · next bundle answered =>
            split at delivered
            · next signed =>
                cases delivered
                exact ⟨List.contains_iff_mem.mp member, rfl, bundle.captures, answered, signed⟩
            · cases delivered
        · cases delivered
    · cases delivered
  · rcases delivery with ⟨connection, attestation⟩
    rintro ⟨member, rfl, captures, answered, signed⟩
    unfold response
    rw [if_pos (List.contains_iff_mem.mpr member), answered]
    dsimp only at signed ⊢
    rw [if_pos signed]
    rfl

theorem mem_fleetDeliveries {crypto : Crypto} {committee : List RunnerId}
    {agents : List RegisteredAgent} {delivery : Delivery} :
    delivery ∈ fleetDeliveries crypto committee agents ↔
      ∃ agent ∈ agents, agent.runnerId ∈ committee ∧ agent.runnerId = delivery.connection ∧
        Submits crypto agent delivery.attestation := by
  simp only [fleetDeliveries, deliveries, List.filterMap_map, List.mem_filterMap,
    Function.comp_apply, delivery_response]

variable {verifiers : Verifiers} {job : JobCall} {state : CoordinatorState}
  {committee : List RunnerId}

/-- A job that convenes its committee concludes with what the committee's connections
deliver; so far it has written to the journal only. -/
theorem runOneJob_eq (order : IterationOrder Hash UInt32)
    (convenes : Convenes verifiers job state.agents committee) :
    ∃ collected : CoordinatorState,
      collected.stakeLedger = state.stakeLedger ∧ collected.log = state.log ∧
      collected.records = state.records ∧
      runOneJob verifiers order job state = conclude verifiers.crypto order job committee
        (fleetDeliveries verifiers.crypto committee state.agents) collected := by
  have through : convene verifiers job
      (state.journalAppend [.jobSubmitted job.jobId]).agents =
      (.convened committee, state.agents.map (conveneStep verifiers job committee)) :=
    convene_eq convenes
  have answers : (collectAttestations verifiers.crypto committee
      (state.agents.map (conveneStep verifiers job committee))).1 =
      state.agents.map (response verifiers.crypto committee) := by
    simp only [collectAttestations, tolerantRound, List.map_map, Function.comp_def,
      collectFrom_conveneStep]
  unfold runOneJob
  dsimp only
  rw [through]
  dsimp only
  rw [answers]
  refine ⟨_, ?_, ?_, ?_, rfl⟩ <;> rfl

/-- A job that does not convene leaves stakes, log and records alone. -/
theorem runOneJob_unconvened (order : IterationOrder Hash UInt32)
    (unconvened : ∀ committee, ¬Convenes verifiers job state.agents committee) :
    (runOneJob verifiers order job state).report = none ∧
      (runOneJob verifiers order job state).state.stakeLedger = state.stakeLedger ∧
      (runOneJob verifiers order job state).state.log = state.log ∧
      (runOneJob verifiers order job state).state.records = state.records := by
  unfold runOneJob
  dsimp only
  split
  · exact ⟨rfl, rfl, rfl, rfl⟩
  · exact ⟨rfl, rfl, rfl, rfl⟩
  · exact ⟨rfl, rfl, rfl, rfl⟩
  · next committee agents convened =>
      have convenes : Convenes verifiers job state.agents committee :=
        convenes_of_convened (congrArg Prod.fst convened)
      exact False.elim (unconvened committee convenes)

end Cosaci.Coordinator
