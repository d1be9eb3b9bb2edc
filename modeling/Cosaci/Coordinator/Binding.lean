import Cosaci.Coordinator.RunOneJob

/-!
# Attestations and their connections

Whether a job acts on each attestation as a statement of the runner it was read
from.  Nothing in the coordinator compares the two, so this holds exactly as far as
the committee's connections name themselves and the job in what they sign.
-/

namespace Cosaci.Coordinator

open Foundation Cosaci.Core State Protocol
open Agent (u64ToUuid)

/-- An attestation names the runner it was read from and the job being run. -/
def NamesSender (jobId : UInt64) (delivery : Delivery) : Prop :=
  delivery.attestation.runnerId = delivery.connection ∧
    delivery.attestation.jobId = u64ToUuid jobId

/-- Everything a job did with its attestations is bound to their connections. -/
structure BoundToConnections (job : JobCall) (before : CoordinatorState) (run : JobRun)
    (report : JobReport) : Prop where
  /-- The attestations handed to aggregation and slashing name their senders. -/
  named : ∀ delivery ∈ report.received, NamesSender job.jobId delivery
  voted : report.votes = report.received.map fun delivery => voteOf delivery.attestation
  /-- The vote counted for a runner was read from a connection of that runner. -/
  counted : ∀ runner result, lastVote report.votes runner = some result →
    ∃ delivery ∈ report.received, delivery.connection = runner ∧
      voteOf delivery.attestation = ⟨runner, result⟩
  /-- A slashed runner sent a divergent attestation over its own connection. -/
  slashed : ∀ event ∈ report.slashEvents, ∃ delivery ∈ report.received,
    delivery.connection = event.runnerId ∧
      delivery.attestation.artifactHash ≠ report.consensusArtifact
  /-- A record of the job holds the same attestations. -/
  recorded : ∀ record, run.state.records.lookup job.jobId = some record →
    before.records.lookup job.jobId = some record ∨
      record.committeeAttestations = report.received.map Delivery.attestation

section Conclude

variable {crypto : Crypto} {order : IterationOrder Hash UInt32} {job : JobCall}
  {committee : List RunnerId} {received : List Delivery} {state before : CoordinatorState}

/-- Only runners named by a divergent attestation are slashed. -/
theorem diverges_of_mem_slashEvents {event : SlashEvent}
    (member : event ∈ (slashingOf order job committee received state.stakeLedger).1) :
    ∃ delivery ∈ received, delivery.attestation.runnerId = event.runnerId ∧
      delivery.attestation.artifactHash ≠
        consensusArtifact order (received.map Delivery.attestation) := by
  unfold slashingOf at member
  dsimp only at member
  split at member
  · rcases StakeLedger.diverges_of_mem_settle member with ⟨attestation, present, named, differs⟩
    rcases List.mem_map.mp present with ⟨delivery, listed, rfl⟩
    exact ⟨delivery, listed, named, differs⟩
  · cases member

/-- Once the attestations name their senders, everything the job does with them
concerns the sender. -/
theorem boundToConnections_conclude_iff (unrecorded : state.records = before.records) :
    (∀ report, (conclude crypto order job committee received state).report = some report →
      BoundToConnections job before (conclude crypto order job committee received state)
        report) ↔
      ∀ delivery ∈ received, NamesSender job.jobId delivery := by
  rw [report_conclude]
  constructor
  · intro bound
    exact (bound _ rfl).named
  · rintro named report ⟨⟩
    have cast : (reportOf order job committee received state.stakeLedger).votes =
        received.map fun delivery => voteOf delivery.attestation :=
      List.map_map
    refine ⟨named, cast, ?_, ?_, ?_⟩
    · intro runner result last
      have member := mem_of_lastVote last
      rw [cast] at member
      rcases List.mem_map.mp member with ⟨delivery, listed, vote⟩
      refine ⟨delivery, listed, ?_, vote⟩
      rw [← (named delivery listed).1]
      exact congrArg Vote.runnerId vote
    · intro event member
      rcases diverges_of_mem_slashEvents member with ⟨delivery, listed, same, differs⟩
      exact ⟨delivery, listed, (named delivery listed).1.symm.trans same, differs⟩
    · intro record found
      rw [← unrecorded]
      rcases records_conclude crypto order job committee received state found with old | new
      · exact Or.inl old
      · exact Or.inr new.2

end Conclude

/-- A job treats every attestation as a statement of the runner and job it was read
for exactly when each signature-valid attestation on a connection of its committee
names that runner and that job. -/
theorem attestations_bound_iff (verifiers : Verifiers) (order : IterationOrder Hash UInt32)
    (job : JobCall) (state : CoordinatorState) :
    (∀ report, (runOneJob verifiers order job state).report = some report →
      BoundToConnections job state (runOneJob verifiers order job state) report) ↔
    ∀ committee, Convenes verifiers job state.agents committee →
      ∀ agent ∈ state.agents, agent.runnerId ∈ committee →
        ∀ attestation, Submits verifiers.crypto agent attestation →
          attestation.runnerId = agent.runnerId ∧
            attestation.jobId = u64ToUuid job.jobId := by
  constructor
  · intro bound committee convenes agent member seated attestation submitted
    rcases runOneJob_eq order convenes with ⟨collected, -, -, unrecorded, run⟩
    rw [run, boundToConnections_conclude_iff unrecorded] at bound
    exact bound ⟨agent.runnerId, attestation⟩
      (mem_fleetDeliveries.mpr ⟨agent, member, seated, rfl, submitted⟩)
  · intro faithful
    by_cases convened : ∃ committee, Convenes verifiers job state.agents committee
    · rcases convened with ⟨committee, convenes⟩
      rcases runOneJob_eq order convenes with ⟨collected, -, -, unrecorded, run⟩
      rw [run, boundToConnections_conclude_iff unrecorded]
      intro delivery listed
      rcases mem_fleetDeliveries.mp listed with ⟨agent, member, seated, same, submitted⟩
      rw [NamesSender, ← same]
      exact faithful committee convenes agent member seated delivery.attestation submitted
    · have nothing := (runOneJob_unconvened order (not_exists.mp convened)).1
      intro report reported
      rw [nothing] at reported
      cases reported

/-! ## A forged vote -/

/-- An agent that sends a valid claim for the sample job and then the given
attestation, signed with its own key. -/
def sampleAgent (runner : RunnerId) (key : Hash) (stake : Weight) (attestation : Attestation) :
    RegisteredAgent where
  runnerId := runner
  stream := {
    inbound := [
      .ok (.vrfClaim sampleJob.jobId
        (modelHash (key.toList ++ (jobSeedBytes sampleJob.jobId).toList))
        (List.Vector.replicate 64 0)),
      .ok (.submitAttestation ⟨attestation.signWith (modelKeypair key), []⟩)]
    faults := []
    outbound := [] }
  signingPk := key
  vrfPk := key
  stake := stake
  capabilities := ⟨4, 4096, .linuxX86_64, {.wasm}⟩

/-- Runner one holds ten and attests truthfully; runner two holds one and signs a
failure in the name of runner one. -/
def forgedState : CoordinatorState :=
  let truthful := { sampleAttestation 1 (sampleEntry 7) with jobId := u64ToUuid sampleJob.jobId }
  let forged := { truthful with result := .fail, artifactHash := sampleEntry 8 }
  { agents := [sampleAgent 1 (sampleEntry 1) 10 truthful, sampleAgent 2 (sampleEntry 2) 1 forged]
    stakeLedger := ⟨Table.collect [(1, 10), (2, 1)]⟩
    log := .mem ⟨[], ()⟩
    records := ∅
    journal := [] }

/-- The forged attestation replaces the vote of runner one, turns the outcome, and
costs runner one its stake. -/
theorem forged_vote_counted :
    let run := runOneJob modelVerifiers .stored { sampleJob with committeeSize := 2 } forgedState
    (run.report.map fun report => (report.received.map Delivery.connection,
        lastVote report.votes 1, report.outcome)) = some ([1, 2], some .fail, .fail) ∧
      run.state.stakeLedger.stakeOf 1 = 0 ∧
      ¬∀ report, run.report = some report → BoundToConnections
        { sampleJob with committeeSize := 2 } forgedState run report := by
  have forged : ((runOneJob modelVerifiers .stored { sampleJob with committeeSize := 2 }
      forgedState).report.map fun report => report.received.any fun delivery =>
        decide (delivery.attestation.runnerId ≠ delivery.connection)) = some true := by
    decide +kernel
  refine ⟨by decide +kernel, by decide +kernel, ?_⟩
  intro bound
  rcases Option.map_eq_some_iff.mp forged with ⟨report, reported, found⟩
  rcases List.any_eq_true.mp found with ⟨delivery, listed, differs⟩
  exact of_decide_eq_true differs ((bound report reported).named delivery listed).1

end Cosaci.Coordinator
