import Cosaci.Coordinator.RunOneJob

/-!
# Honest committees and failing pipelines

The coordinator and the agents together: the connections of a committee deliver
what the agents' main loops write.  Such an agent attests success whatever its
steps did, so the verdict depends only on the stake of the members that answer.
-/

namespace Cosaci.Coordinator

open Foundation Cosaci.Core State Protocol Jobs
open Agent (Runner Turn)

/-! ## Honest connections -/

/-- A connection behind which an agent runs its main loop: what it delivers was
written by the loop during some turns, and its registration is the agent's own. -/
structure RunsMainLoop (crypto : Crypto) (connection : RegisteredAgent) (agent : Runner)
    (turns : List Turn) : Prop where
  runner : agent.runnerId = connection.runnerId
  key : agent.signing.verifyingKey = connection.signingPk
  signs : agent.signing.Correct crypto
  delivers : ∀ envelope, .ok envelope ∈ connection.stream.inbound →
    envelope ∈ agent.mainLoop crypto turns

/-- Every execution of a pipeline in these turns has a step that does not succeed. -/
def PipelineFails (crypto : Crypto) (pipeline : Pipeline) (turns : List Turn) : Prop :=
  ∀ turn ∈ turns, ∀ result,
    executePipeline crypto turn.world pipeline = .ok result → result.Unsuccessful

/-- An honest agent that sees the pipeline fail. -/
def HonestlyFails (crypto : Crypto) (pipeline : Pipeline) (connection : RegisteredAgent) :
    Prop :=
  ∃ agent turns, RunsMainLoop crypto connection agent turns ∧
    PipelineFails crypto pipeline turns

/-- The connection answers the assignment with an attestation. -/
def RegisteredAgent.submits (connection : RegisteredAgent) : Bool :=
  match connection.answer with
  | .ok (.submitAttestation _) => true
  | _ => false

/-- The committee members that answer. -/
def responders (committee : List RunnerId) (agents : List RegisteredAgent) : Finset RunnerId :=
  ((agents.filter fun connection =>
    committee.contains connection.runnerId && connection.submits).map
      RegisteredAgent.runnerId).toFinset

variable {connection : RegisteredAgent}

theorem mem_inbound_of_answer {envelope : Envelope} (answered : connection.answer = .ok envelope) :
    .ok envelope ∈ connection.stream.inbound := by
  unfold RegisteredAgent.answer at answered
  cases script : connection.stream.inbound.tail with
  | nil =>
      rw [script] at answered
      cases answered
  | cons result rest =>
      rw [script] at answered
      have member : result ∈ connection.stream.inbound.tail := by
        rw [script]
        exact List.mem_cons_self
      change result = .ok envelope at answered
      exact answered ▸ List.mem_of_mem_tail member

/-- An attestation from an honest connection is signed, names its runner, and
passes. -/
theorem RunsMainLoop.attestation {crypto : Crypto} {agent : Runner} {turns : List Turn}
    (honest : RunsMainLoop crypto connection agent turns) {bundle : AttestationBundle}
    (answered : connection.answer = .ok (.submitAttestation bundle)) :
    Submits crypto connection bundle.attestation ∧
      voteOf bundle.attestation = ⟨connection.runnerId, .pass⟩ := by
  have written := honest.delivers _ (mem_inbound_of_answer answered)
  rcases Runner.exists_turn_of_mem_mainLoop written with ⟨turn, -, replied⟩
  rcases Runner.react_eq_submit replied with
    ⟨jobId, pipeline, requirements, deadline, result, -, -, rfl⟩
  refine ⟨⟨result.captures, answered, ?_⟩, ?_⟩
  · rw [← honest.key]
    exact Attestation.verifySignature_signWith honest.signs _
  · rw [← honest.runner]
    rfl

/-! ## The verdict of an honest committee -/

section Verdict

variable {crypto : Crypto} {committee : List RunnerId} {agents : List RegisteredAgent}

/-- Every connection of the committee is honest. -/
def HonestCommittee (crypto : Crypto) (committee : List RunnerId)
    (agents : List RegisteredAgent) : Prop :=
  ∀ connection ∈ agents, connection.runnerId ∈ committee →
    ∃ agent turns, RunsMainLoop crypto connection agent turns

/-- An honest committee casts passing votes only. -/
theorem HonestCommittee.votes (honest : HonestCommittee crypto committee agents)
    {delivery : Delivery} (listed : delivery ∈ fleetDeliveries crypto committee agents) :
    voteOf delivery.attestation = ⟨delivery.connection, .pass⟩ := by
  rcases mem_fleetDeliveries.mp listed with
    ⟨connection, member, seated, same, captures, answered, -⟩
  rcases honest connection member seated with ⟨agent, turns, loop⟩
  rw [← same]
  exact (loop.attestation answered).2

/-- The voters are the members that answer. -/
theorem HonestCommittee.voters (honest : HonestCommittee crypto committee agents) :
    (((fleetDeliveries crypto committee agents).map Delivery.attestation).map voteOf |>.map
      Vote.runnerId).toFinset = responders committee agents := by
  ext runner
  simp only [responders, List.map_map, List.mem_toFinset, List.mem_map, List.mem_filter,
    Bool.and_eq_true, Function.comp_apply]
  constructor
  · rintro ⟨delivery, listed, rfl⟩
    rcases mem_fleetDeliveries.mp listed with
      ⟨connection, member, seated, same, captures, answered, -⟩
    refine ⟨connection, ⟨member, List.contains_iff_mem.mpr seated, ?_⟩, ?_⟩
    · rw [RegisteredAgent.submits, answered]
    · rw [honest.votes listed, same]
  · rintro ⟨connection, ⟨member, seated, submitted⟩, rfl⟩
    rw [List.contains_iff_mem] at seated
    unfold RegisteredAgent.submits at submitted
    split at submitted
    · next bundle answered =>
        rcases honest connection member seated with ⟨agent, turns, loop⟩
        rcases loop.attestation answered with ⟨submits, vote⟩
        have listed : ⟨connection.runnerId, bundle.attestation⟩ ∈
            fleetDeliveries crypto committee agents :=
          mem_fleetDeliveries.mpr ⟨connection, member, seated, rfl, submits⟩
        exact ⟨_, listed, congrArg Vote.runnerId vote⟩
    · cases submitted

/-- The outcome of an honest committee depends on the stake of the answering members
only. -/
theorem HonestCommittee.outcome_eq_pass_iff
    (honest : HonestCommittee crypto committee agents) (stake : StakeMap) :
    outcomeOf committee (fleetDeliveries crypto committee agents) stake = .pass ↔
      0 < (voteThreshold stake committee).toNat ∧
        (voteThreshold stake committee).toNat ≤ stakeOn stake (responders committee agents) := by
  rw [← honest.voters]
  apply aggregate_eq_pass_iff_of_unanimous
  intro vote cast
  rw [List.map_map] at cast
  rcases List.mem_map.mp cast with ⟨delivery, listed, rfl⟩
  exact congrArg Vote.result (honest.votes listed)

theorem HonestCommittee.outcome_ne_pass_iff
    (honest : HonestCommittee crypto committee agents) (stake : StakeMap) :
    outcomeOf committee (fleetDeliveries crypto committee agents) stake ≠ .pass ↔
      voteThreshold stake committee = 0 ∨
        stakeOn stake (responders committee agents) <
          (voteThreshold stake committee).toNat := by
  rw [Ne, honest.outcome_eq_pass_iff, not_and_or, Nat.not_lt, Nat.not_le, Nat.le_zero,
    ← UInt64.toNat_zero, UInt64.toNat_inj]

end Verdict

/-- With an honest committee, a job whose pipeline fails is kept from passing and from
the log exactly when too few members answer: the answering members hold less than the
threshold, or the threshold is zero. -/
theorem failing_job_unanchored_iff (verifiers : Verifiers)
    (order : IterationOrder Hash UInt32) (job : JobCall) (state : CoordinatorState)
    (honest : ∀ committee, Convenes verifiers job state.agents committee →
      ∀ connection ∈ state.agents, connection.runnerId ∈ committee →
        HonestlyFails verifiers.crypto job.pipeline connection) :
    ((∀ report, (runOneJob verifiers order job state).report = some report →
        report.outcome ≠ .pass) ∧
      (runOneJob verifiers order job state).state.log = state.log) ↔
    ∀ committee, Convenes verifiers job state.agents committee →
      voteThreshold state.stakeLedger.asStakeMap committee = 0 ∨
        stakeOn state.stakeLedger.asStakeMap (responders committee state.agents) <
          (voteThreshold state.stakeLedger.asStakeMap committee).toNat := by
  by_cases convened : ∃ committee, Convenes verifiers job state.agents committee
  · rcases convened with ⟨committee, convenes⟩
    have loops : HonestCommittee verifiers.crypto committee state.agents := by
      intro connection member seated
      rcases honest committee convenes connection member seated with ⟨agent, turns, loop, -⟩
      exact ⟨agent, turns, loop⟩
    rcases runOneJob_eq order convenes with ⟨collected, ledger, log, -, run⟩
    rw [run, ← log, conclude_unanchored_iff, ledger, loops.outcome_ne_pass_iff]
    constructor
    · intro short other also
      cases also.unique convenes
      exact short
    · intro short
      exact short committee convenes
  · have nothing := runOneJob_unconvened order (not_exists.mp convened)
    constructor
    · intro _ committee convenes
      exact False.elim (convened ⟨committee, convenes⟩)
    · intro _
      refine ⟨?_, nothing.2.2.1⟩
      intro report reported
      rw [nothing.1] at reported
      cases reported

/-! ## Two honest runners -/

def sampleRunner (runner : RunnerId) : Runner where
  runnerId := runner
  signing := modelKeypair (sampleEntry runner.toUInt8)
  vrf := {
    publicKey := sampleEntry runner.toUInt8
    output := fun input => modelHash ((sampleEntry runner.toUInt8).toList ++ input)
    proof := fun _ _ => List.Vector.replicate 64 0 }

/-- A job whose only step has no executor. -/
def failingJob : JobCall :=
  { sampleJob with committeeSize := 2, pipeline := ⟨[.captureArtifact "target/app" "app"]⟩ }

/-- The failing job with a committee of one. -/
def singleJob : JobCall :=
  { failingJob with committeeSize := 1 }

/-- A host on which nothing can be executed. -/
def bareWorld : World where
  sourceFetch _ _ _ := .error .gitNotFound
  execWasm _ _ _ _ := .error "no runtime"
  execNative _ _ _ _ := .spawnFailed 0

/-- The seed and the assignment of the failing job. -/
def failingTurns : List Turn :=
  [⟨.ok (.jobSeed failingJob.jobId (jobSeedBytes failingJob.jobId)), bareWorld,
      sampleEntry 0, none⟩,
    ⟨.ok (.assign failingJob.jobId failingJob.pipeline failingJob.requirements
      failingJob.deadline), bareWorld, sampleEntry 0, none⟩]

/-- An honest connection on which the first `heard` messages arrive in time. -/
def honestConnection (runner : RunnerId) (heard : Nat) : RegisteredAgent where
  runnerId := runner
  stream := {
    inbound := (((sampleRunner runner).mainLoop modelCrypto failingTurns).take heard).map .ok ++
      [.error .timedOut]
    faults := []
    outbound := [] }
  signingPk := sampleEntry runner.toUInt8
  vrfPk := sampleEntry runner.toUInt8
  stake := 10
  capabilities := ⟨4, 4096, .linuxX86_64, {.wasm}⟩

theorem honestlyFails_honestConnection (runner : RunnerId) (heard : Nat) :
    HonestlyFails modelCrypto failingJob.pipeline (honestConnection runner heard) := by
  refine ⟨sampleRunner runner, failingTurns, ⟨rfl, rfl, modelKeypair_correct _, ?_⟩, ?_⟩
  · intro envelope arrived
    rcases List.mem_append.mp arrived with arrived | late
    · rcases List.mem_map.mp arrived with ⟨message, sent, same⟩
      cases same
      exact List.mem_of_mem_take sent
    · cases List.mem_singleton.mp late
  · intro turn _ result executed
    exact executePipeline_unsuccessful List.mem_cons_self executed

/-- Two runners of stake ten; the answer of the second arrives only if `heard` is
two. -/
def honestState (heard : Nat) : CoordinatorState where
  agents := [honestConnection 1 2, honestConnection 2 heard]
  stakeLedger := ⟨Table.collect [(1, 10), (2, 10)]⟩
  log := .mem ⟨[], ()⟩
  records := ∅
  journal := []

theorem honestlyFails_honestState {heard : Nat} (member : connection ∈ (honestState heard).agents) :
    HonestlyFails modelCrypto failingJob.pipeline connection := by
  rcases List.mem_cons.mp member with rfl | member
  · exact honestlyFails_honestConnection 1 2
  · cases List.mem_singleton.mp member
    exact honestlyFails_honestConnection 2 heard

/-- With one answer missing, the failing job is not decided. -/
theorem failing_job_unanchored_halfAnswered :
    ((runOneJob modelVerifiers .stored failingJob (honestState 1)).report.map
        JobReport.outcome) = some .retry ∧
      (∀ report, (runOneJob modelVerifiers .stored failingJob (honestState 1)).report =
        some report → report.outcome ≠ .pass) ∧
      (runOneJob modelVerifiers .stored failingJob (honestState 1)).state.log =
        (honestState 1).log := by
  refine ⟨by decide +kernel, ?_⟩
  apply (failing_job_unanchored_iff modelVerifiers .stored failingJob (honestState 1)
    fun _ _ connection member _ => honestlyFails_honestState member).mpr
  intro committee convenes
  have formed : formCommittee failingJob (honestState 1).agents
      (fleetClaims modelVerifiers failingJob.jobId (honestState 1).agents) = some [1, 2] := by
    decide +kernel
  cases Option.some.inj (convenes.formed.symm.trans formed)
  exact Or.inr (by decide +kernel)

/-- Both runners see the step fail, both attest success, and the job is anchored. -/
theorem failing_job_anchored :
    let run := runOneJob modelVerifiers .stored failingJob (honestState 2)
    (∀ connection ∈ (honestState 2).agents,
        HonestlyFails modelCrypto failingJob.pipeline connection) ∧
      (run.report.map JobReport.outcome) = some .pass ∧
      run.state.log.entries.length = 1 ∧
      ¬((∀ report, run.report = some report → report.outcome ≠ .pass) ∧
        run.state.log = (honestState 2).log) := by
  have passed : ((runOneJob modelVerifiers .stored failingJob (honestState 2)).report.map
      JobReport.outcome) = some .pass := by decide +kernel
  refine ⟨fun connection member => honestlyFails_honestState member, passed,
    by decide +kernel, ?_⟩
  rintro ⟨notPassed, -⟩
  rcases Option.map_eq_some_iff.mp passed with ⟨report, reported, outcome⟩
  exact notPassed report reported outcome

end Cosaci.Coordinator
