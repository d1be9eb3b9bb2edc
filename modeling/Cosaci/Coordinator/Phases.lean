import Cosaci.Coordinator.Durable

/-!
# The phases of a job on disk

The writes of a job mark the phases it goes through.  A restarted coordinator rebuilds
the phases from the journal alone, and so it misses one step: the append of the
artifact to the log stands between two journal entries.  Since the phases of a job are
those of every initial part of its writes, they also describe what a crash leaves.
-/

namespace Cosaci.Coordinator

open Foundation Cosaci.Core State

/-! ## The phases of a job -/

/-- How far a job has come on disk. -/
inductive JobPhase where
  | fresh
  | submitted
  | selected
  | aggregated (outcome : JournalOutcome) (artifactHex : String)
  | appended (artifactHex : String)
  | anchored (position : Nat)
  deriving DecidableEq

variable {write : DurableWrite} {writes : List DurableWrite} {jobId : JobId}
  {state : CoordinatorState} {jobs : List Dispatch}

namespace JobPhase

/-- The phase after a write of the job, if the job can make it in this phase. -/
def next : JobPhase → DurableWrite → Option JobPhase
  | .fresh, .journal (.jobSubmitted _) => some .submitted
  | .submitted, .journal (.committeeSelected _ _) => some .selected
  | .selected, .journal (.attestationReceived _ _) => some .selected
  | .selected, .journal (.aggregated _ outcome artifactHex) =>
      some (.aggregated outcome artifactHex)
  | .aggregated .pass artifactHex, .append _ _ => some (.appended artifactHex)
  | .appended _, .journal (.anchored _ position) => some (.anchored position)
  | _, _ => none

/-- The phase after a sequence of writes of the job. -/
def walk : JobPhase → List DurableWrite → Option JobPhase
  | phase, [] => some phase
  | phase, write :: rest => (phase.next write).bind fun later => walk later rest

theorem walk_append (phase : JobPhase) (first second : List DurableWrite) :
    phase.walk (first ++ second) = (phase.walk first).bind fun later => later.walk second := by
  induction first generalizing phase with
  | nil => rfl
  | cons write rest ih =>
      simp only [List.cons_append, walk, Option.bind_assoc]
      congr 1
      funext later
      exact ih later

/-- What the journal tells about a job in a phase. -/
def jobState : JobPhase → Option JobState
  | .fresh => none
  | .submitted => some .submitted
  | .selected => some .inFlight
  | .aggregated outcome artifactHex => some (.aggregatedNotAnchored outcome artifactHex)
  | .appended artifactHex => some (.aggregatedNotAnchored .pass artifactHex)
  | .anchored position => some (.anchored position)

/-- A journal entry moves the journaled state along with the phase; an append does not
show in the journal. -/
theorem jobState_of_next {phase later : JobPhase} (step : phase.next write = some later) :
    later.jobState = JobState.advanceAll phase.jobState write.entry?.toList := by
  unfold next at step
  split at step <;> cases step <;> rfl

theorem jobState_of_walk {phase last : JobPhase} (walked : phase.walk writes = some last) :
    last.jobState = JobState.advanceAll phase.jobState (journalOf writes) := by
  induction writes generalizing phase with
  | nil =>
      cases walked
      rfl
  | cons write rest ih =>
      rcases Option.bind_eq_some_iff.mp walked with ⟨later, step, remaining⟩
      rw [ih remaining, jobState_of_next step]
      cases write <;> rfl

/-- A count that every step increases by the weight of its write is increased by a walk
by the weights of its writes. -/
theorem count_of_walk {count : JobPhase → Nat} {counts : DurableWrite → Bool}
    (steps : ∀ phase later write, phase.next write = some later →
      count later = count phase + (if counts write then 1 else 0)) {phase last : JobPhase}
    (walked : phase.walk writes = some last) : count last = count phase + writes.countP counts := by
  induction writes generalizing phase with
  | nil =>
      cases walked
      rfl
  | cons write rest ih =>
      rcases Option.bind_eq_some_iff.mp walked with ⟨later, step, remaining⟩
      rw [ih remaining, steps phase later write step, List.countP_cons]
      omega

end JobPhase

/-- The phase that a job has reached after some writes of all jobs. -/
def phaseOf (writes : List DurableWrite) (jobId : JobId) : Option JobPhase :=
  JobPhase.walk .fresh (writes.filter fun write => write.jobId = jobId)

/-- Every job is in some phase: none has made a write out of turn. -/
def InPhase (writes : List DurableWrite) : Prop :=
  ∀ jobId, ∃ phase, phaseOf writes jobId = some phase

/-- A crash leaves every job in some phase. -/
theorem InPhase.take (inPhase : InPhase writes) (cut : Nat) : InPhase (writes.take cut) := by
  intro jobId
  rcases inPhase jobId with ⟨phase, walked⟩
  rw [phaseOf, ← List.take_append_drop cut writes, List.filter_append, JobPhase.walk_append,
    Option.bind_eq_some_iff] at walked
  rcases walked with ⟨earlier, walked, -⟩
  exact ⟨earlier, walked⟩

theorem journalOf_filter (writes : List DurableWrite) (jobId : JobId) :
    (journalOf writes).filter (fun entry => entry.jobId = jobId) =
      journalOf (writes.filter fun write => write.jobId = jobId) := by
  induction writes with
  | nil => rfl
  | cons write rest ih =>
      cases write with
      | journal entry =>
          by_cases same : entry.jobId = jobId
          · simp [DurableWrite.jobId, same, ih]
          · simp [DurableWrite.jobId, same, ih]
      | append job artifact =>
          by_cases same : job = jobId
          · simp [DurableWrite.jobId, same, ih]
          · simp [DurableWrite.jobId, same, ih]

/-- The restarted coordinator sees the phase of a job, except that it cannot tell whether
the artifact of an aggregated job has been appended. -/
theorem stateOf_phase {phase : JobPhase} (reached : phaseOf writes jobId = some phase) :
    (reconstructState (journalOf writes)).stateOf jobId = phase.jobState := by
  rw [stateOf_reconstructState, journalOf_filter, JobPhase.jobState_of_walk reached]
  rfl

/-! ## The phases of a session -/

section Walks

variable (verifiers : Verifiers) (order : IterationOrder Hash UInt32) (job : JobCall)

/-- The conclusion of a job does not stop at the append. -/
theorem walk_concludeWrites (committee : List RunnerId) (received : List Delivery)
    (log : LogBackend) (ledger : StakeLedger) :
    ∃ last, JobPhase.walk .selected (concludeWrites order job committee received log ledger) =
        some last ∧ ∀ artifactHex, last ≠ .appended artifactHex := by
  unfold concludeWrites
  dsimp only
  by_cases passed : (reportOf order job committee received ledger).outcome = .pass
  · rw [if_pos passed, passed]
    cases (log.append (reportOf order job committee received ledger).consensusArtifact
      job.appendIo).1 with
    | error kind => exact ⟨_, rfl, nofun⟩
    | ok position => exact ⟨_, rfl, nofun⟩
  · rw [if_neg passed]
    exact ⟨_, rfl, nofun⟩

private theorem walk_attestations (received : List Delivery) (rest : List DurableWrite) :
    JobPhase.walk .selected ((received.map fun delivery =>
      .journal (.attestationReceived job.jobId delivery.connection)) ++ rest) =
        JobPhase.walk .selected rest := by
  induction received with
  | nil => rfl
  | cons delivery others ih => exact ih

/-- A job goes through its phases in order, and does not stop at the append. -/
theorem walk_durableWrites (state : CoordinatorState) :
    ∃ last, JobPhase.walk .fresh (durableWrites verifiers order job state) = some last ∧
      ∀ artifactHex, last ≠ .appended artifactHex := by
  unfold durableWrites
  rcases convene verifiers job state.agents
    with ⟨kind | _ | ⟨committee, kind⟩ | committee, agents⟩
  · exact ⟨_, rfl, nofun⟩
  · exact ⟨_, rfl, nofun⟩
  · exact ⟨_, rfl, nofun⟩
  · rcases walk_concludeWrites order job committee
      (deliveries (collectAttestations verifiers.crypto committee agents).1) state.log
      state.stakeLedger with ⟨last, walked, finished⟩
    refine ⟨last, ?_, finished⟩
    rw [← walked, ← walk_attestations job]
    rfl

theorem jobId_concludeWrites {committee : List RunnerId} {received : List Delivery}
    {log : LogBackend} {ledger : StakeLedger}
    (member : write ∈ concludeWrites order job committee received log ledger) :
    write.jobId = job.jobId := by
  unfold concludeWrites at member
  dsimp only at member
  rcases List.mem_cons.mp member with rfl | member
  · rfl
  split at member
  · split at member
    · cases member
    · simp only [List.mem_cons, List.not_mem_nil, or_false] at member
      rcases member with rfl | rfl
      · rfl
      · rfl
  · cases member

/-- A job writes under its own number. -/
theorem jobId_durableWrites (member : write ∈ durableWrites verifiers order job state) :
    write.jobId = job.jobId := by
  unfold durableWrites at member
  rcases List.mem_cons.mp member with rfl | member
  · rfl
  rcases convened : convene verifiers job state.agents
    with ⟨kind | _ | ⟨committee, kind⟩ | committee, agents⟩
  · simp [convened] at member
  · simp [convened] at member
  · simp only [convened, List.mem_singleton] at member
    rw [member]
    rfl
  · simp only [convened, List.cons_append, List.mem_cons, List.mem_append, List.mem_map] at member
    rcases member with rfl | ⟨delivery, -, rfl⟩ | concluded
    · rfl
    · rfl
    · exact jobId_concludeWrites order job concluded

end Walks

theorem jobId_sessionWrites {verifiers : Verifiers}
    (member : write ∈ sessionWrites verifiers state jobs) :
    ∃ next ∈ jobs, write.jobId = next.job.jobId := by
  induction jobs generalizing state with
  | nil => cases member
  | cons next rest ih =>
      rcases List.mem_append.mp member with here | later
      · exact ⟨next, List.mem_cons_self, jobId_durableWrites _ _ _ here⟩
      · rcases ih later with ⟨other, listed, same⟩
        exact ⟨other, List.mem_cons_of_mem _ listed, same⟩

/-- The writes of earlier jobs do not change the phase of a job. -/
theorem phaseOf_append_of_others {first second : List DurableWrite}
    (others : ∀ write ∈ first, write.jobId ≠ jobId) :
    phaseOf (first ++ second) jobId = phaseOf second jobId := by
  have none : first.filter (fun write => write.jobId = jobId) = [] := by
    rw [List.filter_eq_nil_iff]
    intro write member named
    exact others write member (of_decide_eq_true named)
  rw [phaseOf, List.filter_append, none, List.nil_append]
  rfl

/-- Nor do the writes of later jobs change it. -/
theorem phaseOf_append_of_own {first second : List DurableWrite}
    (own : ∀ write ∈ first, write.jobId = jobId) (others : ∀ write ∈ second, write.jobId ≠ jobId) :
    phaseOf (first ++ second) jobId = JobPhase.walk .fresh first := by
  have all : first.filter (fun write => write.jobId = jobId) = first := by
    rw [List.filter_eq_self]
    exact fun write member => decide_eq_true (own write member)
  have none : second.filter (fun write => write.jobId = jobId) = [] := by
    rw [List.filter_eq_nil_iff]
    intro write member named
    exact others write member (of_decide_eq_true named)
  rw [phaseOf, List.filter_append, all, none, List.append_nil]

/-- The other jobs of a session do not write under the number of its first job. -/
theorem jobId_ne_of_mem_rest {verifiers : Verifiers} {next : Dispatch} {rest : List Dispatch}
    (distinct : ((next :: rest).map fun next => next.job.jobId).Nodup)
    (member : write ∈ sessionWrites verifiers state rest) : write.jobId ≠ next.job.jobId := by
  intro named
  rcases jobId_sessionWrites member with ⟨other, listed, number⟩
  rcases List.nodup_cons.mp distinct with ⟨fresh, -⟩
  exact fresh (List.mem_map.mpr ⟨other, listed, number.symm.trans named⟩)

/-- Jobs with different numbers go through their phases one after the other; none is left
at the append. -/
theorem phaseOf_sessionWrites (verifiers : Verifiers) (state : CoordinatorState)
    (distinct : (jobs.map fun next => next.job.jobId).Nodup) (jobId : JobId) :
    ∃ phase, phaseOf (sessionWrites verifiers state jobs) jobId = some phase ∧
      ∀ artifactHex, phase ≠ .appended artifactHex := by
  induction jobs generalizing state with
  | nil => exact ⟨.fresh, rfl, nofun⟩
  | cons next rest ih =>
      rw [sessionWrites]
      by_cases same : next.job.jobId = jobId
      · subst same
        rw [phaseOf_append_of_own (fun _ member => jobId_durableWrites _ _ _ member)
          fun _ member => jobId_ne_of_mem_rest distinct member]
        exact walk_durableWrites verifiers next.order next.job state
      · rw [phaseOf_append_of_others]
        · exact ih _ (List.nodup_cons.mp distinct).2
        · intro write member
          rw [jobId_durableWrites _ _ _ member]
          exact same

theorem inPhase_sessionWrites (verifiers : Verifiers) (state : CoordinatorState)
    (distinct : (jobs.map fun next => next.job.jobId).Nodup) :
    InPhase (sessionWrites verifiers state jobs) := by
  intro jobId
  rcases phaseOf_sessionWrites verifiers state distinct jobId with ⟨phase, reached, -⟩
  exact ⟨phase, reached⟩

end Cosaci.Coordinator
