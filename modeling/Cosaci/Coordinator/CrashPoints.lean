import Cosaci.Coordinator.HonestCommittee
import Cosaci.Coordinator.Phases

/-!
# Log and journal after a crash

A passed job appends its artifact to the log and then journals that it is anchored.
Between the two writes the log is ahead of the journal: a coordinator that restarts
there is told to anchor a job whose artifact is in the log already.  At every other
crash point the log and the jobs to anchor together hold each passed job once.
-/

namespace Cosaci.Coordinator

open Foundation Cosaci.Core State

/-! ## Counting log entries by job -/

def DurableWrite.isAppend : DurableWrite → Bool
  | .journal _ => false
  | .append _ _ => true

/-- The jobs that have appended to the log, in order. -/
def appendedJobs (writes : List DurableWrite) : List JobId :=
  (writes.filter DurableWrite.isAppend).map DurableWrite.jobId

/-- Whether an entry records that a job passed. -/
def recordsPass : JournalEntry → Bool
  | .aggregated _ outcome _ => outcome == .pass
  | _ => false

/-- The jobs that passed, as far as the journal knows. -/
def passedJobs (journal : List JournalEntry) : List JobId :=
  (journal.filter recordsPass).map JournalEntry.jobId

/-- Whether the artifact of a passed job waits to be anchored. -/
def awaitsAnchor : JobState → Bool
  | .aggregatedNotAnchored outcome _ => outcome == .pass
  | _ => false

/-- The jobs whose artifacts are appended after a restart. -/
def pendingPasses (state : JournalState) : List JobId :=
  (state.jobs.entries.filter fun entry => awaitsAnchor entry.2).map Sigma.fst

/-- No job that is offered for anchoring has appended its artifact, and once the pending
artifacts are appended there is one log entry for each passed job. -/
structure AnchorsOnce (writes : List DurableWrite) (journal : List JournalEntry) : Prop where
  unappended : ∀ jobId ∈ (reconstructState journal).pendingReAnchor, jobId ∉ appendedJobs writes
  once : (appendedJobs writes ++ pendingPasses (reconstructState journal)).Perm
    (passedJobs journal)

variable {artifactHex : String}

namespace JobPhase

/-- The log entries of a job in a phase. -/
def appends : JobPhase → Nat
  | .appended _ => 1
  | .anchored _ => 1
  | _ => 0

/-- Whether a job in a phase is known to have passed. -/
def passes : JobPhase → Nat
  | .aggregated outcome _ => if outcome == .pass then 1 else 0
  | .appended _ => 1
  | .anchored _ => 1
  | _ => 0

theorem appends_of_next (phase later : JobPhase) (write : DurableWrite)
    (step : phase.next write = some later) :
    later.appends = phase.appends + (if write.isAppend then 1 else 0) := by
  unfold next at step
  split at step <;> cases step <;> rfl

/-- Whether a write records that a job passed. -/
def writesPass (write : DurableWrite) : Bool :=
  (write.entry?.map recordsPass).getD false

theorem passes_of_next (phase later : JobPhase) (write : DurableWrite)
    (step : phase.next write = some later) :
    later.passes = phase.passes + (if writesPass write then 1 else 0) := by
  unfold next at step
  split at step <;> cases step <;>
    simp [passes, writesPass, DurableWrite.entry?, recordsPass]

/-- Unless the job is between the append and the journal, an artifact that waits to be
anchored is not in the log. -/
theorem appends_of_pending {phase : JobPhase}
    (settled : ∀ artifactHex, phase ≠ .appended artifactHex) {outcome : JournalOutcome}
    (pending : phase.jobState = some (.aggregatedNotAnchored outcome artifactHex)) :
    phase.appends = 0 := by
  cases phase with
  | aggregated journaled hex => rfl
  | appended hex => exact False.elim (settled hex rfl)
  | fresh => rfl
  | submitted => rfl
  | selected => rfl
  | anchored position => cases pending

/-- Unless the job is there, it has passed if its artifact is in the log or waits. -/
theorem appends_add_pending {phase : JobPhase}
    (settled : ∀ artifactHex, phase ≠ .appended artifactHex) :
    phase.appends + (if phase.jobState.any awaitsAnchor then 1 else 0) = phase.passes := by
  cases phase with
  | aggregated journaled hex => exact Nat.zero_add _
  | appended hex => exact False.elim (settled hex rfl)
  | fresh => rfl
  | submitted => rfl
  | selected => rfl
  | anchored position => rfl

end JobPhase

section Counting

variable {writes : List DurableWrite} {jobId : JobId} {phase : JobPhase}
  (reached : phaseOf writes jobId = some phase)

include reached in
theorem count_appendedJobs : (appendedJobs writes).count jobId = phase.appends := by
  have counted := JobPhase.count_of_walk JobPhase.appends_of_next reached
  rw [counted, appendedJobs, List.count, List.countP_map, List.countP_filter, List.countP_filter]
  simp [JobPhase.appends, Bool.and_comm, beq_eq_decide]

include reached in
theorem count_passedJobs : (passedJobs (journalOf writes)).count jobId = phase.passes := by
  have counted := JobPhase.count_of_walk JobPhase.passes_of_next reached
  have own : (passedJobs (journalOf writes)).count jobId =
      ((journalOf writes).filter fun entry => entry.jobId = jobId).countP recordsPass := by
    rw [passedJobs, List.count, List.countP_map, List.countP_filter, List.countP_filter]
    simp [Bool.and_comm, beq_eq_decide]
  rw [own, journalOf_filter, journalOf, List.countP_filterMap, counted]
  exact (Nat.zero_add _).symm

include reached in
/-- A passed job waits to be anchored unless it is. -/
theorem count_pendingPasses :
    (pendingPasses (reconstructState (journalOf writes))).count jobId =
      if phase.jobState.any awaitsAnchor then 1 else 0 := by
  have distinct : (pendingPasses (reconstructState (journalOf writes))).Nodup :=
    (reconstructState (journalOf writes)).jobs.keys_nodup.sublist
      (List.filter_sublist.map Sigma.fst)
  have listed : jobId ∈ pendingPasses (reconstructState (journalOf writes)) ↔
      phase.jobState.any awaitsAnchor = true := by
    rw [← stateOf_phase reached, Option.any_eq_true]
    exact List.mem_toFinset.symm.trans Table.mem_keysWhere
  rw [distinct.count]
  simp only [listed]

end Counting

/-- The log and the journal agree exactly when no job has appended its artifact without
having journaled it. -/
theorem InPhase.anchorsOnce_iff {writes : List DurableWrite} (inPhase : InPhase writes) :
    AnchorsOnce writes (journalOf writes) ↔
      ∀ jobId artifactHex, phaseOf writes jobId ≠ some (.appended artifactHex) := by
  constructor
  · rintro ⟨unappended, -⟩ jobId artifactHex reached
    apply unappended jobId
    · rw [JournalState.mem_pendingReAnchor, stateOf_phase reached]
      exact ⟨.pass, artifactHex, rfl⟩
    · rw [← List.count_pos_iff, count_appendedJobs reached]
      exact Nat.one_pos
  · intro settled
    have elsewhere : ∀ jobId phase, phaseOf writes jobId = some phase →
        ∀ artifactHex, phase ≠ .appended artifactHex := by
      rintro jobId phase reached artifactHex rfl
      exact settled jobId artifactHex reached
    constructor
    · intro jobId pending
      rcases inPhase jobId with ⟨phase, reached⟩
      rw [JournalState.mem_pendingReAnchor, stateOf_phase reached] at pending
      rcases pending with ⟨outcome, artifactHex, state⟩
      rw [← List.count_eq_zero, count_appendedJobs reached]
      exact JobPhase.appends_of_pending (elsewhere jobId phase reached) state
    · rw [List.perm_iff_count]
      intro jobId
      rcases inPhase jobId with ⟨phase, reached⟩
      rw [List.count_append, count_appendedJobs reached, count_passedJobs reached,
        count_pendingPasses reached]
      exact JobPhase.appends_add_pending (elsewhere jobId phase reached)

/-! ## Where the crash may fall -/

theorem JobPhase.append_of_next {phase : JobPhase} {write : DurableWrite}
    (step : phase.next write = some (.appended artifactHex)) :
    ∃ jobId artifact, write = .append jobId artifact := by
  unfold next at step
  split at step
  case h_5 => exact ⟨_, _, rfl⟩
  all_goals cases step

theorem JobPhase.appended_of_next {phase later : JobPhase} {jobId : JobId} {artifact : Hash}
    (step : phase.next (.append jobId artifact) = some later) :
    ∃ artifactHex, later = .appended artifactHex := by
  cases phase with
  | aggregated outcome hex =>
      cases outcome with
      | pass => exact ⟨hex, (Option.some.inj step).symm⟩
      | fail => cases step
      | escalate => cases step
      | retry => cases step
  | fresh => cases step
  | submitted => cases step
  | selected => cases step
  | appended hex => cases step
  | anchored position => cases step

/-- A job is at the append only right after it. -/
theorem JobPhase.getLast?_of_walk_appended {writes : List DurableWrite}
    (walked : JobPhase.walk .fresh writes = some (.appended artifactHex)) :
    ∃ jobId artifact, writes.getLast? = some (.append jobId artifact) := by
  induction writes using List.reverseRecOn with
  | nil => cases walked
  | append_singleton writes last _ =>
      rw [walk_append, Option.bind_eq_some_iff] at walked
      rcases walked with ⟨before, -, walked⟩
      rcases Option.bind_eq_some_iff.mp walked with ⟨after, step, same⟩
      cases same
      rcases append_of_next step with ⟨jobId, artifact, rfl⟩
      exact ⟨jobId, artifact, List.getLast?_concat⟩

/-- A crash right after an append leaves its job there. -/
theorem InPhase.appended_of_getLast? {writes : List DurableWrite} (inPhase : InPhase writes)
    {jobId : JobId} {artifact : Hash} (last : writes.getLast? = some (.append jobId artifact)) :
    ∃ artifactHex, phaseOf writes jobId = some (.appended artifactHex) := by
  rcases inPhase jobId with ⟨phase, reached⟩
  rcases List.getLast?_eq_some_iff.mp last with ⟨earlier, rfl⟩
  have own : [DurableWrite.append jobId artifact].filter (fun write => write.jobId = jobId) =
      [.append jobId artifact] := by simp [DurableWrite.jobId]
  have walked := reached
  rw [phaseOf, List.filter_append, own, JobPhase.walk_append, Option.bind_eq_some_iff] at walked
  rcases walked with ⟨before, -, walked⟩
  rcases Option.bind_eq_some_iff.mp walked with ⟨after, step, same⟩
  cases same
  rcases JobPhase.appended_of_next step with ⟨artifactHex, rfl⟩
  exact ⟨artifactHex, reached⟩

/-- Inside the writes of a job, the job is at the append only right after it. -/
theorem getLast?_of_walk_take (verifiers : Verifiers) (order : IterationOrder Hash UInt32)
    (job : JobCall) (state : CoordinatorState) {cut : Nat}
    (reached : JobPhase.walk .fresh ((durableWrites verifiers order job state).take cut) =
      some (.appended artifactHex)) :
    cut ≤ (durableWrites verifiers order job state).length ∧
      ∃ other artifact, ((durableWrites verifiers order job state).take cut).getLast? =
        some (.append other artifact) := by
  rcases Nat.le_total (durableWrites verifiers order job state).length cut
    with complete | inside
  · rcases walk_durableWrites verifiers order job state with ⟨last, walked, finished⟩
    rw [List.take_of_length_le complete, walked] at reached
    exact False.elim (finished artifactHex (Option.some.inj reached))
  · exact ⟨inside, JobPhase.getLast?_of_walk_appended reached⟩

/-- Jobs run one after the other, so that a job is at the append only if the crash falls
right after it. -/
theorem getLast?_of_phaseOf_appended (verifiers : Verifiers) (state : CoordinatorState)
    {jobs : List Dispatch} (distinct : (jobs.map fun next => next.job.jobId).Nodup) {cut : Nat}
    {jobId : JobId} (reached : phaseOf ((sessionWrites verifiers state jobs).take cut) jobId =
      some (.appended artifactHex)) :
    ∃ other artifact, ((sessionWrites verifiers state jobs).take cut).getLast? =
      some (.append other artifact) := by
  induction jobs generalizing state cut with
  | nil =>
      rw [sessionWrites, List.take_nil] at reached
      cases reached
  | cons next rest ih =>
      rw [sessionWrites, List.take_append] at reached ⊢
      by_cases same : next.job.jobId = jobId
      · subst same
        rw [phaseOf_append_of_own
          (fun _ member => jobId_durableWrites _ _ _ (List.mem_of_mem_take member))
          fun _ member => jobId_ne_of_mem_rest distinct (List.mem_of_mem_take member)] at reached
        rcases getLast?_of_walk_take verifiers next.order next.job state reached
          with ⟨inside, last⟩
        rw [Nat.sub_eq_zero_of_le inside, List.take_zero, List.append_nil]
        exact last
      · rw [phaseOf_append_of_others] at reached
        · rcases ih _ (List.nodup_cons.mp distinct).2 reached with ⟨other, artifact, last⟩
          exact ⟨other, artifact, by rw [List.getLast?_append, last, Option.some_or]⟩
        · intro write member
          rw [jobId_durableWrites _ _ _ (List.mem_of_mem_take member)]
          exact same

/-- A crash after any of the durable writes leaves a log that opens, and a journal that
agrees with it exactly when the crash does not fall right after an append to the log. -/
theorem anchorsOnce_crash_iff (verifiers : Verifiers) (state : CoordinatorState)
    (maxJobs : UInt64) (incoming : List Dispatch) (before : List Hash)
    (ok : ∀ next ∈ jobLoop maxJobs 0 incoming, next.job.appendIo = .ok)
    (backed : state.disk? = some ⟨joinRecords before, []⟩) (cut : Nat) :
    let jobs := jobLoop maxJobs 0 incoming
    let writes := (sessionWrites verifiers state jobs).take cut
    let disk := Disk.performAll ⟨joinRecords before, []⟩ writes
    ((dispatchMachine verifiers).final state jobs).disk? =
        some (Disk.performAll ⟨joinRecords before, []⟩ (sessionWrites verifiers state jobs)) ∧
      (∃ log, MerkleLog.open disk.log = .ok log ∧ log.entries = before ++ artifactsOf writes) ∧
      (AnchorsOnce writes disk.journal ↔
        ∀ jobId artifact, writes.getLast? ≠ some (.append jobId artifact)) := by
  intro jobs writes disk
  have distinct := nodup_jobIds_jobLoop maxJobs 0 incoming
  have inPhase := (inPhase_sessionWrites verifiers state distinct).take cut
  have left : disk = ⟨joinRecords (before ++ artifactsOf writes), journalOf writes⟩ := by
    simp only [disk, Disk.performAll_eq, joinRecords_append, List.nil_append]
  refine ⟨?_, ?_, ?_⟩
  · rw [disk?_final verifiers state jobs ok, backed]
    rfl
  · rw [left]
    exact ⟨_, MerkleLog.open_joinRecords _, rfl⟩
  · rw [left, inPhase.anchorsOnce_iff]
    constructor
    · intro settled jobId artifact last
      rcases inPhase.appended_of_getLast? last with ⟨artifactHex, reached⟩
      exact settled jobId artifactHex reached
    · intro apart jobId artifactHex reached
      rcases getLast?_of_phaseOf_appended verifiers state distinct reached
        with ⟨other, artifact, last⟩
      exact apart other artifact last

/-- Two honest runners and an empty log on disk. -/
def loggedState : CoordinatorState :=
  { honestState 2 with log := .file ⟨[], ⟨[], 0⟩⟩ }

/-- A crash after the outcome is journaled: the artifact waits to be appended. -/
theorem anchorsOnce_crash_aggregated :
    let writes := (sessionWrites modelVerifiers loggedState
      (jobLoop 1 0 [⟨.stored, failingJob⟩])).take 5
    pendingPasses (reconstructState (journalOf writes)) = [1] ∧ appendedJobs writes = [] ∧
      AnchorsOnce writes (Disk.performAll ⟨[], []⟩ writes).journal := by
  intro writes
  have evaluated : pendingPasses (reconstructState (journalOf writes)) = [1] ∧
      appendedJobs writes = [] ∧
      writes.getLast?.map DurableWrite.isAppend = some false := by decide +kernel
  rcases evaluated with ⟨pending, appended, entry⟩
  refine ⟨pending, appended, ?_⟩
  have ok : ∀ next ∈ jobLoop 1 0 [⟨.stored, failingJob⟩], next.job.appendIo = .ok := by
    intro next member
    cases List.mem_singleton.mp member
    rfl
  have crash := (anchorsOnce_crash_iff modelVerifiers loggedState 1 [⟨.stored, failingJob⟩] []
    ok rfl 5).2.2
  apply crash.mpr
  intro jobId artifact last
  rw [last] at entry
  cases entry

/-- A crash right after the append: the artifact is in the log, and the job is offered
for anchoring once more. -/
theorem appended_artifact_offered :
    let writes := (sessionWrites modelVerifiers loggedState
      (jobLoop 1 0 [⟨.stored, failingJob⟩])).take 6
    let disk := Disk.performAll ⟨[], []⟩ writes
    ((MerkleLog.open disk.log).map MerkleLog.entries).map List.length = .ok 1 ∧
      appendedJobs writes = [1] ∧
      (reconstructState disk.journal).pendingReAnchor = [1] ∧
      ¬AnchorsOnce writes disk.journal := by
  intro writes disk
  have evaluated : ((MerkleLog.open disk.log).map MerkleLog.entries).map List.length = .ok 1 ∧
      appendedJobs writes = [1] ∧
      (reconstructState disk.journal).pendingReAnchor = [1] := by decide +kernel
  rcases evaluated with ⟨length, appended, pending⟩
  refine ⟨length, appended, pending, ?_⟩
  rintro ⟨unappended, -⟩
  exact unappended 1 (by rw [pending]; decide) (by rw [appended]; decide)

end Cosaci.Coordinator
