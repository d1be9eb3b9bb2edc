import Cosaci.Coordinator.Session
import Cosaci.State.Recovery

/-!
# The durable writes of a session

Two files outlive the coordinator: the journal and the Merkle log.  `run_one_job`
writes to them one after the other, without a transaction; a crash leaves an initial
part of the writes.  This module lists the writes of a job and of a whole session in
their order and shows that they produce the journal and the log of the model.
-/

namespace Cosaci.Coordinator

open Foundation Cosaci.Core State

/-! ## Writes -/

/-- A write that has reached the disk. -/
inductive DurableWrite where
  | journal (entry : JournalEntry)
  /-- The consensus artifact of a job is appended to the log. -/
  | append (jobId : JobId) (artifact : Hash)
  deriving DecidableEq

namespace DurableWrite

/-- The job that makes the write. -/
def jobId : DurableWrite → JobId
  | .journal entry => entry.jobId
  | .append jobId _ => jobId

def entry? : DurableWrite → Option JournalEntry
  | .journal entry => some entry
  | .append _ _ => none

def artifact? : DurableWrite → Option Hash
  | .journal _ => none
  | .append _ artifact => some artifact

end DurableWrite

/-- The journal made of some writes. -/
def journalOf (writes : List DurableWrite) : List JournalEntry :=
  writes.filterMap DurableWrite.entry?

/-- The log entries made of some writes. -/
def artifactsOf (writes : List DurableWrite) : List Hash :=
  writes.filterMap DurableWrite.artifact?

@[simp] theorem journalOf_nil : journalOf [] = [] := rfl

@[simp] theorem journalOf_cons_journal (entry : JournalEntry) (rest : List DurableWrite) :
    journalOf (.journal entry :: rest) = entry :: journalOf rest := rfl

@[simp] theorem journalOf_cons_append (jobId : JobId) (artifact : Hash)
    (rest : List DurableWrite) : journalOf (.append jobId artifact :: rest) = journalOf rest := rfl

@[simp] theorem artifactsOf_nil : artifactsOf [] = [] := rfl

@[simp] theorem artifactsOf_cons_journal (entry : JournalEntry) (rest : List DurableWrite) :
    artifactsOf (.journal entry :: rest) = artifactsOf rest := rfl

@[simp] theorem artifactsOf_cons_append (jobId : JobId) (artifact : Hash)
    (rest : List DurableWrite) :
    artifactsOf (.append jobId artifact :: rest) = artifact :: artifactsOf rest := rfl

@[simp] theorem journalOf_append (first second : List DurableWrite) :
    journalOf (first ++ second) = journalOf first ++ journalOf second :=
  List.filterMap_append

theorem mem_journalOf {writes : List DurableWrite} {entry : JournalEntry} :
    entry ∈ journalOf writes ↔ .journal entry ∈ writes := by
  rw [journalOf, List.mem_filterMap]
  constructor
  · rintro ⟨write, listed, written⟩
    cases write with
    | journal other =>
        cases written
        exact listed
    | append jobId artifact => cases written
  · intro listed
    exact ⟨_, listed, rfl⟩

@[simp] theorem artifactsOf_append (first second : List DurableWrite) :
    artifactsOf (first ++ second) = artifactsOf first ++ artifactsOf second :=
  List.filterMap_append

/-- The writes after the attestations have been collected. -/
def concludeWrites (order : IterationOrder Hash UInt32) (job : JobCall)
    (committee : List RunnerId) (received : List Delivery) (log : LogBackend)
    (ledger : StakeLedger) : List DurableWrite :=
  let report := reportOf order job committee received ledger
  .journal (.aggregated job.jobId (outcomeToJournal report.outcome)
      (hexLower report.consensusArtifact.toList)) ::
    if report.outcome = .pass then
      match (log.append report.consensusArtifact job.appendIo).1 with
      | .error _ => []
      | .ok position =>
          [.append job.jobId report.consensusArtifact, .journal (.anchored job.jobId position)]
    else
      []

/-- The writes of one job, in order. -/
def durableWrites (verifiers : Verifiers) (order : IterationOrder Hash UInt32) (job : JobCall)
    (state : CoordinatorState) : List DurableWrite :=
  .journal (.jobSubmitted job.jobId) ::
    match convene verifiers job state.agents with
    | (.failed _, _) => []
    | (.unfilled, _) => []
    | (.unassigned committee _, _) => [.journal (.committeeSelected job.jobId committee)]
    | (.convened committee, agents) =>
        let received := deliveries (collectAttestations verifiers.crypto committee agents).1
        .journal (.committeeSelected job.jobId committee) ::
          (received.map fun delivery =>
            .journal (.attestationReceived job.jobId delivery.connection)) ++
          concludeWrites order job committee received state.log state.stakeLedger

/-- The contents of the file behind a log. -/
def LogBackend.file? : LogBackend → Option (List UInt8)
  | .mem _ => none
  | .file log => some log.store.file

section Conclusion

variable (crypto : Crypto) (order : IterationOrder Hash UInt32) (job : JobCall)
  (committee : List RunnerId) (received : List Delivery) (state : CoordinatorState)

theorem journal_conclude :
    (conclude crypto order job committee received state).state.journal =
      state.journal ++
        journalOf (concludeWrites order job committee received state.log state.stakeLedger) := by
  unfold conclude concludeWrites
  dsimp only
  by_cases passed : (reportOf order job committee received state.stakeLedger).outcome = .pass
  · rw [if_pos passed, if_pos passed]
    rcases appended : state.log.append (reportOf order job committee received
      state.stakeLedger).consensusArtifact job.appendIo with ⟨kind | position, log⟩
    · simp only [CoordinatorState.journalAppend, appended]
      rfl
    · simp only [CoordinatorState.journalAppend, appended, List.append_assoc]
      rfl
  · rw [if_neg passed, if_neg passed]
    rfl

/-- When appends succeed, the file behind the log grows by what is appended. -/
theorem file?_conclude (ok : job.appendIo = .ok) :
    (conclude crypto order job committee received state).state.log.file? =
      state.log.file?.map fun file => file ++ joinRecords
        (artifactsOf (concludeWrites order job committee received state.log
          state.stakeLedger)) := by
  rw [log_conclude, concludeWrites]
  by_cases passed : outcomeOf committee received state.stakeLedger.asStakeMap = .pass
  · rw [if_pos passed, reportOf, if_pos passed, ok]
    cases state.log with
    | mem log => rfl
    | file log => simp [LogBackend.file?, LogBackend.append, MerkleLog.append,
        FileStore.append, joinRecords]
  · rw [if_neg passed, reportOf, if_neg passed]
    simp [joinRecords]

end Conclusion

section Job

variable (verifiers : Verifiers) (order : IterationOrder Hash UInt32) (job : JobCall)
  (state : CoordinatorState)

private theorem journalOf_map_journal {α : Type} (entry : α → JournalEntry) (list : List α) :
    journalOf (list.map fun item => .journal (entry item)) = list.map entry := by
  simp [journalOf, List.filterMap_map, Function.comp_def, DurableWrite.entry?]

private theorem artifactsOf_map_journal {α : Type} (entry : α → JournalEntry) (list : List α) :
    artifactsOf (list.map fun item => .journal (entry item)) = [] := by
  simp [artifactsOf, List.filterMap_map, Function.comp_def, DurableWrite.artifact?]

/-- The journal of the model lists the journal writes. -/
theorem journal_runOneJob :
    (runOneJob verifiers order job state).state.journal =
      state.journal ++ journalOf (durableWrites verifiers order job state) := by
  have same : (state.journalAppend [.jobSubmitted job.jobId]).agents = state.agents := rfl
  unfold runOneJob durableWrites
  dsimp only
  rw [same]
  rcases convene verifiers job state.agents
    with ⟨kind | _ | ⟨committee, kind⟩ | committee, agents⟩
  · rfl
  · rfl
  · simp [CoordinatorState.journalAppend]
  · dsimp only
    rw [journal_conclude]
    simp [CoordinatorState.journalAppend, journalOf_map_journal]

/-- When appends succeed, the file behind the log lists the appended artifacts. -/
theorem file?_runOneJob (ok : job.appendIo = .ok) :
    (runOneJob verifiers order job state).state.log.file? =
      state.log.file?.map fun file => file ++ joinRecords
        (artifactsOf (durableWrites verifiers order job state)) := by
  have same : (state.journalAppend [.jobSubmitted job.jobId]).agents = state.agents := rfl
  unfold runOneJob durableWrites
  dsimp only
  rw [same]
  rcases convene verifiers job state.agents
    with ⟨kind | _ | ⟨committee, kind⟩ | committee, agents⟩
  · simp [CoordinatorState.journalAppend, joinRecords]
  · simp [CoordinatorState.journalAppend, joinRecords]
  · simp [CoordinatorState.journalAppend, joinRecords]
  · dsimp only
    rw [file?_conclude _ _ _ _ _ _ ok]
    simp [CoordinatorState.journalAppend, artifactsOf_map_journal]

end Job

/-! ## The disk -/

/-- The two files: the bytes of the log and the records of the journal. -/
structure Disk where
  log : List UInt8
  journal : List JournalEntry
  deriving DecidableEq

namespace Disk

def perform (disk : Disk) : DurableWrite → Disk
  | .journal entry => { disk with journal := disk.journal ++ [entry] }
  | .append _ artifact => { disk with log := disk.log ++ artifact.toList }

def performAll (disk : Disk) (writes : List DurableWrite) : Disk :=
  writes.foldl perform disk

theorem performAll_eq (disk : Disk) (writes : List DurableWrite) :
    disk.performAll writes =
      ⟨disk.log ++ joinRecords (artifactsOf writes), disk.journal ++ journalOf writes⟩ := by
  induction writes generalizing disk with
  | nil => simp [performAll, joinRecords]
  | cons write rest ih =>
      rw [performAll, List.foldl_cons, ← performAll, ih]
      cases write with
      | journal entry => simp [perform]
      | append jobId artifact => simp [perform, joinRecords]

end Disk

/-- What a crash leaves of a coordinator that keeps its log on disk. -/
def CoordinatorState.disk? (state : CoordinatorState) : Option Disk :=
  state.log.file?.map fun file => ⟨file, state.journal⟩

/-- The writes of a job produce the log and the journal that it leaves. -/
theorem disk?_runOneJob (verifiers : Verifiers) (order : IterationOrder Hash UInt32)
    {job : JobCall} (ok : job.appendIo = .ok) (state : CoordinatorState) :
    (runOneJob verifiers order job state).state.disk? =
      state.disk?.map fun disk => disk.performAll (durableWrites verifiers order job state) := by
  simp only [CoordinatorState.disk?, file?_runOneJob verifiers order job state ok,
    journal_runOneJob, Option.map_map, Function.comp_def, Disk.performAll_eq]

/-! ## Whole sessions -/

/-- A job and the iteration order of its counting map. -/
structure Dispatch where
  order : IterationOrder Hash UInt32
  job : JobCall

/-- The main loop: it numbers the jobs that come in, from the number of completed jobs
on, and stops at the limit.  A job that fails also counts as completed. -/
def jobLoop (maxJobs : UInt64) : UInt64 → List Dispatch → List Dispatch
  | _, [] => []
  | completed, next :: rest =>
      if completed < maxJobs then
        { next with job := { next.job with jobId := completed + 1 } } ::
          jobLoop maxJobs (completed + 1) rest
      else
        []

/-- The numbers of a session increase. -/
theorem jobIds_jobLoop (maxJobs completed : UInt64) (incoming : List Dispatch) :
    ((jobLoop maxJobs completed incoming).map fun next => next.job.jobId).Pairwise (· < ·) ∧
      ∀ next ∈ jobLoop maxJobs completed incoming, completed < next.job.jobId := by
  induction incoming generalizing completed with
  | nil => exact ⟨List.Pairwise.nil, nofun⟩
  | cons next rest ih =>
      rw [jobLoop]
      split
      · next below =>
          have bound := UInt64.lt_iff_toNat_lt.mp below
          have limit := maxJobs.toNat_lt
          have successor : completed < completed + 1 := by
            rw [UInt64.lt_iff_toNat_lt, UInt64.toNat_add, UInt64.toNat_one]
            omega
          rcases ih (completed + 1) with ⟨increasing, above⟩
          refine ⟨?_, ?_⟩
          · refine List.pairwise_cons.mpr ⟨?_, increasing⟩
            intro jobId later
            rcases List.mem_map.mp later with ⟨other, member, rfl⟩
            exact above other member
          · intro other member
            rcases List.mem_cons.mp member with rfl | member
            · exact successor
            · exact UInt64.lt_trans successor (above other member)
      · exact ⟨List.Pairwise.nil, nofun⟩

theorem nodup_jobIds_jobLoop (maxJobs completed : UInt64) (incoming : List Dispatch) :
    ((jobLoop maxJobs completed incoming).map fun next => next.job.jobId).Nodup :=
  (jobIds_jobLoop maxJobs completed incoming).1.imp fun smaller => UInt64.ne_of_lt smaller

/-- The coordinator as a machine that consumes dispatched jobs. -/
def dispatchMachine (verifiers : Verifiers) : Machine CoordinatorState Dispatch JobRun where
  step state next :=
    let run := runOneJob verifiers next.order next.job state
    (run, run.state)

/-- The writes of a sequence of jobs, in order. -/
def sessionWrites (verifiers : Verifiers) :
    CoordinatorState → List Dispatch → List DurableWrite
  | _, [] => []
  | state, next :: rest =>
      durableWrites verifiers next.order next.job state ++
        sessionWrites verifiers (runOneJob verifiers next.order next.job state).state rest

/-- The writes of a session produce the log and the journal that it leaves. -/
theorem disk?_final (verifiers : Verifiers) (state : CoordinatorState) (jobs : List Dispatch)
    (ok : ∀ next ∈ jobs, next.job.appendIo = .ok) :
    ((dispatchMachine verifiers).final state jobs).disk? =
      state.disk?.map fun disk => disk.performAll (sessionWrites verifiers state jobs) := by
  induction jobs generalizing state with
  | nil => simp [Machine.final, sessionWrites, Disk.performAll]
  | cons next rest ih =>
      have first : next.job.appendIo = .ok := ok next List.mem_cons_self
      rw [Machine.final, ih _ fun other member => ok other (List.mem_cons_of_mem _ member)]
      simp only [dispatchMachine, disk?_runOneJob verifiers next.order first, Option.map_map,
        Function.comp_def, sessionWrites, Disk.performAll, List.foldl_append]

end Cosaci.Coordinator
