import Cosaci.Coordinator.Durable
import Cosaci.Coordinator.HonestCommittee
import Cosaci.Core.LogRefinement

/-!
# Retrieving anchored jobs

The read side of the coordinator builds a bundle from the record of a job and the log:
an inclusion proof against the root over the entries that the log had when the job was
anchored.  The log only grows and job numbers are used once, so a bundle can be rebuilt
unchanged for as long as the session lasts.
-/

namespace Cosaci.Coordinator

open Foundation Cosaci.Core State

/-- Verifiable retrieval bundle. -/
structure JobBundle where
  jobId : JobId
  pipelineHash : Hash
  committeeAttestations : List Attestation
  consensusArtifact : Hash
  merkleProof : InclusionProof
  logRoot : Hash
  logPosition : Nat
  logLengthAtAnchor : Nat
  deriving DecidableEq

/-- A record with its proof and the root that the proof is checked against. -/
def JobRecord.bundle (record : JobRecord) (proof : InclusionProof) (root : Hash) :
    JobBundle where
  jobId := record.jobId
  pipelineHash := record.pipelineHash
  committeeAttestations := record.committeeAttestations
  consensusArtifact := record.consensusArtifact
  merkleProof := proof
  logRoot := root
  logPosition := record.logPosition
  logLengthAtAnchor := record.logLengthAtAnchor

/-- Build the bundle of a job from the records and the log. -/
def buildBundle {σ : Type} (crypto : Crypto) (records : Table JobId JobRecord)
    (log : MerkleLog σ) (jobId : JobId) : Option JobBundle := do
  let record ← records.lookup jobId
  let proof ← log.inclusionProofAt crypto record.logPosition record.logLengthAtAnchor
  let root ← log.rootAt crypto record.logLengthAtAnchor
  return record.bundle proof root

variable {jobId : JobId} {bundle : JobBundle} {log : LogBackend}

theorem buildBundle_eq_some_iff {σ : Type} {crypto : Crypto} {records : Table JobId JobRecord}
    {log : MerkleLog σ} :
    buildBundle crypto records log jobId = some bundle ↔
      ∃ record proof root, records.lookup jobId = some record ∧
        log.inclusionProofAt crypto record.logPosition record.logLengthAtAnchor = some proof ∧
        log.rootAt crypto record.logLengthAtAnchor = some root ∧
        record.bundle proof root = bundle := by
  simp only [buildBundle, Option.bind_eq_bind, Option.bind_eq_some_iff, Option.pure_def,
    Option.some.injEq, exists_and_left]

namespace LogBackend

def buildBundle (crypto : Crypto) (log : LogBackend) (records : Table JobId JobRecord)
    (jobId : JobId) : Option JobBundle :=
  match log with
  | .mem log => Coordinator.buildBundle crypto records log jobId
  | .file log => Coordinator.buildBundle crypto records log jobId

theorem len_eq (log : LogBackend) : log.len = log.entries.length := by
  cases log <;> rfl

/-- The log that the coordinator starts with: a new one in memory, or one opened from a
file. -/
def Opened : LogBackend → Prop
  | .mem log => log.entries = []
  | .file log => ∃ file, MerkleLog.open file = .ok log

/-- The store numbers the next entry by the number of entries. -/
def Counted : LogBackend → Prop
  | .mem _ => True
  | .file log => log.store.len = log.entries.length

theorem Opened.counted (opened : log.Opened) : log.Counted := by
  cases log with
  | mem log => trivial
  | file log =>
      rcases opened with ⟨file, opened⟩
      rw [Counted, (MerkleLog.open_eq_ok_iff.mp opened).2]

/-- An append adds its entry at the end and returns its position there, or it fails and
leaves the entries as they are. -/
theorem append_of_counted (counted : log.Counted) (entry : Hash) (io : AppendIo) :
    (log.append entry io).2.Counted ∧
      ((log.append entry io).1 = .ok log.entries.length ∧
          (log.append entry io).2.entries = log.entries ++ [entry] ∨
        (∃ kind, (log.append entry io).1 = .error kind) ∧
          (log.append entry io).2.entries = log.entries) := by
  cases log with
  | mem log => exact ⟨trivial, Or.inl ⟨rfl, rfl⟩⟩
  | file log =>
      simp only [Counted] at counted
      cases io with
      | ok =>
          refine ⟨?_, Or.inl ⟨?_, rfl⟩⟩
          · simp [append, MerkleLog.append, FileStore.append, Counted, counted]
          · simp [append, MerkleLog.append, FileStore.append, entries, counted]
      | writeFails written => exact ⟨counted, Or.inr ⟨⟨.other, rfl⟩, rfl⟩⟩
      | syncFails => exact ⟨counted, Or.inr ⟨⟨.other, rfl⟩, rfl⟩⟩

theorem entries_append_grows (counted : log.Counted) (entry : Hash) (io : AppendIo) :
    log.entries <+: (log.append entry io).2.entries := by
  rcases (append_of_counted counted entry io).2 with ⟨-, grown⟩ | ⟨-, same⟩
  · rw [grown]
    exact List.prefix_append _ _
  · rw [same]

end LogBackend

/-! ## What a job does to the log and the records -/

/-- The job passed, and its artifact was appended. -/
def JobRun.Anchored (run : JobRun) : Prop :=
  run.result = .ok () ∧ ∃ report, run.report = some report ∧ report.outcome = .pass

/-- The log has grown by the artifact of a record, which says where. -/
structure Anchors (before after : CoordinatorState) (record : JobRecord) : Prop where
  position : record.logPosition = before.log.entries.length
  length : record.logLengthAtAnchor = before.log.entries.length + 1
  entries : after.log.entries = before.log.entries ++ [record.consensusArtifact]
  records : after.records = before.records.insert record.jobId record

/-- Neither the entries of the log nor the records have changed. -/
structure Skips (before after : CoordinatorState) : Prop where
  entries : after.log.entries = before.log.entries
  records : after.records = before.records

section Conclusion

variable (crypto : Crypto) {order : IterationOrder Hash UInt32} {job : JobCall}
  {committee : List RunnerId} {received : List Delivery} {state : CoordinatorState}

theorem skips_conclude_of_unpassed
    (unpassed : (reportOf order job committee received state.stakeLedger).outcome ≠ .pass) :
    let run := conclude crypto order job committee received state
    run.state.log = state.log ∧ ¬run.Anchored ∧ Skips state run.state := by
  simp only [conclude, unpassed, ↓reduceIte]
  refine ⟨rfl, ?_, rfl, rfl⟩
  rintro ⟨-, report, reported, wrong⟩
  cases reported
  exact unpassed wrong

theorem skips_conclude_of_error {kind : IoErrorKind}
    (passed : (reportOf order job committee received state.stakeLedger).outcome = .pass)
    (appended : state.log.append (reportOf order job committee received
      state.stakeLedger).consensusArtifact job.appendIo = (.error kind, log))
    (same : log.entries = state.log.entries) :
    let run := conclude crypto order job committee received state
    run.state.log = log ∧ ¬run.Anchored ∧ Skips state run.state := by
  simp only [conclude, passed, ↓reduceIte, CoordinatorState.journalAppend, appended]
  refine ⟨trivial, ?_, same, rfl⟩
  rintro ⟨failed, -⟩
  cases failed

theorem anchors_conclude_of_ok
    (passed : (reportOf order job committee received state.stakeLedger).outcome = .pass)
    (appended : state.log.append (reportOf order job committee received
      state.stakeLedger).consensusArtifact job.appendIo = (.ok state.log.entries.length, log))
    (grown : log.entries = state.log.entries ++
      [(reportOf order job committee received state.stakeLedger).consensusArtifact]) :
    let run := conclude crypto order job committee received state
    run.state.log = log ∧ run.Anchored ∧
      ∃ record, record.jobId = job.jobId ∧ Anchors state run.state record := by
  simp only [conclude, passed, ↓reduceIte, CoordinatorState.journalAppend, appended]
  have length : log.len = state.log.entries.length + 1 := by
    rw [LogBackend.len_eq, grown, List.length_append, List.length_singleton]
  let record : JobRecord := ⟨job.jobId, crypto.sha256 (Jobs.canonicalEncoding job.pipeline),
    received.map Delivery.attestation,
    (reportOf order job committee received state.stakeLedger).consensusArtifact,
    state.log.entries.length, log.len⟩
  exact ⟨trivial, ⟨rfl, _, rfl, passed⟩, record, rfl, rfl, length, grown, rfl⟩

end Conclusion

/-- A concluded job is anchored, or it leaves the entries and the records alone. -/
theorem anchors_conclude (crypto : Crypto) (order : IterationOrder Hash UInt32) (job : JobCall)
    (committee : List RunnerId) (received : List Delivery) {state : CoordinatorState}
    (counted : state.log.Counted) :
    let run := conclude crypto order job committee received state
    run.state.log.Counted ∧
      (run.Anchored ∧ (∃ record, record.jobId = job.jobId ∧ Anchors state run.state record) ∨
        ¬run.Anchored ∧ Skips state run.state) := by
  by_cases passed : (reportOf order job committee received state.stakeLedger).outcome = .pass
  · have appending := LogBackend.append_of_counted counted
      (reportOf order job committee received state.stakeLedger).consensusArtifact job.appendIo
    rcases appended : state.log.append (reportOf order job committee received
      state.stakeLedger).consensusArtifact job.appendIo with ⟨kind | position, log⟩
    · rw [appended] at appending
      rcases appending with ⟨still, ⟨wrong, -⟩ | ⟨-, same⟩⟩
      · cases wrong
      · rcases skips_conclude_of_error crypto passed appended same with ⟨log, skipped⟩
        exact ⟨by rwa [log], Or.inr skipped⟩
    · rw [appended] at appending
      rcases appending with ⟨still, ⟨last, grown⟩ | ⟨⟨kind, wrong⟩, -⟩⟩
      · cases last
        rcases anchors_conclude_of_ok crypto passed appended grown with ⟨log, anchored⟩
        exact ⟨by rwa [log], Or.inl anchored⟩
      · cases wrong
  · rcases skips_conclude_of_unpassed crypto passed with ⟨log, skipped⟩
    exact ⟨by rwa [log], Or.inr skipped⟩

/-- So does a job as a whole. -/
theorem anchors_runOneJob (verifiers : Verifiers) (order : IterationOrder Hash UInt32)
    (job : JobCall) {state : CoordinatorState} (counted : state.log.Counted) :
    let run := runOneJob verifiers order job state
    run.state.log.Counted ∧
      (run.Anchored ∧ (∃ record, record.jobId = job.jobId ∧ Anchors state run.state record) ∨
        ¬run.Anchored ∧ Skips state run.state) := by
  by_cases convened : ∃ committee, Convenes verifiers job state.agents committee
  · rcases convened with ⟨committee, convenes⟩
    rcases runOneJob_eq order convenes with ⟨collected, -, sameLog, sameRecords, concluded⟩
    have anchored := anchors_conclude verifiers.crypto order job committee
      (fleetDeliveries verifiers.crypto committee state.agents)
      (show collected.log.Counted by rwa [sameLog])
    rw [concluded]
    rcases anchored with ⟨still, ⟨passed, record, number, position, length, entries, records⟩ |
      ⟨unpassed, entries, records⟩⟩
    · rw [sameLog] at position length entries
      rw [sameRecords] at records
      exact ⟨still, Or.inl ⟨passed, record, number, position, length, entries, records⟩⟩
    · rw [sameLog] at entries
      rw [sameRecords] at records
      exact ⟨still, Or.inr ⟨unpassed, entries, records⟩⟩
  · rcases runOneJob_unconvened order (not_exists.mp convened)
      with ⟨unreported, -, sameLog, sameRecords⟩
    intro run
    refine ⟨?_, Or.inr ⟨?_, ?_, sameRecords⟩⟩
    · rw [sameLog]
      exact counted
    · rintro ⟨-, report, reported, -⟩
      rw [unreported] at reported
      cases reported
    · rw [sameLog]

/-! ## Bundles -/

/-- A bundle can be built, carries the artifact that the log has at its position, and
verifies. -/
structure Retrieves (crypto : Crypto) (log : LogBackend) (records : Table JobId JobRecord)
    (jobId : JobId) (bundle : JobBundle) : Prop where
  built : log.buildBundle crypto records jobId = some bundle
  entry : bundle.merkleProof.entry = bundle.consensusArtifact
  logged : log.entries[bundle.logPosition]? = some bundle.consensusArtifact
  verified : verifyInclusion crypto bundle.merkleProof bundle.logRoot = true

/-- Bundles are built from the entries alone. -/
theorem LogBackend.buildBundle_eq (crypto : Crypto) (log : LogBackend)
    (records : Table JobId JobRecord) (jobId : JobId) :
    log.buildBundle crypto records jobId =
      Coordinator.buildBundle crypto records (⟨log.entries, ()⟩ : MerkleLog Unit) jobId := by
  cases log <;> rfl

/-- A job that is anchored can be retrieved. -/
theorem Anchors.retrieves (crypto : Crypto) {before after : CoordinatorState}
    {record : JobRecord} (anchors : Anchors before after record) :
    ∃ bundle, Retrieves crypto after.log after.records record.jobId bundle := by
  rcases anchors with ⟨position, length, entries, records⟩
  let log : MerkleLog Unit := ⟨after.log.entries, ()⟩
  have last : log.entryAt record.logPosition = some record.consensusArtifact := by
    simp only [log, MerkleLog.entryAt, entries, position]
    exact List.getElem?_concat_length
  have bounded : record.logLengthAtAnchor ≤ log.len := by
    simp only [log, MerkleLog.len, entries, length, List.length_append, List.length_singleton,
      Nat.le_refl]
  rcases verifyInclusion_complete crypto last (show _ < record.logLengthAtAnchor by omega)
    bounded with ⟨proof, root, proved, rooted, entry, verified⟩
  have found : after.records.lookup record.jobId = some record := by
    rw [records]
    exact AList.lookup_insert _
  refine ⟨record.bundle proof root, ?_, entry, last, verified⟩
  rw [LogBackend.buildBundle_eq]
  exact buildBundle_eq_some_iff.mpr ⟨record, proof, root, found, proved, rooted, rfl⟩

/-- A bundle stays what it is while the log grows and the record is kept. -/
theorem Retrieves.of_grows {crypto : Crypto} {log later : LogBackend}
    {records laterRecords : Table JobId JobRecord}
    (retrieves : Retrieves crypto log records jobId bundle) (grows : log.entries <+: later.entries)
    (kept : laterRecords.lookup jobId = records.lookup jobId) :
    Retrieves crypto later laterRecords jobId bundle := by
  rcases retrieves with ⟨built, entry, logged, verified⟩
  rw [LogBackend.buildBundle_eq] at built
  rcases buildBundle_eq_some_iff.mp built with ⟨record, proof, root, found, proved, rooted, same⟩
  have bounded : record.logLengthAtAnchor ≤ (⟨log.entries, ()⟩ : MerkleLog Unit).len :=
    (MerkleLog.rootAt_eq_some rooted).1
  have laterGrows : (⟨log.entries, ()⟩ : MerkleLog Unit).entries <+:
      (⟨later.entries, ()⟩ : MerkleLog Unit).entries := grows
  refine ⟨?_, entry, ?_, verified⟩
  · rw [LogBackend.buildBundle_eq]
    refine buildBundle_eq_some_iff.mpr ⟨record, proof, root, ?_, ?_, ?_, same⟩
    · rw [kept, found]
    · rw [MerkleLog.inclusionProofAt_of_grows crypto laterGrows _ bounded, proved]
    · rw [MerkleLog.rootAt_of_grows crypto laterGrows bounded, rooted]
  · rcases grows with ⟨rest, entries⟩
    have inside := (List.getElem?_eq_some_iff.mp logged).1
    rw [← entries, List.getElem?_append_left inside, logged]

theorem Retrieves.recorded {crypto : Crypto} {records : Table JobId JobRecord}
    (retrieves : Retrieves crypto log records jobId bundle) : jobId ∈ records := by
  have built := retrieves.built
  rw [LogBackend.buildBundle_eq] at built
  rcases buildBundle_eq_some_iff.mp built with ⟨record, proof, root, found, -⟩
  rw [← AList.lookup_isSome, found]
  rfl

/-! ## Whole runs -/

section Run

variable (verifiers : Verifiers) {state : CoordinatorState}

/-- Jobs keep the count of the log, let it only grow, and touch no record but their
own. -/
theorem kept_final (counted : state.log.Counted) {jobs : List Dispatch}
    (others : ∀ next ∈ jobs, next.job.jobId ≠ jobId) :
    let reached := (dispatchMachine verifiers).final state jobs
    reached.log.Counted ∧ state.log.entries <+: reached.log.entries ∧
      reached.records.lookup jobId = state.records.lookup jobId := by
  induction jobs generalizing state with
  | nil => exact ⟨counted, List.prefix_refl _, rfl⟩
  | cons next rest ih =>
      rcases anchors_runOneJob verifiers next.order next.job counted with ⟨still, step⟩
      rcases ih still fun other member => others other (List.mem_cons_of_mem _ member)
        with ⟨counts, grows, kept⟩
      refine ⟨counts, ?_, kept.trans ?_⟩
      · refine List.IsPrefix.trans ?_ grows
        rcases step with ⟨-, record, -, anchors⟩ | ⟨-, skips⟩
        · rw [anchors.entries]
          exact List.prefix_append _ _
        · rw [skips.entries]
      · rcases step with ⟨-, record, number, anchors⟩ | ⟨-, skips⟩
        · have apart : jobId ≠ record.jobId := by
            rw [number]
            exact (others next List.mem_cons_self).symm
          rw [anchors.records, AList.lookup_insert_ne apart]
        · rw [skips.records]

/-- Whatever has been recorded was recorded by a job that passed. -/
theorem anchored_of_recorded (counted : state.log.Counted) {jobs : List Dispatch}
    (recorded : jobId ∈ ((dispatchMachine verifiers).final state jobs).records) :
    jobId ∈ state.records ∨ ∃ earlier next later, jobs = earlier ++ next :: later ∧
      next.job.jobId = jobId ∧ (runOneJob verifiers next.order next.job
        ((dispatchMachine verifiers).final state earlier)).Anchored := by
  induction jobs generalizing state with
  | nil => exact Or.inl recorded
  | cons next rest ih =>
      rcases anchors_runOneJob verifiers next.order next.job counted with ⟨still, step⟩
      rcases ih still recorded with here | ⟨earlier, other, later, split, number, passed⟩
      · rcases step with ⟨passed, record, number, anchors⟩ | ⟨-, skips⟩
        · rw [anchors.records, AList.mem_insert, number] at here
          rcases here with rfl | before
          · exact Or.inr ⟨[], next, rest, rfl, rfl, passed⟩
          · exact Or.inl before
        · rw [skips.records] at here
          exact Or.inl here
      · refine Or.inr ⟨next :: earlier, other, later, ?_, number, passed⟩
        rw [split, List.cons_append]

theorem counted_final (counted : state.log.Counted) (jobs : List Dispatch) :
    ((dispatchMachine verifiers).final state jobs).log.Counted :=
  (dispatchMachine verifiers).final_of_step (fun state => state.log.Counted)
    (fun _ next counted => (anchors_runOneJob verifiers next.order next.job counted).1)
    counted jobs

private theorem jobId_ne_of_later {earlier later : List Dispatch} {next : Dispatch}
    (distinct : ((earlier ++ next :: later).map fun next => next.job.jobId).Nodup) :
    ∀ other ∈ later, other.job.jobId ≠ next.job.jobId := by
  rw [List.map_append, List.map_cons, List.nodup_append] at distinct
  rcases List.nodup_cons.mp distinct.2.1 with ⟨fresh, -⟩
  intro other member same
  exact fresh (List.mem_map.mpr ⟨other, member, same⟩)

/-- The bundle of a job that passed, from then on. -/
theorem retrieves_of_anchored (counted : state.log.Counted) {earlier later : List Dispatch}
    {next : Dispatch}
    (distinct : ((earlier ++ next :: later).map fun next => next.job.jobId).Nodup)
    (passed : (runOneJob verifiers next.order next.job
      ((dispatchMachine verifiers).final state earlier)).Anchored) :
    let anchored := (dispatchMachine verifiers).final state (earlier ++ [next])
    let reached := (dispatchMachine verifiers).final state (earlier ++ next :: later)
    ∃ bundle,
      Retrieves verifiers.crypto anchored.log anchored.records next.job.jobId bundle ∧
      Retrieves verifiers.crypto reached.log reached.records next.job.jobId bundle ∧
      ∀ entry io, Retrieves verifiers.crypto (reached.log.append entry io).2 reached.records
        next.job.jobId bundle := by
  intro anchored reached
  rcases anchors_runOneJob verifiers next.order next.job
    (counted_final verifiers counted earlier) with ⟨still, step⟩
  rcases step with ⟨-, record, number, anchors⟩ | ⟨unpassed, -⟩
  · have here : anchored = (runOneJob verifiers next.order next.job
        ((dispatchMachine verifiers).final state earlier)).state :=
      (dispatchMachine verifiers).final_concat state earlier next
    have run : reached = (dispatchMachine verifiers).final anchored later := by
      simp only [reached, anchored, ← Machine.final_append, List.append_assoc,
        List.singleton_append]
    rw [← here] at anchors still
    rcases kept_final verifiers still (jobId_ne_of_later distinct) with ⟨counts, grows, kept⟩
    rw [← run] at counts grows kept
    rcases anchors.retrieves verifiers.crypto with ⟨bundle, retrieves⟩
    rw [number] at retrieves
    have later := retrieves.of_grows grows kept
    refine ⟨bundle, retrieves, later, ?_⟩
    intro entry io
    exact later.of_grows (LogBackend.entries_append_grows counts entry io) rfl
  · exact False.elim (unpassed passed)

end Run

/-- Every job that passes is recorded.  Every recorded job can be retrieved right after
it was anchored and at every later moment, also between the append and the record of a
later job, each time with the same bundle. -/
theorem retrieval_sound (verifiers : Verifiers) (state : CoordinatorState)
    (opened : state.log.Opened) (unrecorded : state.records = ∅) (jobs : List Dispatch)
    (distinct : (jobs.map fun next => next.job.jobId).Nodup) :
    let reached := (dispatchMachine verifiers).final state jobs
    (∀ earlier next later, jobs = earlier ++ next :: later →
      (runOneJob verifiers next.order next.job
        ((dispatchMachine verifiers).final state earlier)).Anchored →
      next.job.jobId ∈ reached.records) ∧
    ∀ jobId ∈ reached.records, ∃ earlier next later bundle, jobs = earlier ++ next :: later ∧
      next.job.jobId = jobId ∧
      let anchored := (dispatchMachine verifiers).final state (earlier ++ [next])
      Retrieves verifiers.crypto anchored.log anchored.records jobId bundle ∧
      Retrieves verifiers.crypto reached.log reached.records jobId bundle ∧
      ∀ entry io, Retrieves verifiers.crypto (reached.log.append entry io).2 reached.records
        jobId bundle := by
  intro reached
  constructor
  · intro earlier next later split passed
    subst split
    rcases retrieves_of_anchored verifiers opened.counted distinct passed
      with ⟨bundle, -, retrieves, -⟩
    exact retrieves.recorded
  · intro jobId recorded
    rcases anchored_of_recorded verifiers opened.counted recorded
      with before | ⟨earlier, next, later, split, number, passed⟩
    · rw [unrecorded] at before
      exact False.elim (AList.notMem_empty jobId before)
    · subst split number
      rcases retrieves_of_anchored verifiers opened.counted distinct passed
        with ⟨bundle, retrieves⟩
      exact ⟨earlier, next, later, bundle, rfl, rfl, retrieves⟩

/-- The seed and the assignment of a job on a host that cannot execute it. -/
def turnsOf (job : JobCall) : List Agent.Turn :=
  [⟨.ok (.jobSeed job.jobId (jobSeedBytes job.jobId)), bareWorld, sampleEntry 0, none⟩,
    ⟨.ok (.assign job.jobId job.pipeline job.requirements job.deadline), bareWorld,
      sampleEntry 0, none⟩]

def repeatedJob : JobCall :=
  { failingJob with jobId := 2 }

/-- Two honest runners that answer in both jobs. -/
def twoJobState : CoordinatorState :=
  { honestState 2 with agents := [1, 2].map fun runner =>
      { honestConnection runner 2 with
        stream := {
          inbound := ((sampleRunner runner).mainLoop modelCrypto
            (turnsOf failingJob ++ turnsOf repeatedJob)).map .ok
          faults := []
          outbound := [] } } }

private theorem keys_twoJobs : ((dispatchMachine modelVerifiers).final twoJobState
    [⟨.stored, failingJob⟩, ⟨.stored, repeatedJob⟩]).records.keys = [2, 1] := by
  decide +kernel

/-- The first of two anchored jobs is retrieved after the second one. -/
theorem retrieval_sound_twoJobs :
    let reached := (dispatchMachine modelVerifiers).final twoJobState
      [⟨.stored, failingJob⟩, ⟨.stored, repeatedJob⟩]
    reached.records.keys = [2, 1] ∧
      ∃ bundle, Retrieves modelCrypto reached.log reached.records 1 bundle := by
  have recorded : 1 ∈ ((dispatchMachine modelVerifiers).final twoJobState
      [⟨.stored, failingJob⟩, ⟨.stored, repeatedJob⟩]).records := by
    rw [AList.mem_keys, keys_twoJobs]
    decide
  have sound := retrieval_sound modelVerifiers twoJobState rfl rfl
    [⟨.stored, failingJob⟩, ⟨.stored, repeatedJob⟩] (by decide)
  rcases sound.2 1 recorded with ⟨_, _, _, bundle, _, _, _, retrieves, _⟩
  exact ⟨keys_twoJobs, bundle, retrieves⟩

end Cosaci.Coordinator
