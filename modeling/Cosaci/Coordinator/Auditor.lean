import Cosaci.Coordinator.ReadServer

/-!
# The auditor

`verify`, the client that checks that a job is anchored: it asks for the job until it is
given a bundle, compares the parts of the bundle, asks for the length of the log, and
checks the proof.  Its requests are answered while the main thread goes on anchoring
jobs, at whatever moments they arrive, and any of them may get lost.
-/

namespace Cosaci.Coordinator

open Foundation Cosaci.Core State Protocol

/-! ## The coordinator between two requests -/

/-- What `run_one_job` has computed for a job that passed when it comes to anchor it. -/
structure Passed where
  jobId : JobId
  pipelineHash : Hash
  committeeAttestations : List Attestation
  consensusArtifact : Hash
  appendIo : AppendIo

def Passed.record (passed : Passed) (position length : Nat) : JobRecord where
  jobId := passed.jobId
  pipelineHash := passed.pipelineHash
  committeeAttestations := passed.committeeAttestations
  consensusArtifact := passed.consensusArtifact
  logPosition := position
  logLengthAtAnchor := length

/-- The log and the records, with what the main thread is about to do to them. -/
structure Anchorage where
  log : LogBackend
  records : Table JobId JobRecord
  /-- The record of a job whose artifact has been appended. -/
  pending : Option JobRecord
  /-- The jobs to be anchored after that. -/
  todo : List Passed

namespace Anchorage

/-- The next step of the main thread: insert the pending record, or append the artifact of
the next job.  A job whose artifact cannot be appended is aborted. -/
def advance (state : Anchorage) : Anchorage :=
  match state.pending, state.todo with
  | some record, _ =>
      { state with records := state.records.insert record.jobId record, pending := none }
  | none, [] => state
  | none, passed :: rest =>
      match state.log.append passed.consensusArtifact passed.appendIo with
      | (.error _, log) => { state with log := log, todo := rest }
      | (.ok position, log) =>
          { state with
            log := log
            pending := some (passed.record position log.len)
            todo := rest }

/-- Several steps. -/
def advances (state : Anchorage) (steps : Nat) : Anchorage :=
  advance^[steps] state

/-- The state in which a coordinator starts to serve. -/
structure Started (state : Anchorage) : Prop where
  opened : state.log.Opened
  records : state.records = ∅
  pending : state.pending = none

end Anchorage

/-- The jobs that a concluded job leaves to anchor. -/
def passedOf (crypto : Crypto) (order : IterationOrder Hash UInt32) (job : JobCall)
    (committee : List RunnerId) (received : List Delivery) (ledger : StakeLedger) :
    List Passed :=
  let report := reportOf order job committee received ledger
  if report.outcome = .pass then
    [{ jobId := job.jobId
       pipelineHash := crypto.sha256 (Jobs.canonicalEncoding job.pipeline)
       committeeAttestations := received.map Delivery.attestation
       consensusArtifact := report.consensusArtifact
       appendIo := job.appendIo }]
  else
    []

/-- Concluding a job does to the log and the records what the steps of the main thread
do. -/
theorem conclude_eq_advances (crypto : Crypto) (order : IterationOrder Hash UInt32)
    (job : JobCall) (committee : List RunnerId) (received : List Delivery)
    (state : CoordinatorState) :
    let run := conclude crypto order job committee received state
    Anchorage.advances ⟨state.log, state.records, none,
      passedOf crypto order job committee received state.stakeLedger⟩ 2 =
      ⟨run.state.log, run.state.records, none, []⟩ := by
  intro run
  simp only [run, conclude, passedOf, Anchorage.advances, Function.iterate_succ,
    Function.iterate_zero, Function.comp_apply, id]
  by_cases passed : (reportOf order job committee received state.stakeLedger).outcome = .pass
  · simp only [passed, if_true, CoordinatorState.journalAppend]
    rcases appended : state.log.append (reportOf order job committee received
      state.stakeLedger).consensusArtifact job.appendIo with ⟨kind | position, log⟩
    · simp only [Anchorage.advance, appended]
    · simp only [Anchorage.advance, appended]
      rfl
  · simp only [passed, if_false, CoordinatorState.journalAppend, Anchorage.advance]

/-! ## Records and the log -/

/-- The log has the artifact of a record where the record says. -/
structure Placed (log : LogBackend) (record : JobRecord) : Prop where
  length : record.logLengthAtAnchor = record.logPosition + 1
  bounded : record.logLengthAtAnchor ≤ log.entries.length
  entry : log.entries[record.logPosition]? = some record.consensusArtifact

variable {record : JobRecord}

theorem Placed.of_grows {log later : LogBackend} (placed : Placed log record)
    (grows : log.entries <+: later.entries) : Placed later record := by
  obtain ⟨rest, entries⟩ := grows
  have inside := (List.getElem?_eq_some_iff.mp placed.entry).1
  refine ⟨placed.length, ?_, ?_⟩
  · rw [← entries, List.length_append]
    exact Nat.le_add_right_of_le placed.bounded
  · rw [← entries, List.getElem?_append_left inside, placed.entry]

/-- A bundle that an auditor has nothing to complain about. -/
structure Flawless (crypto : Crypto) (bundle : JobBundle) : Prop where
  entry : bundle.merkleProof.entry = bundle.consensusArtifact
  position : bundle.merkleProof.position = bundle.logPosition
  length : bundle.merkleProof.lengthAtProof = bundle.logLengthAtAnchor
  verified : verifyInclusion crypto bundle.merkleProof bundle.logRoot = true

/-- The bundle of a record that is placed. -/
theorem Placed.exists_bundle {crypto : Crypto} {log : LogBackend} (placed : Placed log record)
    {records : Table JobId JobRecord} {jobId : JobId} (found : records.lookup jobId = some record) :
    ∃ bundle, log.buildBundle crypto records jobId = some bundle ∧ Flawless crypto bundle ∧
      bundle.jobId = record.jobId ∧ bundle.logPosition = record.logPosition ∧
      bundle.logLengthAtAnchor = record.logLengthAtAnchor ∧
      bundle.consensusArtifact = record.consensusArtifact := by
  have logged : (⟨log.entries, ()⟩ : MerkleLog Unit).entryAt record.logPosition =
      some record.consensusArtifact := placed.entry
  have inside : record.logPosition < record.logLengthAtAnchor := by
    rw [placed.length]
    exact Nat.lt_succ_self _
  obtain ⟨proof, root, proved, rooted, entry, verified⟩ := verifyInclusion_complete crypto
    logged inside placed.bounded
  have parts : proof.position = record.logPosition ∧
      proof.lengthAtProof = record.logLengthAtAnchor := by
    unfold MerkleLog.inclusionProofAt at proved
    split at proved
    · cases proved
    · obtain ⟨leaf, -, rfl⟩ := Option.map_eq_some_iff.mp proved
      exact ⟨rfl, rfl⟩
  refine ⟨record.bundle proof root, ?_, ⟨entry, parts.1, parts.2, verified⟩, rfl, rfl, rfl, rfl⟩
  rw [LogBackend.buildBundle_eq]
  exact buildBundle_eq_some_iff.mpr ⟨record, proof, root, found, proved, rooted, rfl⟩

namespace Anchorage

/-- Every record is placed, also the one that has not been inserted yet. -/
structure Sound (state : Anchorage) : Prop where
  counted : state.log.Counted
  recorded : ∀ jobId record, state.records.lookup jobId = some record →
    record.jobId = jobId ∧ Placed state.log record
  pending : ∀ record, state.pending = some record → Placed state.log record

theorem Started.sound {state : Anchorage} (started : state.Started) : state.Sound where
  counted := started.opened.counted
  recorded jobId record found := by
    rw [started.records, AList.lookup_empty] at found
    cases found
  pending record found := by
    rw [started.pending] at found
    cases found

variable {state : Anchorage}

/-- What a step of the main thread does: the log only grows, by at most one entry for
each job, and records stay. -/
structure Follows (state later : Anchorage) : Prop where
  grows : state.log.entries <+: later.log.entries
  kept : ∀ jobId, jobId ∈ state.records → jobId ∈ later.records
  room : later.log.entries.length + later.todo.length ≤
    state.log.entries.length + state.todo.length

theorem Follows.refl (state : Anchorage) : Follows state state :=
  ⟨List.prefix_refl _, fun _ => id, Nat.le_refl _⟩

theorem Follows.trans {middle last : Anchorage} (first : Follows state middle)
    (second : Follows middle last) : Follows state last :=
  ⟨first.grows.trans second.grows, fun jobId member => second.kept jobId (first.kept jobId member),
    second.room.trans first.room⟩

theorem Sound.insert (sound : state.Sound) (waiting : state.pending = some record) :
    Sound { state with
      records := state.records.insert record.jobId record
      pending := none } where
  counted := sound.counted
  recorded jobId other found := by
    by_cases same : jobId = record.jobId
    · subst same
      rw [AList.lookup_insert] at found
      cases found
      exact ⟨rfl, sound.pending record waiting⟩
    · rw [AList.lookup_insert_ne same] at found
      exact sound.recorded jobId other found
  pending _ := nofun

/-- One step of the main thread. -/
theorem Sound.advance (sound : state.Sound) :
    state.advance.Sound ∧ Follows state state.advance := by
  obtain ⟨log, records, pending, todo⟩ := state
  cases pending with
  | some record =>
      refine ⟨sound.insert rfl, List.prefix_refl _, ?_, Nat.le_refl _⟩
      intro jobId member
      exact AList.mem_insert _ |>.mpr (Or.inr member)
  | none =>
      cases todo with
      | nil => exact ⟨sound, Follows.refl _⟩
      | cons passed rest =>
          have appending := LogBackend.append_of_counted sound.counted passed.consensusArtifact
            passed.appendIo
          have grows := LogBackend.entries_append_grows sound.counted passed.consensusArtifact
            passed.appendIo
          rcases appended : log.append passed.consensusArtifact passed.appendIo
            with ⟨kind | position, later⟩
          · simp only [appended] at appending grows
            simp only [Anchorage.advance, appended]
            rcases appending with ⟨still, ⟨wrong, -⟩ | ⟨-, same⟩⟩
            · cases wrong
            refine ⟨⟨still, ?_, nofun⟩, grows, fun _ => id, ?_⟩
            · intro jobId record found
              obtain ⟨number, placed⟩ := sound.recorded jobId record found
              exact ⟨number, placed.of_grows grows⟩
            · simp only [same, List.length_cons]
              omega
          · simp only [appended] at appending grows
            simp only [Anchorage.advance, appended]
            rcases appending with ⟨still, ⟨last, grown⟩ | ⟨⟨kind, wrong⟩, -⟩⟩
            · cases last
              have longer : later.len = log.entries.length + 1 := by
                rw [LogBackend.len_eq, grown, List.length_append, List.length_singleton]
              refine ⟨⟨still, ?_, ?_⟩, grows, fun _ => id, ?_⟩
              · intro jobId record found
                obtain ⟨number, placed⟩ := sound.recorded jobId record found
                exact ⟨number, placed.of_grows grows⟩
              · intro record waiting
                cases waiting
                refine ⟨longer, ?_, ?_⟩
                · exact le_of_eq (LogBackend.len_eq later)
                · simp only [grown]
                  exact List.getElem?_concat_length
              · simp only [grown, List.length_append, List.length_cons, List.length_nil]
                omega
            · cases wrong

/-- Any number of steps. -/
theorem Sound.advances (sound : state.Sound) (steps : Nat) :
    (state.advances steps).Sound ∧ Follows state (state.advances steps) := by
  induction steps generalizing state with
  | zero => exact ⟨sound, Follows.refl state⟩
  | succ steps ih =>
      obtain ⟨still, follows⟩ := sound.advance
      obtain ⟨last, later⟩ := ih still
      exact ⟨last, follows.trans later⟩

end Anchorage

/-! ## The client -/

/-- A client's way to ask: what is written on a fresh connection, and what is read from
it. -/
abbrev Ask (σ : Type) := WireEnvelope → StateM σ (Except Core.IoErrorKind WireEnvelope)

/-- Why a request fails. -/
inductive RequestError where
  | io (kind : Core.IoErrorKind)
  | unexpected (response : WireEnvelope)

section Client

variable {σ : Type}

def requestJob (ask : Ask σ) (jobId : JobId) :
    StateM σ (Except RequestError (Option JobBundle)) := do
  match ← ask (.getJob jobId) with
  | .error kind => return .error (.io kind)
  | .ok (.jobBundleResponse bundle) => return .ok (some bundle)
  | .ok (.jobNotFound _) => return .ok none
  | .ok other => return .error (.unexpected other)

def requestLogRoot (ask : Ask σ) : StateM σ (Except RequestError (Option Hash × UInt64)) := do
  match ← ask .getLogRoot with
  | .error kind => return .error (.io kind)
  | .ok (.logRoot root length) => return .ok (root, length)
  | .ok other => return .error (.unexpected other)

/-- The loop over the attempts that are left. -/
def loopRequestBundle (ask : Ask σ) (jobId : JobId) : Nat → StateM σ (Option JobBundle)
  | 0 => return none
  | attempts + 1 => do
      match ← requestJob ask jobId with
      | .ok (some bundle) => return some bundle
      | .ok none | .error _ => loopRequestBundle ask jobId attempts

end Client

/-- How a run of the auditor ends. -/
inductive AuditVerdict where
  /-- The exit code is 0. -/
  | verified (bundle : JobBundle)
  /-- `job … not committed within … attempts`. -/
  | notCommitted (jobId : JobId) (maxAttempts : Nat)
  /-- The request for the log root fails. -/
  | failed (error : RequestError)
  /-- An assertion fails. -/
  | panicked (message : String)
  /-- The proof is rejected; the exit code is 1. -/
  | rejected

/-- The auditor reports success. -/
def AuditVerdict.isVerified : AuditVerdict → Bool
  | .verified _ => true
  | _ => false

/-- The comparisons that are made before the log root is asked for. -/
def bundleMismatch (bundle : JobBundle) : Option String :=
  if bundle.merkleProof.entry ≠ bundle.consensusArtifact then
    some "bundle entry mismatch"
  else if bundle.merkleProof.position ≠ bundle.logPosition then
    some "bundle position mismatch"
  else if bundle.merkleProof.lengthAtProof ≠ bundle.logLengthAtAnchor then
    some "bundle length mismatch"
  else
    none

/-- `main` of the auditor. -/
def audit (crypto : Crypto) {σ : Type} (ask : Ask σ) (jobId : JobId) (maxAttempts : Nat) :
    StateM σ AuditVerdict := do
  match ← loopRequestBundle ask jobId maxAttempts with
  | none => return .notCommitted jobId maxAttempts
  | some bundle =>
      match bundleMismatch bundle with
      | some message => return .panicked message
      | none =>
          match ← requestLogRoot ask with
          | .error error => return .failed error
          | .ok (_, currentLength) =>
              if currentLength.toNat < bundle.logLengthAtAnchor then
                return .panicked "log length shrank?"
              else if verifyInclusion crypto bundle.merkleProof bundle.logRoot then
                return .verified bundle
              else
                return .rejected

/-! ## Requests and the main thread -/

/-- When a request is served: after so many more steps of the main thread.  The request or
its answer may get lost, which the client sees as an error. -/
structure Moment where
  steps : Nat
  lost : Option Core.IoErrorKind

/-- A coordinator, and when the requests to come are served. -/
structure Network where
  coordinator : Anchorage
  moments : List Moment

/-- The next moment. -/
def Network.next (network : Network) : Moment :=
  network.moments.headD ⟨0, none⟩

/-- The network after a request. -/
def Network.later (network : Network) : Network where
  coordinator := network.coordinator.advances network.next.steps
  moments := network.moments.tail

/-- A request to the read server. -/
def Network.ask (crypto : Crypto) (capturesDir : List Char) (files : CaptureFiles) :
    Ask Network :=
  fun request network =>
    let later := network.later
    match network.next.lost with
    | some kind => (.error kind, later)
    | none =>
        match handleReadClient crypto capturesDir later.coordinator.log
          later.coordinator.records files request with
        | some reply => (.ok reply, later)
        | none => (.error .unexpectedEof, later)

/-- The network when a number of requests have been made. -/
def Network.after (network : Network) (requests : Nat) : Network :=
  Network.later^[requests] network

/-- A request is not lost and finds the record of the job. -/
def Network.Finds (network : Network) (jobId : JobId) : Prop :=
  network.next.lost = none ∧ jobId ∈ network.later.coordinator.records

namespace Network

variable (crypto : Crypto) (capturesDir : List Char) (files : CaptureFiles)
variable {network : Network}

theorem later_sound (sound : network.coordinator.Sound) :
    network.later.coordinator.Sound ∧
      Anchorage.Follows network.coordinator network.later.coordinator :=
  sound.advances network.next.steps

/-- What is true of a bundle that the auditor was given. -/
structure Given (crypto : Crypto) (network : Network) (jobId : JobId) (bundle : JobBundle) :
    Prop where
  flawless : Flawless crypto bundle
  jobId : bundle.jobId = jobId
  bounded : bundle.logLengthAtAnchor ≤ network.coordinator.log.entries.length
  entry : network.coordinator.log.entries[bundle.logPosition]? = some bundle.consensusArtifact

theorem Given.of_follows {crypto : Crypto} {later : Network} {jobId : JobId}
    {bundle : JobBundle} (given : Given crypto network jobId bundle)
    (follows : Anchorage.Follows network.coordinator later.coordinator) :
    Given crypto later jobId bundle := by
  obtain ⟨rest, entries⟩ := follows.grows
  have inside := (List.getElem?_eq_some_iff.mp given.entry).1
  refine ⟨given.flawless, given.jobId, ?_, ?_⟩
  · rw [← entries, List.length_append]
    exact Nat.le_add_right_of_le given.bounded
  · rw [← entries, List.getElem?_append_left inside, given.entry]

/-- One attempt. -/
theorem requestJob_eq (sound : network.coordinator.Sound) (jobId : JobId) :
    (∃ bundle, requestJob (ask crypto capturesDir files) jobId network =
        (.ok (some bundle), network.later) ∧ network.Finds jobId ∧
        Given crypto network.later jobId bundle) ∨
      (¬ network.Finds jobId ∧ (requestJob (ask crypto capturesDir files) jobId network =
          (.ok none, network.later) ∨
        ∃ error, requestJob (ask crypto capturesDir files) jobId network =
          (.error error, network.later))) := by
  cases lost : network.next.lost with
  | some kind =>
      refine Or.inr ⟨fun finds => ?_, Or.inr ⟨.io kind, ?_⟩⟩
      · rw [finds.1] at lost
        cases lost
      · simp only [requestJob, bind, StateT.bind, ask, lost]
        rfl
  | none =>
      cases found : network.later.coordinator.records.lookup jobId with
      | none =>
          have missing : network.later.coordinator.log.buildBundle crypto
              network.later.coordinator.records jobId = none := by
            rw [LogBackend.buildBundle_eq, buildBundle, found]
            rfl
          refine Or.inr ⟨fun finds => ?_, Or.inl ?_⟩
          · exact AList.lookup_eq_none.mp found finds.2
          · simp only [requestJob, bind, StateT.bind, ask, lost, handleReadClient_getJob, missing]
            rfl
      | some record =>
          obtain ⟨number, placed⟩ := (later_sound sound).1.recorded jobId record found
          obtain ⟨bundle, built, flawless, named, position, length, artifact⟩ :=
            placed.exists_bundle found
          have member : jobId ∈ network.later.coordinator.records :=
            AList.lookup_isSome.mp (by rw [found]; rfl)
          refine Or.inl ⟨bundle, ?_, ⟨lost, member⟩, flawless, named.trans number, ?_, ?_⟩
          · simp only [requestJob, bind, StateT.bind, ask, lost, handleReadClient_getJob, built]
            rfl
          · rw [length]
            exact placed.bounded
          · rw [position, artifact]
            exact placed.entry

/-- The attempts: either the first that finds the record brings a bundle, or none of them
finds it. -/
theorem loopRequestBundle_eq (sound : network.coordinator.Sound) (jobId : JobId)
    (attempts : Nat) :
    ∃ made ≤ attempts, ∃ result, loopRequestBundle (ask crypto capturesDir files) jobId attempts
        network = (result, network.after made) ∧ (network.after made).coordinator.Sound ∧
      Anchorage.Follows network.coordinator (network.after made).coordinator ∧
      match result with
      | some bundle => Given crypto (network.after made) jobId bundle
      | none => ∀ attempt < attempts, ¬ (network.after attempt).Finds jobId := by
  induction attempts generalizing network with
  | zero => exact ⟨0, Nat.le_refl 0, none, rfl, sound, Anchorage.Follows.refl _, nofun⟩
  | succ attempts ih =>
      obtain ⟨still, follows⟩ := later_sound sound
      rcases requestJob_eq crypto capturesDir files sound jobId with
        ⟨bundle, answered, -, given⟩ | ⟨missing, answered⟩
      · refine ⟨1, Nat.le_add_left 1 attempts, some bundle, ?_, still, follows, given⟩
        simp only [loopRequestBundle, bind, StateT.bind, answered]
        rfl
      · obtain ⟨made, few, result, looped, last, further, outcome⟩ := ih still
        refine ⟨made + 1, Nat.succ_le_succ few, result, ?_, last, follows.trans further, ?_⟩
        · rcases answered with answered | ⟨error, answered⟩ <;>
            simp only [loopRequestBundle, bind, StateT.bind, answered, looped] <;> rfl
        · cases result with
          | some bundle => exact outcome
          | none =>
              intro attempt below
              cases attempt with
              | zero => exact missing
              | succ attempt => exact outcome attempt (Nat.lt_of_succ_lt_succ below)

/-- The request for the log root. -/
theorem requestLogRoot_eq (network : Network) :
    requestLogRoot (ask crypto capturesDir files) network =
      (match network.next.lost with
        | some kind => .error (.io kind)
        | none => .ok (network.later.coordinator.log.root crypto,
            UInt64.ofNat network.later.coordinator.log.len), network.later) := by
  cases lost : network.next.lost <;>
    simp only [requestLogRoot, bind, StateT.bind, ask, lost,
      handleReadClient_getLogRoot] <;> rfl

end Network

theorem Flawless.bundleMismatch_eq {crypto : Crypto} {bundle : JobBundle}
    (flawless : Flawless crypto bundle) : bundleMismatch bundle = none := by
  simp [bundleMismatch, flawless.entry, flawless.position, flawless.length]

/-- What an auditor may report of a coordinator that keeps to the protocol.  A job that is
reported verified is in the log, at the position in the bundle.  A job is reported as not
committed only if no attempt got through after its record had been inserted.  No assertion
fails, and no proof is rejected. -/
def AuditVerdict.Justified (jobId : JobId) (maxAttempts : Nat) (network later : Network) :
    AuditVerdict → Prop
  | .verified bundle => bundle.jobId = jobId ∧
      later.coordinator.log.entries[bundle.logPosition]? = some bundle.consensusArtifact
  | .notCommitted job attempts => job = jobId ∧ attempts = maxAttempts ∧
      ∀ attempt < maxAttempts, ¬ (network.after attempt).Finds jobId
  | .failed (.io kind) => ∃ made ≤ maxAttempts, (network.after made).next.lost = some kind
  | .failed (.unexpected _) | .panicked _ | .rejected => False

/-- The report of the auditor is justified whenever its requests are served while the
coordinator anchors its jobs, and whichever of them get lost. -/
theorem audit_of_running_coordinator (crypto : Crypto) (capturesDir : List Char)
    (files : CaptureFiles) (network : Network) (started : network.coordinator.Started)
    (room : network.coordinator.log.entries.length + network.coordinator.todo.length < 2 ^ 64)
    (jobId : JobId) (maxAttempts : Nat) :
    let run := audit crypto (Network.ask crypto capturesDir files) jobId maxAttempts network
    run.1.Justified jobId maxAttempts network run.2 := by
  intro run
  obtain ⟨made, few, result, looped, sound, follows, outcome⟩ :=
    Network.loopRequestBundle_eq crypto capturesDir files started.sound jobId maxAttempts
  cases result with
  | none =>
      have ended : run = (.notCommitted jobId maxAttempts, network.after made) := by
        simp only [run, audit, bind, StateT.bind, looped]
        rfl
      rw [ended]
      exact ⟨rfl, rfl, outcome⟩
  | some bundle =>
      have flawless := outcome.flawless
      have mismatch := flawless.bundleMismatch_eq
      have asked := Network.requestLogRoot_eq crypto capturesDir files (network.after made)
      cases lost : (network.after made).next.lost with
      | some kind =>
          have ended : run = (.failed (.io kind), (network.after made).later) := by
            simp only [run, audit, bind, StateT.bind, looped, mismatch, asked, lost]
            rfl
          rw [ended]
          exact ⟨made, few, lost⟩
      | none =>
          obtain ⟨-, further⟩ := Network.later_sound sound
          have given := outcome.of_follows further
          have fits : (network.after made).later.coordinator.log.entries.length < 2 ^ 64 :=
            Nat.lt_of_le_of_lt ((Nat.le_add_right _ _).trans (follows.trans further).room) room
          have length : ¬ (UInt64.ofNat (network.after made).later.coordinator.log.len).toNat <
              bundle.logLengthAtAnchor := by
            rw [LogBackend.len_eq, UInt64.toNat_ofNat_of_lt' fits]
            exact Nat.not_lt_of_le given.bounded
          have ended : run = (.verified bundle, (network.after made).later) := by
            simp only [run, audit, bind, StateT.bind, looped, mismatch, asked, lost]
            rw [if_neg length, if_pos flawless.verified]
            rfl
          rw [ended]
          exact ⟨given.jobId, given.entry⟩

/-- A coordinator with two jobs to anchor.  The first attempt comes before the record of the
second job is there, the second attempt gets lost. -/
def sampleNetwork : Network where
  coordinator :=
    { log := .mem ⟨[], ()⟩
      records := ∅
      pending := none
      todo := [⟨1, sampleEntry 1, [], sampleEntry 3, .ok⟩,
        ⟨2, sampleEntry 2, [], sampleEntry 4, .ok⟩] }
  moments := [⟨3, none⟩, ⟨1, some .timedOut⟩, ⟨0, none⟩, ⟨5, none⟩]

set_option maxRecDepth 4000 in
/-- The third attempt succeeds. -/
theorem audit_of_running_coordinator_third :
    ∃ bundle network, audit modelCrypto (Network.ask modelCrypto [] ⟨∅, none⟩) 2 3
        sampleNetwork = (.verified bundle, network) ∧ bundle.jobId = 2 ∧
      network.coordinator.log.entries[bundle.logPosition]? = some bundle.consensusArtifact := by
  have started : sampleNetwork.coordinator.Started := ⟨rfl, rfl, rfl⟩
  have room : sampleNetwork.coordinator.log.entries.length +
      sampleNetwork.coordinator.todo.length < 2 ^ 64 := by decide
  have justified := audit_of_running_coordinator modelCrypto [] ⟨∅, none⟩ sampleNetwork started
    room 2 3
  have verified : (audit modelCrypto (Network.ask modelCrypto [] ⟨∅, none⟩) 2 3
      sampleNetwork).1.isVerified = true := by decide +kernel
  generalize audit modelCrypto (Network.ask modelCrypto [] ⟨∅, none⟩) 2 3 sampleNetwork = run
    at justified verified ⊢
  obtain ⟨verdict, network⟩ := run
  cases verdict with
  | verified bundle => exact ⟨bundle, network, rfl, justified⟩
  | _ => cases verified

end Cosaci.Coordinator
