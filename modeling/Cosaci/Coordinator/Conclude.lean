import Cosaci.Coordinator.Fleet
import Cosaci.State.Journal

/-!
# Concluding a job

The second half of `run_one_job`: the collected attestations are aggregated into an
outcome, the consensus artifact is chosen, divergent runners are slashed, and a
passed job is anchored in the Merkle log.  The outcome weighs runners by stake; the
artifact is chosen by counting heads.
-/

namespace Cosaci.Coordinator

open Foundation Cosaci.Core State

/-! ## The coordinator's state -/

/-- The Merkle log, in memory or backed by a file. -/
inductive LogBackend where
  | mem (log : MerkleLog Unit)
  | file (log : MerkleLog FileStore)
  deriving DecidableEq

namespace LogBackend

def append (entry : Hash) (io : AppendIo) : LogBackend → Except IoErrorKind Nat × LogBackend
  | .mem log => (.ok log.len, .mem { log with entries := log.entries ++ [entry] })
  | .file log =>
      let (position, log) := log.append entry io
      (position, .file log)

def len : LogBackend → Nat
  | .mem log => log.len
  | .file log => log.len

def entries : LogBackend → List Hash
  | .mem log => log.entries
  | .file log => log.entries

end LogBackend

/-- The record of an anchored job. -/
structure JobRecord where
  jobId : JobId
  pipelineHash : Hash
  committeeAttestations : List Attestation
  consensusArtifact : Hash
  logPosition : Nat
  logLengthAtAnchor : Nat
  deriving DecidableEq

/-- What a job reads and writes.  The journal lists the entries handed to it; a
failed journal write is only logged. -/
structure CoordinatorState where
  agents : List RegisteredAgent
  stakeLedger : StakeLedger
  log : LogBackend
  records : Table JobId JobRecord
  journal : List JournalEntry

def CoordinatorState.journalAppend (state : CoordinatorState) (entries : List JournalEntry) :
    CoordinatorState :=
  { state with journal := state.journal ++ entries }

/-! ## Aggregation -/

def voteOf (attestation : Attestation) : Vote where
  runnerId := attestation.runnerId
  result :=
    match attestation.result with
    | .pass => .pass
    | .fail => .fail

/-- Two thirds of the committee's stake, in wrapping arithmetic. -/
def voteThreshold (stake : StakeMap) (committee : List RunnerId) : Weight :=
  let committeeStake := (committee.map (weightOf stake)).sum
  divCeil (committeeStake * 2) 3

/-- The artifact with the most attestations, whatever their result; among equals
the last one visited. -/
def consensusArtifact (order : IterationOrder Hash UInt32) (attestations : List Attestation) :
    Hash :=
  let artifactCounts := Table.histogram (attestations.map Attestation.artifactHash)
  match maxByKey (fun entry => entry.2.toNat) (order.visit artifactCounts) with
  | some entry => entry.1
  | none => List.Vector.replicate 32 0

def outcomeToJournal : Outcome → JournalOutcome
  | .pass => .pass
  | .fail => .fail
  | .retry => .retry
  | .escalate => .escalate

/-- Lowercase hexadecimal digits. -/
def hexLower (bytes : List UInt8) : String :=
  let digit (value : Nat) : Char := "0123456789abcdef".toList.getD value '0'
  String.ofList (bytes.flatMap fun byte => [digit (byte.toNat / 16), digit (byte.toNat % 16)])

/-- What a job that reached the aggregation computed. -/
structure JobReport where
  committee : List RunnerId
  received : List Delivery
  votes : List Vote
  threshold : Weight
  outcome : Outcome
  consensusArtifact : Hash
  slashEvents : List SlashEvent

/-- The result of a call of `run_one_job`, the values it computed, and the state it
left. -/
structure JobRun where
  result : Except IoErrorKind Unit
  report : Option JobReport
  state : CoordinatorState

/-- The outcome of a job, as a function of what was collected. -/
def outcomeOf (committee : List RunnerId) (received : List Delivery)
    (stake : StakeMap) : Outcome :=
  aggregate ((received.map Delivery.attestation).map voteOf) (voteThreshold stake committee) stake

/-- The slashing that goes with the outcome; an undecided job slashes nobody. -/
def slashingOf (order : IterationOrder Hash UInt32) (job : JobCall) (committee : List RunnerId)
    (received : List Delivery) (ledger : StakeLedger) : List SlashEvent × StakeLedger :=
  let attestations := received.map Delivery.attestation
  let outcome := outcomeOf committee received ledger.asStakeMap
  if outcome = .pass ∨ outcome = .fail then
    ledger.settle job.slashPolicy (consensusArtifact order attestations) attestations
  else
    ([], ledger)

def reportOf (order : IterationOrder Hash UInt32) (job : JobCall) (committee : List RunnerId)
    (received : List Delivery) (ledger : StakeLedger) : JobReport where
  committee := committee
  received := received
  votes := (received.map Delivery.attestation).map voteOf
  threshold := voteThreshold ledger.asStakeMap committee
  outcome := outcomeOf committee received ledger.asStakeMap
  consensusArtifact := consensusArtifact order (received.map Delivery.attestation)
  slashEvents := (slashingOf order job committee received ledger).1

/-- The part of a job after the attestations have been collected. -/
def conclude (crypto : Crypto) (order : IterationOrder Hash UInt32) (job : JobCall)
    (committee : List RunnerId) (received : List Delivery) (state : CoordinatorState) :
    JobRun :=
  let report := reportOf order job committee received state.stakeLedger
  let ledger := (slashingOf order job committee received state.stakeLedger).2
  let state := state.journalAppend [.aggregated job.jobId (outcomeToJournal report.outcome)
    (hexLower report.consensusArtifact.toList)]
  let state := { state with stakeLedger := ledger }
  if report.outcome = .pass then
    match state.log.append report.consensusArtifact job.appendIo with
    | (.error kind, log) => ⟨.error kind, some report, { state with log := log }⟩
    | (.ok position, log) =>
        let record := {
          jobId := job.jobId
          pipelineHash := crypto.sha256 (Jobs.canonicalEncoding job.pipeline)
          committeeAttestations := received.map Delivery.attestation
          consensusArtifact := report.consensusArtifact
          logPosition := position
          logLengthAtAnchor := log.len : JobRecord }
        let state := { state with log := log, records := state.records.insert job.jobId record }
        ⟨.ok (), some report, state.journalAppend [.anchored job.jobId position]⟩
  else
    ⟨.ok (), some report, state⟩

section Conclusion

variable (crypto : Crypto) (order : IterationOrder Hash UInt32) (job : JobCall)
  (committee : List RunnerId) (received : List Delivery) (state : CoordinatorState)

/-- A concluded job always reports, also when its artifact cannot be appended. -/
theorem report_conclude :
    (conclude crypto order job committee received state).report =
      some (reportOf order job committee received state.stakeLedger) := by
  unfold conclude
  dsimp only
  split
  · split <;> rfl
  · rfl

theorem stakeLedger_conclude :
    (conclude crypto order job committee received state).state.stakeLedger =
      (slashingOf order job committee received state.stakeLedger).2 := by
  unfold conclude
  dsimp only
  split
  · split <;> rfl
  · rfl

/-- The log changes only for a passed job, and then by one append. -/
theorem log_conclude :
    (conclude crypto order job committee received state).state.log =
      if outcomeOf committee received state.stakeLedger.asStakeMap = .pass then
        (state.log.append (consensusArtifact order (received.map Delivery.attestation))
          job.appendIo).2
      else
        state.log := by
  unfold conclude
  dsimp only
  by_cases passed : outcomeOf committee received state.stakeLedger.asStakeMap = .pass
  · rw [reportOf, if_pos passed, if_pos passed]
    split
    · next failed => exact (congrArg Prod.snd failed).symm
    · next appended => exact (congrArg Prod.snd appended).symm
  · rw [reportOf, if_neg passed, if_neg passed]
    rfl

/-- A concluded job is neither reported as passed nor anchored exactly when its
outcome is another one. -/
theorem conclude_unanchored_iff :
    ((∀ report, (conclude crypto order job committee received state).report = some report →
        report.outcome ≠ .pass) ∧
      (conclude crypto order job committee received state).state.log = state.log) ↔
    outcomeOf committee received state.stakeLedger.asStakeMap ≠ .pass := by
  rw [report_conclude, log_conclude]
  constructor
  · rintro ⟨notPassed, -⟩
    exact notPassed _ rfl
  · intro lost
    refine ⟨?_, if_neg lost⟩
    rintro report ⟨⟩
    exact lost

/-- A record stores exactly the collected attestations. -/
theorem records_conclude {record : JobRecord} {jobId : JobId}
    (found : (conclude crypto order job committee received state).state.records.lookup jobId =
      some record) :
    state.records.lookup jobId = some record ∨
      jobId = job.jobId ∧ record.committeeAttestations = received.map Delivery.attestation := by
  unfold conclude at found
  dsimp only at found
  split at found
  · split at found
    · exact Or.inl found
    · change AList.lookup jobId (AList.insert job.jobId _ state.records) = some record at found
      rw [Table.lookup_insert_eq] at found
      split at found
      · next same =>
          cases found
          exact Or.inr ⟨same, rfl⟩
      · exact Or.inl found
  · exact Or.inl found

end Conclusion

/-! ## A small job -/

def sampleAttestation (runner : RunnerId) (artifact : Hash) : Attestation where
  version := Attestation.currentVersion
  jobId := List.Vector.replicate 16 0
  commit := sampleEntry 0x42
  runnerId := runner
  result := .pass
  environmentHash := sampleEntry 0xee
  artifactHash := artifact
  timestampUnixNs := 0
  signature := List.Vector.replicate 64 0

def sampleJob : JobCall where
  jobId := 1
  committeeSize := 3
  pipeline := ⟨[]⟩
  requirements := ⟨0, 0, .linuxX86_64, ∅⟩
  slashPolicy := ⟨true, id⟩
  nowUnixNs := 0
  appendIo := .ok

end Cosaci.Coordinator
