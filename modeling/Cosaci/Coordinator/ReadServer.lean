import Cosaci.Coordinator.CaptureStore

/-!
# The read server

`handle_read_client`: one request, one answer, computed from the records, the log and the
files of captures.  A request for a job is answered under the locks of the records and
the log, so it sees both at one moment.  The main thread takes the same locks one after
the other: it first appends the artifact of a passed job to the log, and then inserts the
record.
-/

namespace Cosaci.Coordinator

open Foundation Cosaci.Core State Protocol
open Jobs (CapturedOutput)

def LogBackend.root (crypto : Crypto) : LogBackend → Option Hash
  | .mem log => log.root crypto
  | .file log => log.root crypto

/-- The answer to a request; other messages are dropped. -/
def handleReadClient (crypto : Crypto) (capturesDir : List Char) (log : LogBackend)
    (records : Table JobId JobRecord) (files : CaptureFiles) :
    WireEnvelope → Option WireEnvelope
  | .getJob jobId =>
      match log.buildBundle crypto records jobId with
      | some bundle => some (.jobBundleResponse bundle)
      | none => some (.jobNotFound jobId)
  | .getLogRoot => some (.logRoot (log.root crypto) (UInt64.ofNat log.len))
  | .getCaptures jobId runnerId =>
      if capturesDir.isEmpty then
        some (.capturesNotFound jobId runnerId)
      else
        match loadCaptures capturesDir jobId runnerId files with
        | some captures => some (.capturesResponse jobId runnerId captures)
        | none => some (.capturesNotFound jobId runnerId)
  | _ => none

theorem handleReadClient_getJob (crypto : Crypto) (capturesDir : List Char) (log : LogBackend)
    (records : Table JobId JobRecord) (files : CaptureFiles) (jobId : JobId) :
    handleReadClient crypto capturesDir log records files (.getJob jobId) =
      match log.buildBundle crypto records jobId with
      | some bundle => some (.jobBundleResponse bundle)
      | none => some (.jobNotFound jobId) :=
  rfl

theorem handleReadClient_getLogRoot (crypto : Crypto) (capturesDir : List Char)
    (log : LogBackend) (records : Table JobId JobRecord) (files : CaptureFiles) :
    handleReadClient crypto capturesDir log records files .getLogRoot =
      some (.logRoot (log.root crypto) (UInt64.ofNat log.len)) :=
  rfl

/-! ## Captures -/

/-- The answer that captures give rise to. -/
def capturesAnswer (jobId : JobId) (runnerId : RunnerId) :
    Option (List CapturedOutput) → WireEnvelope
  | some captures => .capturesResponse jobId runnerId captures
  | none => .capturesNotFound jobId runnerId

/-- What a reader is given of a file: everything once it is complete, and nothing before
that.  A file that has not been opened is answered from what it held before. -/
def Watch.available (inherited : Option (List CapturedOutput)) (watch : Watch) :
    Option (List CapturedOutput) :=
  match watch.progress with
  | none => inherited
  | some (captures, written) =>
      if (encodeCaptures captures).length ≤ written then some captures else none

theorem handleReadClient_getCaptures (crypto : Crypto) {capturesDir : List Char}
    (enabled : capturesDir ≠ []) (log : LogBackend) (records : Table JobId JobRecord)
    (files : CaptureFiles) (jobId : JobId) (runnerId : RunnerId) :
    handleReadClient crypto capturesDir log records files (.getCaptures jobId runnerId) =
      some (capturesAnswer jobId runnerId (loadCaptures capturesDir jobId runnerId files)) := by
  cases capturesDir with
  | nil => exact absurd rfl enabled
  | cons first rest =>
      change (match loadCaptures (first :: rest) jobId runnerId files with
        | some captures => some (WireEnvelope.capturesResponse jobId runnerId captures)
        | none => some (.capturesNotFound jobId runnerId)) = _
      cases loadCaptures (first :: rest) jobId runnerId files <;> rfl

/-- Loading a file gives what is available of it. -/
theorem loadCaptures_run {root : List Char} {before : CaptureFiles}
    (idle : before.writing = none) {events : List CaptureEvent} {jobId : JobId}
    {runnerId : RunnerId}
    (short : ∀ captures, CaptureEvent.opened jobId runnerId captures ∈ events →
      (encodeCaptures captures).length < 2 ^ 64) :
    loadCaptures root jobId runnerId (before.run root events) =
      (Watch.after jobId runnerId events).available
        (loadCaptures root jobId runnerId before) := by
  have initially : Watch.Describes root jobId runnerId
      (before.contents.lookup (capturesPath root jobId runnerId)) ⟨false, none⟩ before :=
    ⟨rfl, nofun, fun _ _ _ writing => by rw [idle] at writing; cases writing⟩
  rw [loadCaptures, (initially.run events).content, Watch.available, Watch.content, Watch.after]
  cases progress : (events.foldl (Watch.step jobId runnerId) ⟨false, none⟩).progress with
  | none => rfl
  | some seen =>
      obtain ⟨captures, written⟩ := seen
      have small : (encodeCaptures captures).length < 2 ^ 64 := by
        rcases Watch.opened_of_progress progress with opened | ⟨earlier, found⟩
        · exact short captures opened
        · cases found
      simp only [Option.bind_some]
      by_cases complete : (encodeCaptures captures).length ≤ written
      · rw [if_pos complete, List.take_of_length_le complete,
          decodeCaptures_encodeCaptures small]
      · rw [if_neg complete, decodeCaptures_take small (Nat.lt_of_not_le complete)]

/-- At every moment of every run, a request for captures is answered with all captures of
the bundle that its file was last opened for, or, until the file is complete, with
nothing.  This bundle was submitted for the job over the connection of the runner, and
its signature was verified. -/
theorem captures_served_whole (crypto : Crypto) (capturesDir : List Char)
    (enabled : capturesDir ≠ []) (log : LogBackend) (records : Table JobId JobRecord)
    (before : CaptureFiles) (idle : before.writing = none) (submissions : List Submitted)
    (short : ∀ submitted ∈ submissions,
      (encodeCaptures submitted.bundle.captures).length < 2 ^ 64)
    (moment : Nat) (jobId : JobId) (runnerId : RunnerId) :
    let events := (submissions.flatMap (Submitted.events crypto capturesDir)).take moment
    let watch := Watch.after jobId runnerId events
    handleReadClient crypto capturesDir log records (before.run capturesDir events)
        (.getCaptures jobId runnerId) =
      some (capturesAnswer jobId runnerId
        (watch.available (loadCaptures capturesDir jobId runnerId before))) ∧
    ∀ captures written, watch.progress = some (captures, written) →
      ∃ submitted ∈ submissions, submitted.jobId = jobId ∧
        submitted.agent.runnerId = runnerId ∧ submitted.bundle.captures = captures ∧
        submitted.bundle.attestation.verifySignature crypto submitted.agent.signingPk = true := by
  intro events watch
  have source {captures : List CapturedOutput}
      (opened : CaptureEvent.opened jobId runnerId captures ∈ events) :
      ∃ submitted ∈ submissions, submitted.jobId = jobId ∧
        submitted.agent.runnerId = runnerId ∧ submitted.bundle.captures = captures ∧
        submitted.bundle.attestation.verifySignature crypto submitted.agent.signingPk = true := by
    obtain ⟨submitted, member, inside⟩ := List.mem_flatMap.mp (List.mem_of_mem_take opened)
    exact ⟨submitted, member, Submitted.opened_mem_events inside⟩
  constructor
  · rw [handleReadClient_getCaptures crypto enabled, loadCaptures_run idle]
    intro captures opened
    obtain ⟨submitted, member, -, -, rfl, -⟩ := source opened
    exact short submitted member
  · intro captures written progress
    rcases Watch.opened_of_progress progress with opened | ⟨earlier, found⟩
    · exact source opened
    · cases found

/-- One line of output, written in two pieces. -/
def sampleSubmitted : Submitted where
  jobId := 5
  agent := honestConnection 1 0
  bundle :=
    { attestation := (sampleAttestation 1 (sampleEntry 7)).signWith (modelKeypair (sampleEntry 1))
      captures := [⟨0, "build.stdout", .stdout, modelHash [104, 105], 2, [104, 105]⟩] }
  io := .written [10, 1000]

/-- The captures are there after the second piece, and not before it. -/
theorem captures_served_whole_pieces :
    let files (moment : Nat) := CaptureFiles.run ['c'] ⟨∅, none⟩
      (([sampleSubmitted].flatMap (Submitted.events modelCrypto ['c'])).take moment)
    let answer (moment : Nat) := handleReadClient modelCrypto ['c'] (.mem ⟨[], ()⟩) ∅
      (files moment) (.getCaptures 5 1)
    answer 2 = some (.capturesNotFound 5 1) ∧
      answer 3 = some (.capturesResponse 5 1 sampleSubmitted.bundle.captures) := by
  have short : ∀ submitted ∈ [sampleSubmitted],
      (encodeCaptures submitted.bundle.captures).length < 2 ^ 64 := by decide +kernel
  have served (moment : Nat) := (captures_served_whole modelCrypto ['c'] (by decide)
    (.mem ⟨[], ()⟩) ∅ ⟨∅, none⟩ rfl [sampleSubmitted] short moment 5 1).1
  refine ⟨(served 2).trans ?_, (served 3).trans ?_⟩
  · decide +kernel
  · decide +kernel

end Cosaci.Coordinator
