import Cosaci.Foundation.CborCuts
import Cosaci.Foundation.Machine
import Cosaci.Foundation.Table
import Cosaci.Foundation.TextRecords
import Cosaci.Protocol.Messages

/-!
# Captured output on disk

A verified bundle's captures are written to a file of their own, and the read API hands
out what it finds there.  The file is emptied and then filled by one write after the
other, while readers come and go, and it is left as it is when a write fails or the
process ends.  A file that is not complete is not read as anything.
-/

namespace Cosaci.Coordinator

open Foundation Cosaci.Core Protocol
open Foundation.Cbor (Shape)
open Jobs (CapturedOutput)

/-! ## Paths -/

/-- `PathBuf::join` with a relative path. -/
def joinPath (path part : List Char) : List Char :=
  if path.getLast?.all (· = '/') then path ++ part else path ++ '/' :: part

/-- The file for the captures of a job by a runner. -/
def capturesPath (root : List Char) (jobId : JobId) (runnerId : RunnerId) : List Char :=
  joinPath (joinPath root (Json.number jobId.toNat))
    (Json.number runnerId.toNat ++ ".cbor".toList)

theorem joinPath_number (path part : List Char) (value : Nat) :
    joinPath (path ++ Json.number value) part = path ++ Json.number value ++ '/' :: part := by
  have nonempty := number_ne_nil value
  have last : (path ++ Json.number value).getLast? =
      some ((Json.number value).getLast nonempty) := by
    rw [List.getLast?_append_of_ne_nil _ nonempty, List.getLast?_eq_some_getLast nonempty]
  have digit := isDigit_of_mem_number (List.getLast_mem nonempty)
  rw [joinPath, last, Option.all_some, if_neg]
  simp only [decide_eq_true_eq]
  intro slash
  rw [slash] at digit
  cases digit

theorem exists_capturesPath_eq (root : List Char) :
    ∃ base, ∀ jobId runnerId, capturesPath root jobId runnerId =
      base ++ (Json.number jobId.toNat ++
        '/' :: (Json.number runnerId.toNat ++ ".cbor".toList)) := by
  by_cases separated : root.getLast?.all (· = '/') = true
  · refine ⟨root, fun jobId runnerId => ?_⟩
    have first : joinPath root (Json.number jobId.toNat) = root ++ Json.number jobId.toNat :=
      if_pos separated
    rw [capturesPath, first, joinPath_number, List.append_assoc]
  · refine ⟨root ++ ['/'], fun jobId runnerId => ?_⟩
    have first : joinPath root (Json.number jobId.toNat) =
        (root ++ ['/']) ++ Json.number jobId.toNat := by
      rw [List.append_assoc]
      exact if_neg separated
    rw [capturesPath, first, joinPath_number, List.append_assoc]

/-- A number ends where the first separator stands. -/
theorem takeWhile_number (value : Nat) (rest : List Char) :
    (Json.number value ++ '/' :: rest).takeWhile (· ≠ '/') = Json.number value := by
  have digits : ∀ digit ∈ Json.number value, (digit ≠ '/' : Bool) = true := by
    intro digit member
    have isDigit := isDigit_of_mem_number member
    rw [decide_eq_true_eq]
    rintro rfl
    cases isDigit
  rw [List.takeWhile_append_of_pos digits, List.takeWhile_cons_of_neg (by simp),
    List.append_nil]

theorem number_injective {first second : UInt64}
    (same : Json.number first.toNat = Json.number second.toNat) : first = second := by
  have parsed := congrArg parseU64 same
  rw [parseU64_number, parseU64_number] at parsed
  exact Except.ok.inj parsed

/-- Every pair of a job and a runner has a file of its own. -/
theorem capturesPath_injective {root : List Char} {jobId otherJob : JobId}
    {runnerId otherRunner : RunnerId}
    (same : capturesPath root jobId runnerId = capturesPath root otherJob otherRunner) :
    jobId = otherJob ∧ runnerId = otherRunner := by
  obtain ⟨base, path⟩ := exists_capturesPath_eq root
  rw [path, path, List.append_cancel_left_eq] at same
  have jobs := congrArg (List.takeWhile (· ≠ '/')) same
  rw [takeWhile_number, takeWhile_number] at jobs
  rw [jobs, List.append_cancel_left_eq, List.cons.injEq, List.append_cancel_right_eq] at same
  exact ⟨number_injective jobs, number_injective same.2⟩

/-! ## Files -/

/-- The files below the captures directory, and the one that is being written with what
is still to be written to it. -/
structure CaptureFiles where
  contents : Table (List Char) (List UInt8)
  writing : Option (List Char × List UInt8)

/-- The captures as they are written to a file. -/
def encodeCaptures (captures : List CapturedOutput) : List UInt8 :=
  (CapturedOutput.shape.list.write captures).bytes

def decodeCaptures (bytes : List UInt8) : Option (List CapturedOutput) :=
  (Cbor.readItem Attestation.recursionLimit bytes).bind fun read =>
    CapturedOutput.shape.list.read read.1

/-- What happens to the files. -/
inductive CaptureEvent where
  /-- The directory is there, and the file has been opened and emptied. -/
  | opened (jobId : JobId) (runnerId : RunnerId) (captures : List CapturedOutput)
  /-- A call of `write` took at most so many bytes. -/
  | wrote (count : Nat)
  /-- Everything is written, a write failed, or the process ended. -/
  | stopped

/-- How a call of `persist_captures` goes. -/
inductive PersistIo where
  | noDirectory
  | noFile
  /-- The number of bytes that each write takes; an error comes after too few. -/
  | written (counts : List Nat)

/-- The steps of `persist_captures`. -/
def persistCaptures (jobId : JobId) (runnerId : RunnerId) (captures : List CapturedOutput) :
    PersistIo → List CaptureEvent
  | .noDirectory => []
  | .noFile => []
  | .written counts => .opened jobId runnerId captures :: counts.map .wrote ++ [.stopped]

/-- A bundle that a connection submitted for a job, and how writing its captures goes. -/
structure Submitted where
  jobId : JobId
  agent : RegisteredAgent
  bundle : AttestationBundle
  io : PersistIo

/-- Whether `run_one_job` keeps the captures: only under a verified signature. -/
def Submitted.kept (crypto : Crypto) (capturesDir : List Char) (submitted : Submitted) : Bool :=
  submitted.bundle.attestation.verifySignature crypto submitted.agent.signingPk &&
    !submitted.bundle.captures.isEmpty && !capturesDir.isEmpty

/-- What `run_one_job` does with the captures of a bundle. -/
def Submitted.events (crypto : Crypto) (capturesDir : List Char) (submitted : Submitted) :
    List CaptureEvent :=
  if submitted.kept crypto capturesDir then
    persistCaptures submitted.jobId submitted.agent.runnerId submitted.bundle.captures
      submitted.io
  else
    []

variable {captures : List CapturedOutput}

/-- A file is opened for the captures of a verified bundle only. -/
theorem Submitted.opened_mem_events {crypto : Crypto} {capturesDir : List Char}
    {submitted : Submitted} {jobId : JobId} {runnerId : RunnerId}
    (member : .opened jobId runnerId captures ∈ submitted.events crypto capturesDir) :
    submitted.jobId = jobId ∧ submitted.agent.runnerId = runnerId ∧
      submitted.bundle.captures = captures ∧
      submitted.bundle.attestation.verifySignature crypto submitted.agent.signingPk = true := by
  unfold events at member
  split at member
  · next kept =>
      simp only [Submitted.kept, Bool.and_eq_true] at kept
      unfold persistCaptures at member
      split at member
      · cases member
      · cases member
      · simp only [List.cons_append, List.mem_cons, List.mem_append, List.mem_map,
          CaptureEvent.opened.injEq, reduceCtorEq, and_false, exists_false, List.not_mem_nil,
          or_false] at member
        obtain ⟨rfl, rfl, rfl⟩ := member
        exact ⟨rfl, rfl, rfl, kept.1.1⟩
  · cases member

def CaptureFiles.step (root : List Char) (files : CaptureFiles) : CaptureEvent → CaptureFiles
  | .opened jobId runnerId captures =>
      let path := capturesPath root jobId runnerId
      { contents := files.contents.insert path []
        writing := some (path, encodeCaptures captures) }
  | .wrote count =>
      match files.writing with
      | none => files
      | some (path, rest) =>
          let written := (files.contents.lookup path).getD [] ++ rest.take count
          { contents := files.contents.insert path written
            writing := some (path, rest.drop count) }
  | .stopped => { files with writing := none }

def CaptureFiles.run (root : List Char) (files : CaptureFiles) (events : List CaptureEvent) :
    CaptureFiles :=
  events.foldl (step root) files

def loadCaptures (root : List Char) (jobId : JobId) (runnerId : RunnerId)
    (files : CaptureFiles) : Option (List CapturedOutput) :=
  (files.contents.lookup (capturesPath root jobId runnerId)).bind decodeCaptures

theorem nesting_captures : CapturedOutput.shape.list.nesting ≤ Attestation.recursionLimit := by
  decide +kernel

/-- A complete file is read as the captures that were written. -/
theorem decodeCaptures_encodeCaptures (short : (encodeCaptures captures).length < 2 ^ 64) :
    decodeCaptures (encodeCaptures captures) = some captures := by
  have valid : CapturedOutput.shape.list.Valid captures := fun _ _ => trivial
  have sent := CapturedOutput.shape.list.sent captures valid short
  have read := sent.readable Attestation.recursionLimit nesting_captures []
  rw [List.append_nil, sent.bytes] at read
  rw [decodeCaptures, encodeCaptures, read, Option.bind_some]
  exact CapturedOutput.shape.list.read_write captures valid short

/-- The beginning of a file is not read as captures. -/
theorem decodeCaptures_take (short : (encodeCaptures captures).length < 2 ^ 64) {written : Nat}
    (missing : written < (encodeCaptures captures).length) :
    decodeCaptures ((encodeCaptures captures).take written) = none := by
  have valid : CapturedOutput.shape.list.Valid captures := fun _ _ => trivial
  have sent := CapturedOutput.shape.list.sent captures valid short
  have cut : ((encodeCaptures captures).take written).length <
      (encodeCaptures captures).length := by
    rw [List.length_take]
    omega
  have nothing : Cbor.readItem Attestation.recursionLimit
      ((encodeCaptures captures).take written) = none :=
    sent.readItem_cut nesting_captures ( List.take_prefix _ _) cut
  rw [decodeCaptures, nothing, Option.bind_none]

/-! ## What is known about one file -/

/-- What has been seen of the file for a job and a runner: whether it is being written,
and the captures it was last opened for with the number of bytes written since. -/
structure Watch where
  active : Bool
  progress : Option (List CapturedOutput × Nat)

namespace Watch

def step (jobId : JobId) (runnerId : RunnerId) (watch : Watch) : CaptureEvent → Watch
  | .opened job runner captures =>
      if job = jobId ∧ runner = runnerId then ⟨true, some (captures, 0)⟩
      else { watch with active := false }
  | .wrote count =>
      if watch.active then
        { watch with progress := watch.progress.map fun (captures, written) =>
            (captures, written + count) }
      else watch
  | .stopped => { watch with active := false }

/-- The file after some events. -/
def after (jobId : JobId) (runnerId : RunnerId) (events : List CaptureEvent) : Watch :=
  events.foldl (step jobId runnerId) ⟨false, none⟩

/-- What the file holds, given what it held before it was first opened. -/
def content (inherited : Option (List UInt8)) (watch : Watch) : Option (List UInt8) :=
  match watch.progress with
  | none => inherited
  | some (captures, written) => some ((encodeCaptures captures).take written)

/-- The files are what has been seen of them. -/
structure Describes (root : List Char) (jobId : JobId) (runnerId : RunnerId)
    (inherited : Option (List UInt8)) (watch : Watch) (files : CaptureFiles) : Prop where
  content : files.contents.lookup (capturesPath root jobId runnerId) = watch.content inherited
  active : watch.active = true → ∃ captures written, watch.progress = some (captures, written) ∧
    files.writing = some (capturesPath root jobId runnerId,
      (encodeCaptures captures).drop written)
  inactive : watch.active = false → ∀ path rest, files.writing = some (path, rest) →
    path ≠ capturesPath root jobId runnerId

variable {root : List Char} {jobId : JobId} {runnerId : RunnerId}
  {inherited : Option (List UInt8)} {watch : Watch} {files : CaptureFiles}

theorem Describes.opened (described : Describes root jobId runnerId inherited watch files)
    (job : JobId) (runner : RunnerId) (captures : List CapturedOutput) :
    Describes root jobId runnerId inherited
      (watch.step jobId runnerId (.opened job runner captures))
      (files.step root (.opened job runner captures)) := by
  by_cases same : job = jobId ∧ runner = runnerId
  · obtain ⟨rfl, rfl⟩ := same
    simp only [step, and_self, if_true, CaptureFiles.step]
    refine ⟨?_, fun _ => ⟨captures, 0, rfl, rfl⟩, nofun⟩
    rw [AList.lookup_insert]
    rfl
  · have apart : capturesPath root job runner ≠ capturesPath root jobId runnerId :=
      fun path => same (capturesPath_injective path)
    simp only [step, if_neg same, CaptureFiles.step]
    refine ⟨?_, nofun, ?_⟩
    · rw [AList.lookup_insert_ne apart.symm]
      exact described.content
    · intro _ path rest writing
      cases writing
      exact apart

theorem Describes.wrote (described : Describes root jobId runnerId inherited watch files)
    (count : Nat) :
    Describes root jobId runnerId inherited (watch.step jobId runnerId (.wrote count))
      (files.step root (.wrote count)) := by
  cases active : watch.active with
  | true =>
      obtain ⟨captures, written, progress, writing⟩ := described.active active
      have found := described.content
      simp only [Watch.content, progress] at found
      simp only [step, active, if_true, progress, Option.map_some, CaptureFiles.step, writing]
      refine ⟨?_, fun _ => ⟨captures, written + count, rfl, ?_⟩, ?_⟩
      · rw [AList.lookup_insert, found, Option.getD_some, ← List.take_add]
        rfl
      · rw [List.drop_drop]
      · nofun
  | false =>
      simp only [step, active, Bool.false_eq_true, if_false]
      cases writing : files.writing with
      | none =>
          simp only [CaptureFiles.step, writing]
          exact described
      | some current =>
          obtain ⟨path, rest⟩ := current
          have apart := described.inactive active path rest writing
          simp only [CaptureFiles.step, writing]
          refine ⟨?_, ?_, ?_⟩
          · rw [AList.lookup_insert_ne apart.symm]
            exact described.content
          · rw [active]
            nofun
          · intro _ other left same
            cases same
            exact apart

theorem Describes.step (described : Describes root jobId runnerId inherited watch files)
    (event : CaptureEvent) :
    Describes root jobId runnerId inherited (watch.step jobId runnerId event)
      (files.step root event) := by
  cases event with
  | opened job runner captures => exact described.opened job runner captures
  | wrote count => exact described.wrote count
  | stopped => exact ⟨described.content, nofun, fun _ _ _ => nofun⟩

theorem Describes.run (described : Describes root jobId runnerId inherited watch files)
    (events : List CaptureEvent) :
    Describes root jobId runnerId inherited (events.foldl (Watch.step jobId runnerId) watch)
      (files.run root events) := by
  induction events generalizing watch files with
  | nil => exact described
  | cons event rest ih => exact ih (described.step event)

/-- The captures of a file are those of an event that opened it. -/
theorem opened_of_progress {events : List CaptureEvent} {written : Nat}
    (progress : (events.foldl (Watch.step jobId runnerId) watch).progress =
      some (captures, written)) :
    CaptureEvent.opened jobId runnerId captures ∈ events ∨
      ∃ earlier, watch.progress = some (captures, earlier) := by
  induction events generalizing watch with
  | nil => exact Or.inr ⟨written, progress⟩
  | cons event rest ih =>
      rcases ih progress with later | ⟨earlier, found⟩
      · exact Or.inl (List.mem_cons_of_mem _ later)
      · cases event with
        | opened job runner outputs =>
            simp only [Watch.step] at found
            split at found
            · next same =>
                obtain ⟨rfl, rfl⟩ := same
                cases found
                exact Or.inl List.mem_cons_self
            · exact Or.inr ⟨earlier, found⟩
        | wrote count =>
            simp only [Watch.step] at found
            split at found
            · obtain ⟨⟨outputs, before⟩, seen, same⟩ := Option.map_eq_some_iff.mp found
              cases same
              exact Or.inr ⟨before, seen⟩
            · exact Or.inr ⟨earlier, found⟩
        | stopped => exact Or.inr ⟨earlier, found⟩

end Watch

end Cosaci.Coordinator
