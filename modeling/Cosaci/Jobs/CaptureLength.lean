import Cosaci.Jobs.Captures

/-!
# The reported length of a capture

A reader thread keeps the first bytes of each pipe of a native child and drains the rest.
It counts what it read, but only the kept bytes leave the thread, so the length that a
capture reports is the length of what was kept.
-/

namespace Cosaci.Jobs

open Foundation
open Cosaci.Core (Crypto Hash)

/-! ## Reading a pipe -/

/-- What one read of a pipe returns; no bytes mean the end of the stream. -/
abbrev PipeRead := Except Unit (List UInt8)

/-- The rounds of `read_capped`, with the kept bytes and the number of bytes read.  Of what
is left at the end, the reads that are never made, the source keeps nothing. -/
def readCappedRounds (cap : Nat) :
    List PipeRead → List UInt8 → Nat → List UInt8 × List PipeRead
  | [], out, _ => (out, [])
  | .error _ :: rest, out, _ => (out, rest)
  | .ok [] :: rest, out, _ => (out, rest)
  | .ok (byte :: more) :: rest, out, total =>
      let chunk := byte :: more
      let out := if total < cap then out ++ chunk.take (min (cap - total) chunk.length) else out
      readCappedRounds cap rest out (min (total + chunk.length) maxWord)

/-- Keep up to `cap` bytes of a pipe and drain the rest. -/
def readCapped (cap : Nat) (reads : List PipeRead) : List UInt8 :=
  (readCappedRounds cap reads [] 0).1

/-- The bytes that come out of a pipe before its end or an error. -/
def delivered : List PipeRead → List UInt8
  | [] => []
  | .error _ :: _ => []
  | .ok [] :: _ => []
  | .ok (byte :: more) :: rest => byte :: more ++ delivered rest

/-- The reads that follow the end of the stream or an error. -/
def unread : List PipeRead → List PipeRead
  | [] => []
  | .error _ :: rest => rest
  | .ok [] :: rest => rest
  | .ok (_ :: _) :: rest => unread rest

/-- Induction on the reads: what is still to be kept is a beginning of what is still to
come. -/
theorem readCappedRounds_eq {cap : Nat} (fits : cap ≤ maxWord) (reads : List PipeRead)
    (out : List UInt8) (total : Nat) :
    readCappedRounds cap reads out total =
      (out ++ (delivered reads).take (cap - total), unread reads) := by
  induction reads generalizing out total with
  | nil => simp [readCappedRounds, delivered, unread]
  | cons read rest ih =>
      match read with
      | .error _ => simp [readCappedRounds, delivered, unread]
      | .ok [] => simp [readCappedRounds, delivered, unread]
      | .ok (byte :: more) =>
          have remaining : cap - min (total + (byte :: more).length) maxWord =
              cap - total - (byte :: more).length := by omega
          rw [readCappedRounds, delivered, unread, ih, remaining, List.take_append]
          by_cases room : total < cap
          · rw [if_pos room, List.append_assoc, ← List.take_eq_take_min]
          · have full : cap - total = 0 := by omega
            rw [if_neg room, full]
            simp

theorem readCapped_eq {cap : Nat} (fits : cap ≤ maxWord) (reads : List PipeRead) :
    readCapped cap reads = (delivered reads).take cap :=
  congrArg Prod.fst (readCappedRounds_eq fits reads [] 0)

/-! ## The captures after a native step -/

variable {crypto : Crypto} {world : World}

/-- The streams retained after a number of steps. -/
def streamsAfter (world : World) :
    Nat → List Step → Option (List UInt8 × List UInt8) → Option (List UInt8 × List UInt8)
  | _, [], streams => streams
  | index, step :: rest, streams =>
      streamsAfter world (index + 1) rest (step.streams world index streams)

theorem capturesFrom_append (index : Nat) (steps rest : List Step)
    (streams : Option (List UInt8 × List UInt8)) :
    capturesFrom crypto world index (steps ++ rest) streams =
      capturesFrom crypto world index steps streams ++
        capturesFrom crypto world (index + steps.length) rest
          (streamsAfter world index steps streams) := by
  induction steps generalizing index streams with
  | nil => rfl
  | cons step steps ih =>
      rw [List.cons_append, capturesFrom, capturesFrom, ih, streamsAfter, List.append_assoc,
        List.length_cons, Nat.add_assoc, Nat.add_comm 1]

theorem streamsAfter_append (index : Nat) (steps rest : List Step)
    (streams : Option (List UInt8 × List UInt8)) :
    streamsAfter world index (steps ++ rest) streams =
      streamsAfter world (index + steps.length) rest
        (streamsAfter world index steps streams) := by
  induction steps generalizing index streams with
  | nil => rfl
  | cons step steps ih =>
      rw [List.cons_append, streamsAfter, streamsAfter, ih, List.length_cons, Nat.add_assoc,
        Nat.add_comm 1]

/-- The step starts a native child. -/
def Step.IsNative : Step → Prop
  | .execNative _ _ _ => True
  | _ => False

instance : DecidablePred Step.IsNative := fun step => by
  cases step <;> unfold Step.IsNative <;> infer_instance

/-- Other steps leave the retained streams alone. -/
theorem streamsAfter_of_not_isNative {steps : List Step}
    (others : ∀ step ∈ steps, ¬step.IsNative) (index : Nat)
    (streams : Option (List UInt8 × List UInt8)) :
    streamsAfter world index steps streams = streams := by
  induction steps generalizing index with
  | nil => rfl
  | cons step rest ih =>
      have same : step.streams world index streams = streams := by
        have other := others step List.mem_cons_self
        cases step with
        | execNative command env limits => exact absurd trivial other
        | sourceFetch url reference => rfl
        | execWasm module argsCbor limits => rfl
        | captureLog name => rfl
        | captureArtifact path name => rfl
      rw [streamsAfter, same]
      exact ih (fun other member => others other (List.mem_cons_of_mem _ member)) _

/-- What a capture should say about a stream of a child. -/
structure CapturedOutput.Reports (crypto : Crypto) (stream : List UInt8)
    (capture : CapturedOutput) : Prop where
  bytes : capture.bytesInline = stream.take maxCaptureBytes
  sha256 : capture.sha256 = crypto.sha256 capture.bytesInline
  length : capture.length.toNat = stream.length
  /-- The cut is visible in the capture. -/
  observable : capture.bytesInline.length < capture.length.toNat ↔
    maxCaptureBytes < stream.length

/-- What a native step retains of a stream.  After an out-of-memory kill in its group that
is nothing. -/
def retained (oomKilled : Bool) (stream : List UInt8) : List UInt8 :=
  if oomKilled then [] else stream.take maxCaptureBytes

/-- The whole stream fits below the cap, and it was not dropped. -/
def KeptWhole (oomKilled : Bool) (stream : List UInt8) : Prop :=
  stream.length ≤ maxCaptureBytes ∧ (oomKilled = true → stream = [])

theorem length_retained_le (oomKilled : Bool) (stream : List UInt8) :
    (retained oomKilled stream).length ≤ maxCaptureBytes := by
  unfold retained
  split
  · exact Nat.zero_le _
  · exact List.length_take_le _ _

/-- A capture of the retained bytes reports their number as the length, which is that of
the stream exactly when it was kept whole. -/
theorem reports_ofStream_iff (crypto : Crypto) (index : Nat) (name : String)
    (kind : CaptureKind) (oomKilled : Bool) (stream : List UInt8) :
    (CapturedOutput.ofStream crypto index name kind (retained oomKilled stream)).Reports crypto
      stream ↔ KeptWhole oomKilled stream := by
  have short := length_retained_le oomKilled stream
  have length : (CapturedOutput.ofStream crypto index name kind
      (retained oomKilled stream)).length.toNat = (retained oomKilled stream).length :=
    UInt64.toNat_ofNat_of_lt' (short.trans_lt (by decide))
  constructor
  · intro reports
    have whole := length.symm.trans reports.length
    refine ⟨whole ▸ short, ?_⟩
    rintro rfl
    exact List.length_eq_zero_iff.mp whole.symm
  · rintro ⟨fits, dropped⟩
    have whole : retained oomKilled stream = stream := by
      cases oomKilled with
      | true => exact (dropped rfl).symm
      | false => exact List.take_of_length_le fits
    refine ⟨?_, rfl, ?_, ?_⟩
    · exact whole.trans (List.take_of_length_le fits).symm
    · rw [length, whole]
    · rw [length]
      exact iff_of_false (Nat.lt_irrefl _) (Nat.not_lt.mpr fits)

/-- The two captures of a `CaptureLog` that follows a native child which has exited, with no
other native step in between.  They hold what the readers kept of the two streams; each one
reports its stream exactly when the stream was kept whole. -/
theorem captureLog_reports_iff (crypto : Crypto) (world : World)
    (front between rest : List Step) (command : List String) (env : EnvVars) (limits : Limits)
    (name : String) (result : PipelineResult) (code : Option Int32)
    (stdout stderr : List UInt8) (oomKilled : Bool) (spawned : command ≠ [])
    (exits : world.execNative front.length command env limits =
      .exited code stdout stderr oomKilled)
    (others : ∀ step ∈ between, ¬step.IsNative)
    (executed : executePipeline crypto world
      ⟨front ++ .execNative command env limits :: between ++ .captureLog name :: rest⟩ =
        .ok result) :
    ∃ first second later,
      result.captures = Pipeline.captured crypto world
          ⟨front ++ .execNative command env limits :: between⟩ ++ first :: second :: later ∧
        first.kind = .stdout ∧ second.kind = .stderr ∧
        (oomKilled = false → ∀ reads reads', delivered reads = stdout →
          delivered reads' = stderr → first.bytesInline = readCapped maxCaptureBytes reads ∧
            second.bytesInline = readCapped maxCaptureBytes reads') ∧
        (first.Reports crypto stdout ↔ KeptWhole oomKilled stdout) ∧
        (second.Reports crypto stderr ↔ KeptWhole oomKilled stderr) := by
  have printed : world.printed front.length command env limits =
      (retained oomKilled stdout, retained oomKilled stderr) := by
    unfold World.printed retained
    rw [if_neg (by simpa using spawned), exits]
    cases oomKilled <;> rfl
  have streams : streamsAfter world 0 (front ++ .execNative command env limits :: between) none =
      some (retained oomKilled stdout, retained oomKilled stderr) := by
    rw [streamsAfter_append, streamsAfter, streamsAfter_of_not_isNative others, Nat.zero_add,
      Step.streams, printed]
  rw [captures_executePipeline executed, Pipeline.captured, capturesFrom_append, streams,
    capturesFrom]
  refine ⟨_, _, _, rfl, rfl, rfl, ?_, reports_ofStream_iff _ _ _ _ _ _,
    reports_ofStream_iff _ _ _ _ _ _⟩
  rintro rfl reads reads' rfl rfl
  have fits : maxCaptureBytes ≤ maxWord := by decide
  exact ⟨(readCapped_eq fits reads).symm, (readCapped_eq fits reads').symm⟩

/-- A child that prints two bytes is reported in full. -/
theorem captureLog_reports_iff_short :
    (loggedResult fun _ => [104, 105]).captures.length = 2 ∧
      ∃ first second later,
        (loggedResult fun _ => [104, 105]).captures = [] ++ first :: second :: later ∧
        first.Reports Core.modelCrypto [104, 105] ∧ second.Reports Core.modelCrypto [] := by
  refine ⟨by decide +kernel, ?_⟩
  obtain ⟨first, second, later, captures, -, -, -, stdout, stderr⟩ :=
    captureLog_reports_iff Core.modelCrypto (printingWorld fun _ => [104, 105]) [] [] [] ["make"]
      ⟨[], .nil⟩ ⟨0, 0, 0, ⟨[], .deny⟩⟩ "build" (loggedResult fun _ => [104, 105]) (some 0)
      [104, 105] [] false (List.cons_ne_nil _ _) rfl (fun _ member => by cases member)
      (by decide +kernel)
  refine ⟨first, second, later, captures, stdout.mpr ?_, stderr.mpr ?_⟩
  · exact ⟨by decide, nofun⟩
  · exact ⟨by decide, nofun⟩

/-- A child that prints one byte more than is kept: the capture reports the kept bytes as
the whole output. -/
theorem captureLog_length_cut :
    ∃ result first second,
      executePipeline Core.modelCrypto
          (printingWorld fun _ => List.replicate (maxCaptureBytes + 1) 0) loggedPipeline =
        .ok result ∧
      result.captures = [first, second] ∧ first.kind = .stdout ∧
      (List.replicate (maxCaptureBytes + 1) (0 : UInt8)).length = maxCaptureBytes + 1 ∧
      first.length.toNat = maxCaptureBytes ∧ first.bytesInline.length = maxCaptureBytes := by
  obtain ⟨result, executed⟩ := exists_executePipeline_logged Core.modelCrypto
    fun _ => List.replicate (maxCaptureBytes + 1) 0
  have captures := captures_executePipeline executed
  rw [captured_loggedPipeline] at captures
  have kept : ((List.replicate (maxCaptureBytes + 1) (0 : UInt8)).take maxCaptureBytes).length =
      maxCaptureBytes := by
    rw [List.length_take, List.length_replicate, Nat.min_eq_left (Nat.le_succ _)]
  have word : maxCaptureBytes < UInt64.size := by decide
  refine ⟨result, _, _, executed, captures, rfl, List.length_replicate, ?_, kept⟩
  rw [CapturedOutput.ofStream, UInt64.toNat_ofNat_of_lt' (kept.trans_lt word), kept]

end Cosaci.Jobs
