import Cosaci.Agent.MainLoop
import Cosaci.Foundation.CborSize
import Cosaci.Jobs.Captures
import Cosaci.Protocol.Frame
import Cosaci.Protocol.Wire

/-!
# Does a pipeline result fit into a frame?

The captures of a result travel inside the attestation message.  Their number is
that of the capturing steps and each holds up to 16 MiB, written as an array of
integers, while the frame as a whole is limited to 16 MiB.  The message can be
written exactly when the sizes add up to no more than that.
-/

namespace Cosaci.Agent

open Foundation Cosaci.Core Protocol Jobs

/-- The bundle submitted for an executed pipeline. -/
def Runner.bundle (agent : Runner) (jobId : UInt64) (deadlineUnixNs : Int64)
    (result : PipelineResult) : AttestationBundle where
  attestation := agent.attest jobId deadlineUnixNs result
  captures := result.captures

/-- The size of one capture in the message: its field names and its fields. -/
def captureSize (capture : CapturedOutput) : Nat :=
  1 + (11 + Cbor.headerSize capture.stepIndex.toNat) + (5 + Cbor.textSize capture.name) +
    (5 + capture.kind.encode.length) + (7 + Cbor.byteArraySize capture.sha256.toList) +
    (7 + Cbor.headerSize capture.length.toNat) + (13 + Cbor.byteArraySize capture.bytesInline)

/-- The size of the list of captures, which is left out when it is empty. -/
def capturesSize (captures : List CapturedOutput) : Nat :=
  if captures.isEmpty then 0
  else 9 + Cbor.headerSize captures.length + (captures.map captureSize).sum

theorem length_encode_capture (capture : CapturedOutput) :
    capture.encode.length = captureSize capture := by
  have names : Cbor.textSize "step_index" = 11 ∧ Cbor.textSize "name" = 5 ∧
      Cbor.textSize "kind" = 5 ∧ Cbor.textSize "sha256" = 7 ∧ Cbor.textSize "length" = 7 ∧
      Cbor.textSize "bytes_inline" = 13 ∧ Cbor.headerSize 6 = 1 := by
    decide +kernel
  obtain ⟨stepIndex, name, kind, sha256, length, bytesInline, fields⟩ := names
  simp only [CapturedOutput.encode, Cbor.length_record, List.length_cons, List.length_nil,
    List.map_cons, List.map_nil, List.sum_cons, List.sum_nil, Cbor.length_unsigned,
    Cbor.length_text, Cbor.length_byteArray, stepIndex, name, kind, sha256, length,
    bytesInline, captureSize]
  rw [fields]
  omega

/-- The size of an attestation message. -/
theorem length_submitAttestationBytes (bundle : AttestationBundle) :
    (submitAttestationBytes bundle).length =
      32 + bundle.attestation.canonicalize.length + capturesSize bundle.captures := by
  have names : Cbor.textSize "SubmitAttestation" = 18 ∧ Cbor.textSize "attestation" = 12 ∧
      Cbor.textSize "captures" = 9 ∧ Cbor.headerSize 1 = 1 ∧ Cbor.headerSize 2 = 1 := by
    decide +kernel
  obtain ⟨outer, inner, captures, one, two⟩ := names
  have items : (bundle.captures.map CapturedOutput.encode).map List.length =
      bundle.captures.map captureSize := by
    rw [List.map_map]
    exact List.map_congr_left fun capture _ => length_encode_capture capture
  rw [submitAttestationBytes, AttestationBundle.encode, capturesSize]
  split
  · simp only [Cbor.length_record, List.length_cons, List.length_nil, List.map_cons,
      List.map_nil, List.sum_cons, List.sum_nil, outer, inner, one]
    omega
  · simp only [Cbor.length_record, List.length_cons, List.length_nil, List.map_cons,
      List.map_nil, List.sum_cons, List.sum_nil, Cbor.length_array, List.length_map, items,
      outer, inner, captures, one, two]
    omega

/-- The encoding of attestation messages by the CBOR library. -/
def EncodesSubmissions (codec : Wire.Codec Envelope) : Prop :=
  ∀ bundle, codec.intoWriter (.submitAttestation bundle) = submitAttestationBytes bundle

/-- A message can be written exactly when its sizes add up to at most a frame. -/
theorem exists_written_iff {codec : Wire.Codec Envelope} (encodes : EncodesSubmissions codec)
    (written : List UInt8) (bundle : AttestationBundle) :
    (∃ bytes, Wire.writeEnvelope codec written (.submitAttestation bundle) = .ok bytes) ↔
      32 + bundle.attestation.canonicalize.length + capturesSize bundle.captures ≤
        maxEnvelopeBytes := by
  rw [← length_submitAttestationBytes, ← encodes]
  constructor
  · rintro ⟨bytes, sent⟩
    exact ((Wire.Side.blocking.write_eq_ok_iff codec written bytes _).mp sent).1
  · intro fits
    exact ⟨_, (Wire.Side.blocking.write_eq_ok_iff codec written _ _).mpr ⟨fits, rfl⟩⟩

/-- The result of a pipeline is submitted exactly when the attestation and the
captured streams of its native steps fit into a frame together. -/
theorem submission_written_iff (codec : Wire.Codec Envelope)
    (encodes : EncodesSubmissions codec) (crypto : Crypto) (agent : Runner) (world : World)
    (pipeline : Pipeline) (result : PipelineResult) (jobId : UInt64) (deadlineUnixNs : Int64)
    (written : List UInt8) (executed : executePipeline crypto world pipeline = .ok result) :
    (∃ bytes, Wire.writeEnvelope codec written
        (.submitAttestation (agent.bundle jobId deadlineUnixNs result)) = .ok bytes) ↔
      32 + (agent.attest jobId deadlineUnixNs result).canonicalize.length +
        capturesSize (pipeline.captured crypto world) ≤ maxEnvelopeBytes := by
  rw [exists_written_iff encodes, ← captures_executePipeline executed]
  rfl

/-- The library restricted to attestation messages. -/
def submissionCodec : Wire.Codec Envelope where
  intoWriter
    | .submitAttestation bundle => submitAttestationBytes bundle
    | _ => []
  fromReader _ := none

/-- A runner with a computable signature and VRF. -/
def loneRunner : Runner where
  runnerId := 1
  signing := modelKeypair (List.Vector.replicate 32 1)
  vrf := {
    publicKey := List.Vector.replicate 32 1
    output := fun input => modelHash input
    proof := fun _ _ => List.Vector.replicate 64 0 }

theorem submission_written_logged :
    ∃ bytes, Wire.writeEnvelope submissionCodec [] (.submitAttestation
      (loneRunner.bundle 7 0 (loggedResult fun _ => [104, 105]))) = .ok bytes := by
  have executed : executePipeline modelCrypto (printingWorld fun _ => [104, 105])
      loggedPipeline = .ok (loggedResult fun _ => [104, 105]) := by decide +kernel
  exact (submission_written_iff submissionCodec (fun _ => rfl) modelCrypto loneRunner _ _ _ 7 0
    [] executed).mpr (by decide +kernel)

/-- Output within the cap of its stream is retained, and is too much for a frame when
it is more than half of one. -/
theorem not_written_of_printed {count : Nat} (retained : count ≤ maxCaptureBytes)
    (large : maxEnvelopeBytes < 2 * count) :
    ∃ result, executePipeline modelCrypto
        (printingWorld fun _ => List.replicate count 255) loggedPipeline = .ok result ∧
      ¬∃ bytes, Wire.writeEnvelope submissionCodec []
        (.submitAttestation (loneRunner.bundle 7 0 result)) = .ok bytes := by
  obtain ⟨result, executed⟩ := exists_executePipeline_logged modelCrypto
    fun _ => List.replicate count 255
  refine ⟨result, executed, ?_⟩
  have byte : 24 ≤ (255 : UInt8).toNat := by decide
  have stream := Cbor.byteArraySize_replicate count byte
  rw [exists_written_iff (fun _ => rfl), Runner.bundle, captures_executePipeline executed,
    captured_loggedPipeline, List.take_replicate, min_eq_right retained]
  simp only [capturesSize, captureSize, CapturedOutput.ofStream, List.isEmpty_cons,
    Bool.false_eq_true, if_false, List.map_cons, List.map_nil, List.sum_cons, List.sum_nil,
    stream]
  omega

/-- Nine mebibytes of output on one stream are retained, and cannot be submitted. -/
theorem submission_not_written :
    ∃ result, executePipeline modelCrypto
        (printingWorld fun _ => List.replicate (9 * 2 ^ 20) 255) loggedPipeline = .ok result ∧
      ¬∃ bytes, Wire.writeEnvelope submissionCodec []
        (.submitAttestation (loneRunner.bundle 7 0 result)) = .ok bytes :=
  not_written_of_printed (by decide) (by decide)

end Cosaci.Agent
