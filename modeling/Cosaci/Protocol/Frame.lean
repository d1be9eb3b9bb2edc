import Cosaci.Protocol.Envelope

/-!
# Frames

A message travels as its CBOR encoding behind a length, and `write_envelope` refuses
encodings above a fixed size.  The two replies of an agent differ here: a VRF claim
has a bounded encoding, an attestation carries captured output of any size.
-/

namespace Cosaci.Protocol

open Foundation Cosaci.Core
open Jobs (CapturedOutput)

/-- The largest encoding that `write_envelope` sends: 16 MiB. -/
def maxEnvelopeBytes : Nat := 16 <<< 20

/-- The bundle on the wire; an empty list of captures is left out. -/
def AttestationBundle.encode (bundle : AttestationBundle) : List UInt8 :=
  let attestation := ("attestation", bundle.attestation.canonicalize)
  if bundle.captures.isEmpty then
    Cbor.record [attestation]
  else
    Cbor.record [attestation,
      ("captures", Cbor.array (bundle.captures.map CapturedOutput.encode))]

/-- The encoding of a VRF claim. -/
def vrfClaimBytes (jobId : UInt64) (vrfOutput : Bytes 32) (vrfProof : Bytes 64) : List UInt8 :=
  Cbor.record [("VrfClaim", Cbor.record
    [("job_id", Cbor.unsigned jobId.toNat),
      ("vrf_output", Cbor.byteArray vrfOutput.toList),
      ("vrf_proof", Cbor.byteArray vrfProof.toList)])]

/-- The encoding of a submitted attestation. -/
def submitAttestationBytes (bundle : AttestationBundle) : List UInt8 :=
  Cbor.record [("SubmitAttestation", bundle.encode)]

/-- Every VRF claim fits into a frame. -/
theorem length_vrfClaimBytes_le (jobId : UInt64) (vrfOutput : Bytes 32)
    (vrfProof : Bytes 64) :
    (vrfClaimBytes jobId vrfOutput vrfProof).length ≤ maxEnvelopeBytes := by
  have job := Cbor.length_unsigned_le jobId.toNat
  have output := Cbor.length_byteArray_le vrfOutput.toList
  have proof := Cbor.length_byteArray_le vrfProof.toList
  rw [List.Vector.toList_length] at output proof
  have names : (Cbor.text "VrfClaim").length = 9 ∧ (Cbor.text "job_id").length = 7 ∧
      (Cbor.text "vrf_output").length = 11 ∧ (Cbor.text "vrf_proof").length = 10 := by
    decide +kernel
  have inner := Cbor.length_record_le
    [("job_id", Cbor.unsigned jobId.toNat),
      ("vrf_output", Cbor.byteArray vrfOutput.toList),
      ("vrf_proof", Cbor.byteArray vrfProof.toList)]
  have outer := Cbor.length_record_le [("VrfClaim", Cbor.record
    [("job_id", Cbor.unsigned jobId.toNat),
      ("vrf_output", Cbor.byteArray vrfOutput.toList),
      ("vrf_proof", Cbor.byteArray vrfProof.toList)])]
  have limit : 10000 ≤ maxEnvelopeBytes := by decide
  simp only [List.map_cons, List.map_nil, List.sum_cons, List.sum_nil] at inner outer
  rw [vrfClaimBytes]
  omega

end Cosaci.Protocol
