import Cosaci.Foundation.CborCodes
import Cosaci.State.SubmissionAuth

/-!
# What a signed submission says

The two wire shapes are written as CBOR maps with six and four fields.  Their fields can
be read back one after the other, also a free-form kind or an opaque pipeline of any
size, because less than one word of bytes follows it.  So the signed bytes determine the
shape and all the fields, and a signature that is bound to its message is bound to the
submission.
-/

namespace Cosaci.State

open Foundation
open Cosaci.Core (Crypto)

/-! ## The fields that follow the variable one -/

private theorem nonce_prefixFree :
    PrefixFree fun nonce : BitVec 128 => Cbor.wide nonce.toNat :=
  Cbor.wide_prefixFree (fun _ _ same => BitVec.eq_of_toNat_eq same) BitVec.isLt

/-- The last two fields of both shapes. -/
def closingBytes (deadlineSecs : UInt32) (nonce : BitVec 128) : List UInt8 :=
  Cbor.text "deadline_secs" ++ (Cbor.unsigned deadlineSecs.toNat ++
    (Cbor.text "nonce" ++ Cbor.wide nonce.toNat))

theorem closingBytes_inj {deadline deadline' : UInt32} {nonce nonce' : BitVec 128}
    (equal : closingBytes deadline nonce = closingBytes deadline' nonce') :
    deadline = deadline' ∧ nonce = nonce' := by
  obtain ⟨deadlines, rest⟩ := Cbor.uint32_prefixFree.split (List.append_cancel_left equal)
  exact ⟨deadlines, nonce_prefixFree.injective (List.append_cancel_left rest)⟩

theorem length_closingBytes_le (deadline : UInt32) (nonce : BitVec 128) :
    (closingBytes deadline nonce).length ≤ 63 := by
  have names : (Cbor.text "deadline_secs").length + (Cbor.text "nonce").length = 20 := by
    decide +kernel
  have seconds := Cbor.length_unsigned_le deadline.toNat
  have number := Cbor.length_wide_le nonce.toNat
  simp only [closingBytes, List.length_append]
  omega

/-- The fields of a canned job after its kind. -/
def argumentBytes (payload : JobSubmissionPayload) : List UInt8 :=
  Cbor.text "a" ++ (Cbor.signed payload.a.toInt ++ (Cbor.text "b" ++
    (Cbor.signed payload.b.toInt ++ closingBytes payload.deadlineSecs payload.nonce)))

theorem argumentBytes_inj {payload other : JobSubmissionPayload}
    (equal : argumentBytes payload = argumentBytes other) :
    payload.a = other.a ∧ payload.b = other.b ∧ payload.deadlineSecs = other.deadlineSecs ∧
      payload.nonce = other.nonce := by
  obtain ⟨first, rest⟩ := Cbor.int32_prefixFree.split (List.append_cancel_left equal)
  obtain ⟨second, closing⟩ := Cbor.int32_prefixFree.split (List.append_cancel_left rest)
  exact ⟨first, second, closingBytes_inj closing⟩

theorem length_argumentBytes_le (payload : JobSubmissionPayload) :
    (argumentBytes payload).length ≤ 85 := by
  have names : (Cbor.text "a").length + (Cbor.text "b").length = 4 := by decide +kernel
  have first := Cbor.length_signed_le payload.a.toInt
  have second := Cbor.length_signed_le payload.b.toInt
  have closing := length_closingBytes_le payload.deadlineSecs payload.nonce
  simp only [argumentBytes, List.length_append]
  omega

/-! ## The two shapes -/

theorem canonicalBytes_eq (payload : JobSubmissionPayload) :
    canonicalBytes payload =
      Cbor.header 5 6 ++ (Cbor.text "tenant_id" ++ (Cbor.unsigned payload.tenantId.toNat ++
        (Cbor.text "kind" ++ (Cbor.text payload.kind ++ argumentBytes payload)))) := by
  simp [canonicalBytes, Cbor.record, argumentBytes, closingBytes]

theorem canonicalBytesPipeline_eq (payload : PipelineSubmissionPayload) :
    canonicalBytesPipeline payload =
      Cbor.header 5 4 ++ (Cbor.text "tenant_id" ++ (Cbor.unsigned payload.tenantId.toNat ++
        (Cbor.text "pipeline_cbor" ++ (Cbor.byteArray payload.pipelineCbor ++
          closingBytes payload.deadlineSecs payload.nonce)))) := by
  simp [canonicalBytesPipeline, Cbor.record, closingBytes]

theorem canonicalBytes_injective : Function.Injective canonicalBytes := by
  intro payload other equal
  rw [canonicalBytes_eq, canonicalBytes_eq] at equal
  obtain ⟨tenant, rest⟩ := Cbor.uint64_prefixFree.split
    (List.append_cancel_left (List.append_cancel_left equal))
  have short (payload : JobSubmissionPayload) : (argumentBytes payload).length < 2 ^ 64 :=
    (length_argumentBytes_le payload).trans_lt (by decide)
  obtain ⟨kind, arguments⟩ :=
    Cbor.text_split (List.append_cancel_left rest) (short payload) (short other)
  obtain ⟨a, b, deadline, nonce⟩ := argumentBytes_inj arguments
  cases payload
  cases other
  simp_all only

theorem canonicalBytesPipeline_injective : Function.Injective canonicalBytesPipeline := by
  intro payload other equal
  rw [canonicalBytesPipeline_eq, canonicalBytesPipeline_eq] at equal
  obtain ⟨tenant, rest⟩ := Cbor.uint64_prefixFree.split
    (List.append_cancel_left (List.append_cancel_left equal))
  have short (payload : PipelineSubmissionPayload) :
      (closingBytes payload.deadlineSecs payload.nonce).length < 2 ^ 64 :=
    (length_closingBytes_le _ _).trans_lt (by decide)
  obtain ⟨pipeline, closing⟩ :=
    Cbor.byteArray_split (List.append_cancel_left rest) (short payload) (short other)
  obtain ⟨deadline, nonce⟩ := closingBytes_inj closing
  cases payload
  cases other
  simp_all only

/-- The number of fields tells the shapes apart. -/
theorem canonicalBytes_ne_pipeline (job : JobSubmissionPayload)
    (pipeline : PipelineSubmissionPayload) :
    canonicalBytes job ≠ canonicalBytesPipeline pipeline := by
  intro equal
  rw [canonicalBytes_eq, canonicalBytesPipeline_eq] at equal
  have fields := (Cbor.header_split_word 5 5 equal).2.1
  exact absurd fields (by decide)

theorem Submission.signedBytes_injective : Function.Injective Submission.signedBytes := by
  intro first second equal
  cases first with
  | job payload =>
      cases second with
      | job other => exact congrArg _ (canonicalBytes_injective equal)
      | pipeline other => exact absurd equal (canonicalBytes_ne_pipeline payload other)
  | pipeline payload =>
      cases second with
      | job other => exact absurd equal.symm (canonicalBytes_ne_pipeline other payload)
      | pipeline other => exact congrArg _ (canonicalBytesPipeline_injective equal)

/-! ## Signatures -/

/-- The signature verifies for at most one of the messages, with the keys they come with. -/
def BindsMessage (crypto : Crypto) (signature : Bytes 64)
    (attempts : List (Bytes 32 × List UInt8)) : Prop :=
  ∀ first ∈ attempts, ∀ second ∈ attempts,
    crypto.verify first.1 first.2 signature = true →
      crypto.verify second.1 second.2 signature = true → first.2 = second.2

instance (crypto : Crypto) (signature : Bytes 64) (attempts : List (Bytes 32 × List UInt8)) :
    Decidable (BindsMessage crypto signature attempts) :=
  inferInstanceAs (Decidable (∀ first ∈ attempts, ∀ second ∈ attempts, _ → _ → _))

namespace Gate

variable {crypto : Crypto} {registry : TenantRegistry}

theorem verify_of_identify {call : GateCall} {tenant : TenantRecord}
    (known : identify crypto registry call = .ok tenant) :
    crypto.verify call.pubkey call.submission.signedBytes call.signature = true := by
  unfold identify authenticate at known
  split at known
  · cases known
  · split at known
    · cases known
    · split at known
      · cases known
      · split at known
        · cases known
        · next verified => simpa using verified

/-- Stages one and two know only two reasons to turn a call down. -/
theorem identify_of_not_verify {call : GateCall}
    (fails : crypto.verify call.pubkey call.submission.signedBytes call.signature = false) :
    identify crypto registry call = .error .unknownTenant ∨
      identify crypto registry call = .error .badSignature := by
  unfold identify authenticate
  split
  · exact Or.inl rfl
  · right
    split
    · rfl
    · split
      · rfl
      · simp [fails]

/-- The signed bytes determine the submission and its wire shape.  So once a signature has
passed for one submission, the gate turns down every other one that carries it, as long as
the scheme does not verify it for two messages; nothing is recorded. -/
theorem signature_fixes_submission :
    Function.Injective canonicalBytes ∧ Function.Injective canonicalBytesPipeline ∧
      (∀ job pipeline, canonicalBytes job ≠ canonicalBytesPipeline pipeline) ∧
      ∀ (crypto : Crypto) (registry registry' : TenantRegistry) (gate : Gate)
        (call other : GateCall) (tenant : TenantRecord),
        BindsMessage crypto call.signature [(call.pubkey, call.submission.signedBytes),
          (other.pubkey, other.submission.signedBytes)] →
        identify crypto registry call = .ok tenant → other.signature = call.signature →
        other.submission ≠ call.submission →
        step crypto registry' gate other = (.unknownTenant, gate) ∨
          step crypto registry' gate other = (.badSignature, gate) := by
  refine ⟨canonicalBytes_injective, canonicalBytesPipeline_injective,
    canonicalBytes_ne_pipeline, ?_⟩
  intro crypto registry registry' gate call other tenant binds known copied differ
  have fails : crypto.verify other.pubkey other.submission.signedBytes other.signature =
      false := by
    rw [← Bool.not_eq_true]
    intro verified
    apply differ
    apply Submission.signedBytes_injective
    exact binds (other.pubkey, other.submission.signedBytes)
      (List.mem_cons_of_mem _ (List.mem_singleton_self _))
      (call.pubkey, call.submission.signedBytes) List.mem_cons_self (copied ▸ verified)
      (verify_of_identify known)
  rw [step_eq]
  rcases identify_of_not_verify fails with unknown | bad
  · rw [unknown]
    exact Or.inl rfl
  · rw [bad]
    exact Or.inr rfl

/-- The signature of a canned job on a pipeline submission of the same tenant and nonce. -/
def reshapedCall : GateCall :=
  { soleTenantCall 5 0 with submission := .pipeline ⟨1, [160], 60, 5⟩ }

theorem signature_fixes_submission_reshaped :
    (identify Core.modelCrypto soleTenantRegistry (soleTenantCall 5 0)).isOk = true ∧
      (step Core.modelCrypto soleTenantRegistry freshGate reshapedCall =
          (.unknownTenant, freshGate) ∨
        step Core.modelCrypto soleTenantRegistry freshGate reshapedCall =
          (.badSignature, freshGate)) :=
  ⟨by decide +kernel,
    signature_fixes_submission.2.2.2 Core.modelCrypto soleTenantRegistry soleTenantRegistry
      freshGate (soleTenantCall 5 0) reshapedCall
      ⟨1, Core.modelHash soleTenantKey.toList, 1, 1, 0⟩
      (by decide +kernel) (by decide +kernel) rfl (by decide)⟩

end Gate

end Cosaci.State
