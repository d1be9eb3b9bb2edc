import Cosaci.Coordinator.Retrieval
import Cosaci.Core.AttestationCodec
import Cosaci.Jobs.PipelineCodec
import Cosaci.Protocol.Wire
import Cosaci.State.RateLimit

/-!
# The messages of the protocol and their encoding

All messages of `proto.rs`: those between the coordinator and its agents, the read API
and the admin API.  Every message is read back as it was written, so that a connection
hands over messages and not just bytes.
-/

namespace Cosaci.Protocol

open Foundation Cosaci.Core State
open Foundation.Cbor (Code Fields Shape Variant)
open Jobs (Pipeline CapturedOutput)
open Coordinator (JobBundle)

/-- A tenant as the admin API lists it. -/
structure AdminTenantRecord where
  tenantId : TenantId
  signingFp : Hash
  rateCapacity : UInt64
  rateRefillPerSec : UInt64
  registeredAtUnixNs : UInt64
  deriving DecidableEq

/-- An enrolled agent as the admin API lists it. -/
structure AdminAgentRecord where
  runnerId : RunnerId
  signingFp : Hash
  vrfFp : Hash
  enrolledAtUnixNs : Int64
  initialReputationThousandths : UInt32
  deriving DecidableEq

/-- Any message of the protocol. -/
inductive WireEnvelope where
  | register (runnerId : RunnerId) (signingPubkey vrfPubkey vrfOutput : Bytes 32)
      (vrfProof : Bytes 64) (stake : Weight) (capabilities : Capabilities)
  | vrfClaim (jobId : UInt64) (vrfOutput : Bytes 32) (vrfProof : Bytes 64)
  | submitAttestation (bundle : AttestationBundle)
  | registerAck
  | jobSeed (jobId : UInt64) (seed : Bytes 32)
  | assign (jobId : UInt64) (pipeline : Pipeline) (requirements : JobRequirements)
      (deadlineUnixNs : Int64)
  | shutdown
  | getJob (jobId : UInt64)
  | getLogRoot
  | jobBundleResponse (bundle : JobBundle)
  | jobNotFound (jobId : UInt64)
  | logRoot (root : Option Hash) (length : UInt64)
  | getCaptures (jobId : UInt64) (runnerId : RunnerId)
  | capturesResponse (jobId : UInt64) (runnerId : RunnerId) (captures : List CapturedOutput)
  | capturesNotFound (jobId : UInt64) (runnerId : RunnerId)
  | adminHello (adminPubkey : Bytes 32) (tsUnixNs : UInt64) (signature : Bytes 64)
  | adminWelcome
  | adminError (reason : String)
  | adminListAgents
  | adminAgentList (entries : List AdminAgentRecord)
  | adminGetLogRoot
  | adminLogRoot (root : Option Hash) (length : UInt64)
  | adminEnrollAgent (record : AdminAgentRecord)
  | adminEnrollAck
  | adminRevokeAgent (runnerId : RunnerId)
  | adminRevokeAck
  | adminListTenants
  | adminTenantList (entries : List AdminTenantRecord)
  | adminAddTenant (record : AdminTenantRecord)
  | adminAddTenantAck
  | adminRevokeTenant (tenantId : TenantId)
  | adminRevokeTenantAck
  deriving DecidableEq

/-! ## Capabilities and attestations -/

def platformName : Platform → String
  | .linuxX86_64 => "LinuxX86_64"
  | .linuxAarch64 => "LinuxAarch64"
  | .darwinX86_64 => "DarwinX86_64"
  | .darwinAarch64 => "DarwinAarch64"

def platformShape : Shape Platform :=
  .units [.linuxX86_64, .linuxAarch64, .darwinX86_64, .darwinAarch64] platformName
    (by intro platform; cases platform <;> simp) (by decide)

def runtimeName : Runtime → String
  | .wasm => "Wasm"
  | .firecracker => "Firecracker"
  | .docker => "Docker"

def runtimeShape : Shape Runtime :=
  .units [.wasm, .firecracker, .docker] runtimeName (by intro runtime; cases runtime <;> simp)
    (by decide)

/-- A set is written in the order of the declaration. -/
def runtimesInOrder (runtimes : Finset Runtime) : List Runtime :=
  [.wasm, .firecracker, .docker].filter (· ∈ runtimes)

theorem toFinset_runtimesInOrder (runtimes : Finset Runtime) :
    (runtimesInOrder runtimes).toFinset = runtimes := by
  ext runtime
  cases runtime <;> simp [runtimesInOrder]

def runtimesShape : Shape (Finset Runtime) :=
  (runtimeShape.list.convert runtimesInOrder List.toFinset toFinset_runtimesInOrder).total
    fun _ _ _ => trivial

/-- Capabilities and requirements have the same fields. -/
def resourcesShape : Shape (UInt32 × UInt32 × Platform × Finset Runtime) :=
  (Shape.record (.both (.one "cpu" .uint32) (.both (.one "memory_mb" .uint32)
    (.both (.one "platform" platformShape) (.one "runtimes" runtimesShape)))) (by decide)).total
      fun _ => ⟨trivial, trivial, trivial, trivial⟩

def capabilitiesShape : Shape Capabilities :=
  resourcesShape.convert
    (fun offered => (offered.cpu, offered.memoryMb, offered.platform, offered.runtimes))
    (fun (cpu, memoryMb, platform, runtimes) => ⟨cpu, memoryMb, platform, runtimes⟩) fun _ => rfl

def requirementsShape : Shape JobRequirements :=
  resourcesShape.convert
    (fun required => (required.cpu, required.memoryMb, required.platform, required.runtimes))
    (fun (cpu, memoryMb, platform, runtimes) => ⟨cpu, memoryMb, platform, runtimes⟩) fun _ => rfl

def resultShape : Shape AttestationResult :=
  .units [.pass, .fail] Attestation.resultName (by intro result; cases result <;> simp)
    (by decide)

def attestationShape : Shape Attestation :=
  ((Shape.record (.both (.one "version" .uint8) (.both (.one "job_id" (.fixedBytes 16))
    (.both (.one "commit" (.fixedBytes 32)) (.both (.one "runner_id" .uint64)
    (.both (.one "result" resultShape) (.both (.one "environment_hash" (.fixedBytes 32))
    (.both (.one "artifact_hash" (.fixedBytes 32)) (.both (.one "timestamp_unix_ns" .int64)
    (.one "signature" (.fixedBytes 64)))))))))) (by decide)).convert
      (fun signed : Attestation => (signed.version, signed.jobId, signed.commit,
        signed.runnerId, signed.result, signed.environmentHash, signed.artifactHash,
        signed.timestampUnixNs, signed.signature))
      (fun (version, jobId, commit, runnerId, result, environmentHash, artifactHash,
          timestampUnixNs, signature) =>
        ⟨version, jobId, commit, runnerId, result, environmentHash, artifactHash,
          timestampUnixNs, signature⟩) fun _ => rfl).total
        fun _ => ⟨trivial, trivial, trivial, trivial, trivial, trivial, trivial, trivial, trivial⟩

/-- An empty list of captures is left out, and read back as empty. -/
def bundleShape : Shape AttestationBundle :=
  ((Shape.record (.both (.one "attestation" attestationShape)
    (.unlessEmpty "captures" CapturedOutput.shape)) (by decide)).convert
      (fun bundle : AttestationBundle => (bundle.attestation, bundle.captures))
      (fun (attestation, captures) => ⟨attestation, captures⟩) fun _ => rfl).total
        fun _ => ⟨trivial, fun _ _ => trivial⟩

/-! ## Bundles for auditors -/

def inclusionProofShape : Shape InclusionProof :=
  (Shape.record (.both (.one "position" (.natural 64 le_rfl))
    (.both (.one "entry" (.fixedBytes 32)) (.both (.one "proof_hashes" (Shape.fixedBytes 32).list)
    (.one "length_at_proof" (.natural 64 le_rfl))))) (by decide)).convert
      (fun proof : InclusionProof =>
        (proof.position, proof.entry, proof.proofHashes, proof.lengthAtProof))
      (fun (position, entry, proofHashes, lengthAtProof) =>
        ⟨position, entry, proofHashes, lengthAtProof⟩) fun _ => rfl

def jobBundleShape : Shape JobBundle :=
  (Shape.record (.both (.one "job_id" .uint64) (.both (.one "pipeline_hash" (.fixedBytes 32))
    (.both (.one "committee_attestations" attestationShape.list)
    (.both (.one "consensus_artifact" (.fixedBytes 32))
    (.both (.one "merkle_proof" inclusionProofShape) (.both (.one "log_root" (.fixedBytes 32))
    (.both (.one "log_position" (.natural 64 le_rfl))
    (.one "log_length_at_anchor" (.natural 64 le_rfl))))))))) (by decide)).convert
      (fun bundle : JobBundle => (bundle.jobId, bundle.pipelineHash,
        bundle.committeeAttestations, bundle.consensusArtifact, bundle.merkleProof,
        bundle.logRoot, bundle.logPosition, bundle.logLengthAtAnchor))
      (fun (jobId, pipelineHash, committeeAttestations, consensusArtifact, merkleProof, logRoot,
          logPosition, logLengthAtAnchor) =>
        ⟨jobId, pipelineHash, committeeAttestations, consensusArtifact, merkleProof, logRoot,
          logPosition, logLengthAtAnchor⟩) fun _ => rfl

/-! ## The variants -/

/-- A message that carries one identifier. -/
def idShape (name : String) : Shape UInt64 :=
  (Shape.record (.one name .uint64) (List.nodup_singleton _)).total fun _ => trivial

/-- The job and the runner that captures belong to. -/
def captureKeyShape : Shape (UInt64 × RunnerId) :=
  (Shape.record (.both (.one "job_id" .uint64) (.one "runner_id" .uint64)) (by decide)).total
    fun _ => ⟨trivial, trivial⟩

def logRootShape : Shape (Option Hash × UInt64) :=
  (Shape.record (.both (.one "root" ((Shape.fixedBytes 32).option
    fun _ => (by decide : (4 : Fin 8) ≠ 7))) (.one "length" .uint64)) (by decide)).total
      fun _ => ⟨fun _ _ => trivial, trivial⟩

def adminAgentRecordShape : Shape AdminAgentRecord :=
  ((Shape.record (.both (.one "runner_id" .uint64) (.both (.one "signing_fp" (.fixedBytes 32))
    (.both (.one "vrf_fp" (.fixedBytes 32)) (.both (.one "enrolled_at_unix_ns" .int64)
    (.one "initial_reputation_thousandths" .uint32))))) (by decide)).convert
      (fun record : AdminAgentRecord => (record.runnerId, record.signingFp, record.vrfFp,
        record.enrolledAtUnixNs, record.initialReputationThousandths))
      (fun (runnerId, signingFp, vrfFp, enrolledAtUnixNs, initialReputationThousandths) =>
        ⟨runnerId, signingFp, vrfFp, enrolledAtUnixNs, initialReputationThousandths⟩)
      fun _ => rfl).total fun _ => ⟨trivial, trivial, trivial, trivial, trivial⟩

def adminTenantRecordShape : Shape AdminTenantRecord :=
  ((Shape.record (.both (.one "tenant_id" .uint64) (.both (.one "signing_fp" (.fixedBytes 32))
    (.both (.one "rate_capacity" .uint64) (.both (.one "rate_refill_per_sec" .uint64)
    (.one "registered_at_unix_ns" .uint64))))) (by decide)).convert
      (fun record : AdminTenantRecord => (record.tenantId, record.signingFp,
        record.rateCapacity, record.rateRefillPerSec, record.registeredAtUnixNs))
      (fun (tenantId, signingFp, rateCapacity, rateRefillPerSec, registeredAtUnixNs) =>
        ⟨tenantId, signingFp, rateCapacity, rateRefillPerSec, registeredAtUnixNs⟩)
      fun _ => rfl).total fun _ => ⟨trivial, trivial, trivial, trivial, trivial⟩

namespace WireEnvelope

def registerVariant : Variant WireEnvelope :=
  .holding "Register" ((Shape.record (.both (.one "runner_id" .uint64)
    (.both (.one "signing_pubkey" (.fixedBytes 32)) (.both (.one "vrf_pubkey" (.fixedBytes 32))
    (.both (.one "vrf_output" (.fixedBytes 32)) (.both (.one "vrf_proof" (.fixedBytes 64))
    (.both (.one "stake" .uint64) (.one "capabilities" capabilitiesShape)))))))
      (by decide)).total
        fun _ => ⟨trivial, trivial, trivial, trivial, trivial, trivial, trivial⟩)
    fun (runnerId, signingPubkey, vrfPubkey, vrfOutput, vrfProof, stake, capabilities) =>
      .register runnerId signingPubkey vrfPubkey vrfOutput vrfProof stake capabilities

def vrfClaimVariant : Variant WireEnvelope :=
  .holding "VrfClaim" ((Shape.record (.both (.one "job_id" .uint64)
    (.both (.one "vrf_output" (.fixedBytes 32)) (.one "vrf_proof" (.fixedBytes 64))))
      (by decide)).total fun _ => ⟨trivial, trivial, trivial⟩)
    fun (jobId, vrfOutput, vrfProof) => .vrfClaim jobId vrfOutput vrfProof

def submitAttestationVariant : Variant WireEnvelope :=
  .holding "SubmitAttestation" bundleShape .submitAttestation

def registerAckVariant : Variant WireEnvelope :=
  .unit "RegisterAck" .registerAck

def jobSeedVariant : Variant WireEnvelope :=
  .holding "JobSeed" ((Shape.record (.both (.one "job_id" .uint64)
    (.one "seed" (.fixedBytes 32))) (by decide)).total fun _ => ⟨trivial, trivial⟩)
    fun (jobId, seed) => .jobSeed jobId seed

def assignVariant : Variant WireEnvelope :=
  .holding "Assign" ((Shape.record (.both (.one "job_id" .uint64)
    (.both (.one "pipeline" Pipeline.shape) (.both (.one "requirements" requirementsShape)
    (.one "deadline_unix_ns" .int64)))) (by decide)).total
      fun _ => ⟨trivial, trivial, trivial, trivial⟩)
    fun (jobId, pipeline, requirements, deadlineUnixNs) =>
      .assign jobId pipeline requirements deadlineUnixNs

def shutdownVariant : Variant WireEnvelope :=
  .unit "Shutdown" .shutdown

def getJobVariant : Variant WireEnvelope :=
  .holding "GetJob" (idShape "job_id") .getJob

def getLogRootVariant : Variant WireEnvelope :=
  .unit "GetLogRoot" .getLogRoot

def jobBundleResponseVariant : Variant WireEnvelope :=
  .holding "JobBundleResponse" jobBundleShape .jobBundleResponse

def jobNotFoundVariant : Variant WireEnvelope :=
  .holding "JobNotFound" (idShape "job_id") .jobNotFound

def logRootVariant : Variant WireEnvelope :=
  .holding "LogRoot" logRootShape fun (root, length) => .logRoot root length

def getCapturesVariant : Variant WireEnvelope :=
  .holding "GetCaptures" captureKeyShape fun (jobId, runnerId) => .getCaptures jobId runnerId

def capturesResponseVariant : Variant WireEnvelope :=
  .holding "CapturesResponse" ((Shape.record (.both (.one "job_id" .uint64)
    (.both (.one "runner_id" .uint64) (.one "captures" CapturedOutput.shape.list)))
      (by decide)).total fun _ => ⟨trivial, trivial, fun _ _ => trivial⟩)
    fun (jobId, runnerId, captures) => .capturesResponse jobId runnerId captures

def capturesNotFoundVariant : Variant WireEnvelope :=
  .holding "CapturesNotFound" captureKeyShape
    fun (jobId, runnerId) => .capturesNotFound jobId runnerId

def adminHelloVariant : Variant WireEnvelope :=
  .holding "AdminHello" ((Shape.record (.both (.one "admin_pubkey" (.fixedBytes 32))
    (.both (.one "ts_unix_ns" .uint64) (.one "signature" (.fixedBytes 64)))) (by decide)).total
      fun _ => ⟨trivial, trivial, trivial⟩)
    fun (adminPubkey, tsUnixNs, signature) => .adminHello adminPubkey tsUnixNs signature

def adminWelcomeVariant : Variant WireEnvelope :=
  .unit "AdminWelcome" .adminWelcome

def adminErrorVariant : Variant WireEnvelope :=
  .holding "AdminError" ((Shape.record (.one "reason" .text) (by decide)).total
    fun _ => trivial) .adminError

def adminListAgentsVariant : Variant WireEnvelope :=
  .unit "AdminListAgents" .adminListAgents

def adminAgentListVariant : Variant WireEnvelope :=
  .holding "AdminAgentList" ((Shape.record (.one "entries" adminAgentRecordShape.list)
    (by decide)).total fun _ _ _ => trivial) .adminAgentList

def adminGetLogRootVariant : Variant WireEnvelope :=
  .unit "AdminGetLogRoot" .adminGetLogRoot

def adminLogRootVariant : Variant WireEnvelope :=
  .holding "AdminLogRoot" logRootShape fun (root, length) => .adminLogRoot root length

def adminEnrollAgentVariant : Variant WireEnvelope :=
  .holding "AdminEnrollAgent" adminAgentRecordShape .adminEnrollAgent

def adminEnrollAckVariant : Variant WireEnvelope :=
  .unit "AdminEnrollAck" .adminEnrollAck

def adminRevokeAgentVariant : Variant WireEnvelope :=
  .holding "AdminRevokeAgent" (idShape "runner_id") .adminRevokeAgent

def adminRevokeAckVariant : Variant WireEnvelope :=
  .unit "AdminRevokeAck" .adminRevokeAck

def adminListTenantsVariant : Variant WireEnvelope :=
  .unit "AdminListTenants" .adminListTenants

def adminTenantListVariant : Variant WireEnvelope :=
  .holding "AdminTenantList" ((Shape.record (.one "entries" adminTenantRecordShape.list)
    (List.nodup_singleton _)).total fun _ _ _ => trivial) .adminTenantList

def adminAddTenantVariant : Variant WireEnvelope :=
  .holding "AdminAddTenant" adminTenantRecordShape .adminAddTenant

def adminAddTenantAckVariant : Variant WireEnvelope :=
  .unit "AdminAddTenantAck" .adminAddTenantAck

def adminRevokeTenantVariant : Variant WireEnvelope :=
  .holding "AdminRevokeTenant" (idShape "tenant_id") .adminRevokeTenant

def adminRevokeTenantAckVariant : Variant WireEnvelope :=
  .unit "AdminRevokeTenantAck" .adminRevokeTenantAck

def variants : List (Variant WireEnvelope) :=
  [registerVariant, vrfClaimVariant, submitAttestationVariant, registerAckVariant,
    jobSeedVariant, assignVariant, shutdownVariant, getJobVariant, getLogRootVariant,
    jobBundleResponseVariant, jobNotFoundVariant, logRootVariant, getCapturesVariant,
    capturesResponseVariant, capturesNotFoundVariant, adminHelloVariant, adminWelcomeVariant,
    adminErrorVariant, adminListAgentsVariant, adminAgentListVariant, adminGetLogRootVariant,
    adminLogRootVariant, adminEnrollAgentVariant, adminEnrollAckVariant,
    adminRevokeAgentVariant, adminRevokeAckVariant, adminListTenantsVariant,
    adminTenantListVariant, adminAddTenantVariant, adminAddTenantAckVariant,
    adminRevokeTenantVariant, adminRevokeTenantAckVariant]

def pick : (message : WireEnvelope) → Variant.Pick variants message
  | .register runnerId signingPubkey vrfPubkey vrfOutput vrfProof stake capabilities =>
      ⟨registerVariant,
        (runnerId, signingPubkey, vrfPubkey, vrfOutput, vrfProof, stake, capabilities),
        by simp [variants], rfl⟩
  | .vrfClaim jobId vrfOutput vrfProof =>
      ⟨vrfClaimVariant, (jobId, vrfOutput, vrfProof), by simp [variants], rfl⟩
  | .submitAttestation bundle => ⟨submitAttestationVariant, bundle, by simp [variants], rfl⟩
  | .registerAck => ⟨registerAckVariant, (), by simp [variants], rfl⟩
  | .jobSeed jobId seed => ⟨jobSeedVariant, (jobId, seed), by simp [variants], rfl⟩
  | .assign jobId pipeline requirements deadlineUnixNs =>
      ⟨assignVariant, (jobId, pipeline, requirements, deadlineUnixNs), by simp [variants], rfl⟩
  | .shutdown => ⟨shutdownVariant, (), by simp [variants], rfl⟩
  | .getJob jobId => ⟨getJobVariant, jobId, by simp [variants], rfl⟩
  | .getLogRoot => ⟨getLogRootVariant, (), by simp [variants], rfl⟩
  | .jobBundleResponse bundle => ⟨jobBundleResponseVariant, bundle, by simp [variants], rfl⟩
  | .jobNotFound jobId => ⟨jobNotFoundVariant, jobId, by simp [variants], rfl⟩
  | .logRoot root length => ⟨logRootVariant, (root, length), by simp [variants], rfl⟩
  | .getCaptures jobId runnerId =>
      ⟨getCapturesVariant, (jobId, runnerId), by simp [variants], rfl⟩
  | .capturesResponse jobId runnerId captures =>
      ⟨capturesResponseVariant, (jobId, runnerId, captures), by simp [variants], rfl⟩
  | .capturesNotFound jobId runnerId =>
      ⟨capturesNotFoundVariant, (jobId, runnerId), by simp [variants], rfl⟩
  | .adminHello adminPubkey tsUnixNs signature =>
      ⟨adminHelloVariant, (adminPubkey, tsUnixNs, signature), by simp [variants], rfl⟩
  | .adminWelcome => ⟨adminWelcomeVariant, (), by simp [variants], rfl⟩
  | .adminError reason => ⟨adminErrorVariant, reason, by simp [variants], rfl⟩
  | .adminListAgents => ⟨adminListAgentsVariant, (), by simp [variants], rfl⟩
  | .adminAgentList entries => ⟨adminAgentListVariant, entries, by simp [variants], rfl⟩
  | .adminGetLogRoot => ⟨adminGetLogRootVariant, (), by simp [variants], rfl⟩
  | .adminLogRoot root length => ⟨adminLogRootVariant, (root, length), by simp [variants], rfl⟩
  | .adminEnrollAgent record => ⟨adminEnrollAgentVariant, record, by simp [variants], rfl⟩
  | .adminEnrollAck => ⟨adminEnrollAckVariant, (), by simp [variants], rfl⟩
  | .adminRevokeAgent runnerId => ⟨adminRevokeAgentVariant, runnerId, by simp [variants], rfl⟩
  | .adminRevokeAck => ⟨adminRevokeAckVariant, (), by simp [variants], rfl⟩
  | .adminListTenants => ⟨adminListTenantsVariant, (), by simp [variants], rfl⟩
  | .adminTenantList entries => ⟨adminTenantListVariant, entries, by simp [variants], rfl⟩
  | .adminAddTenant record => ⟨adminAddTenantVariant, record, by simp [variants], rfl⟩
  | .adminAddTenantAck => ⟨adminAddTenantAckVariant, (), by simp [variants], rfl⟩
  | .adminRevokeTenant tenantId =>
      ⟨adminRevokeTenantVariant, tenantId, by simp [variants], rfl⟩
  | .adminRevokeTenantAck => ⟨adminRevokeTenantAckVariant, (), by simp [variants], rfl⟩

def shape : Shape WireEnvelope :=
  .enum variants pick (by decide)

/-- The positions and lengths of a message are 64-bit words. -/
def Words : WireEnvelope → Prop
  | .jobBundleResponse bundle =>
      bundle.logPosition < 2 ^ 64 ∧ bundle.logLengthAtAnchor < 2 ^ 64 ∧
        bundle.merkleProof.position < 2 ^ 64 ∧ bundle.merkleProof.lengthAtProof < 2 ^ 64
  | _ => True

theorem valid_of_words {message : WireEnvelope} (words : message.Words) :
    shape.Valid message := by
  cases message with
  | jobBundleResponse bundle =>
      obtain ⟨position, length, proofPosition, proofLength⟩ := words
      exact ⟨trivial, trivial, fun _ _ => trivial, trivial,
        ⟨proofPosition, trivial, fun _ _ => trivial, proofLength⟩, trivial, position, length⟩
  | _ => trivial

/-- The CBOR library, with the reader's limit on nesting. -/
def codec : Wire.Codec WireEnvelope where
  intoWriter message := (shape.write message).bytes
  fromReader bytes :=
    (Cbor.readItem Attestation.recursionLimit bytes).bind fun read => shape.read read.1

theorem nesting_shape : shape.nesting ≤ Attestation.recursionLimit := by
  decide +kernel

/-- What is written for a message is read as this message. -/
theorem fromReader_intoWriter {message : WireEnvelope} (words : message.Words)
    (short : (codec.intoWriter message).length < 2 ^ 64) :
    codec.fromReader (codec.intoWriter message) = some message := by
  have sent := shape.sent message (valid_of_words words) short
  have read := sent.readable Attestation.recursionLimit nesting_shape []
  rw [List.append_nil, sent.bytes] at read
  simp only [codec] at read ⊢
  rw [read, Option.bind_some]
  exact shape.read_write message (valid_of_words words) short

/-! The encodings that the size bounds of agent messages speak about. -/

theorem bytes_attestationShape (attestation : Attestation) :
    (attestationShape.write attestation).bytes = attestation.canonicalize := by
  simp only [Attestation.canonicalize, ← Shape.bytes_bytes]
  obtain ⟨version, jobId, commit, runnerId, result, environmentHash, artifactHash,
    timestampUnixNs, signature⟩ := attestation
  cases result <;> rfl

theorem bytes_bundleShape (bundle : AttestationBundle) :
    (bundleShape.write bundle).bytes = bundle.encode := by
  have captures : (CapturedOutput.shape.list.write bundle.captures).bytes =
      Cbor.array (bundle.captures.map CapturedOutput.encode) := by
    rw [Shape.bytes_list]
    exact congrArg _ (List.map_congr_left fun output _ => output.bytes_shape)
  obtain ⟨attestation, outputs⟩ := bundle
  rw [AttestationBundle.encode, ← captures, ← bytes_attestationShape]
  cases outputs <;> rfl

theorem intoWriter_submitAttestation (bundle : AttestationBundle) :
    codec.intoWriter (.submitAttestation bundle) = submitAttestationBytes bundle := by
  rw [submitAttestationBytes, ← bytes_bundleShape]
  rfl

theorem intoWriter_vrfClaim (jobId : UInt64) (vrfOutput : Bytes 32) (vrfProof : Bytes 64) :
    codec.intoWriter (.vrfClaim jobId vrfOutput vrfProof) =
      vrfClaimBytes jobId vrfOutput vrfProof := by
  rw [vrfClaimBytes, ← Shape.bytes_bytes, ← Shape.bytes_bytes]
  rfl

end WireEnvelope

/-! ## Connections -/

open Wire

/-- Messages of the protocol that fit into frames are handed over as they were written,
whichever functions write and read them and however the transport cuts the bytes.  When
the transport breaks off, the messages whose frames have arrived completely are handed
over, and nothing else is taken for a message. -/
theorem messages_handed_over (writes : List (Wire.Side × WireEnvelope))
    (words : ∀ write ∈ writes, write.2.Words)
    (fits : ∀ write ∈ writes, Fits WireEnvelope.codec write.2) :
    ∃ bytes, writeAll WireEnvelope.codec [] writes = .ok bytes ∧
      (∀ readers source, readers.length = writes.length → deliverable source = bytes →
        (readAll WireEnvelope.codec readers source).1 = .ok (writes.map Prod.snd)) ∧
      ∀ readers source, deliverable source <+: bytes →
        readSome WireEnvelope.codec readers source <+: writes.map Prod.snd ∧
          ∀ count ≤ readers.length,
            frames WireEnvelope.codec ((writes.map Prod.snd).take count) <+:
              deliverable source →
            (writes.map Prod.snd).take count <+:
              readSome WireEnvelope.codec readers source := by
  have small : ∀ message ∈ writes.map Prod.snd, Fits WireEnvelope.codec message := by
    simpa using fun message side member => fits (side, message) member
  have decodes : ∀ message ∈ writes.map Prod.snd,
      WireEnvelope.codec.fromReader (WireEnvelope.codec.intoWriter message) = some message := by
    intro message member
    obtain ⟨write, listed, rfl⟩ := List.mem_map.mp member
    have short := (fits write listed).trans_lt maxEnvelopeBytes_lt
    exact WireEnvelope.fromReader_intoWriter (words write listed) (short.trans (by decide))
  refine ⟨frames WireEnvelope.codec (writes.map Prod.snd), writeAll_eq_ok small [], ?_, ?_⟩
  · intro readers source count carried
    rw [← List.append_nil (frames _ _)] at carried
    obtain ⟨after, read, -⟩ :=
      readAll_decodable decodes small (by rw [count, List.length_map]) carried
    rw [read]
  · intro readers source torn
    exact readSome_frames decodes small readers torn

/-- A request for a job and its answer; the second frame never arrives. -/
theorem messages_handed_over_request :
    ∃ bytes, writeAll WireEnvelope.codec []
        [(.blocking, .getJob 7), (.async, .jobNotFound 7)] = .ok bytes ∧
      ∀ source, deliverable source = frames WireEnvelope.codec [.getJob 7] →
        deliverable source <+: bytes →
        [.getJob 7] <+: readSome WireEnvelope.codec [.async, .blocking] source := by
  have fits : ∀ write ∈ [(Wire.Side.blocking, WireEnvelope.getJob 7), (.async, .jobNotFound 7)],
      Fits WireEnvelope.codec write.2 := by
    unfold Fits
    decide +kernel
  obtain ⟨bytes, written, -, torn⟩ := messages_handed_over
    [(.blocking, .getJob 7), (.async, .jobNotFound 7)]
    (List.forall_mem_cons.mpr ⟨trivial, List.forall_mem_cons.mpr ⟨trivial, nofun⟩⟩) fits
  refine ⟨bytes, written, fun source first begun => ?_⟩
  exact (torn _ _ begun).2 1 (by decide) (by rw [first]; exact List.prefix_refl _)

end Cosaci.Protocol
