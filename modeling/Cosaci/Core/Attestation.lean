import Cosaci.Foundation.Encoding
import Cosaci.Core.Quorum

/-!
# Attestations

The signed statement of one runner about one job, its canonical encoding and its
signature.  SHA-256 and Ed25519 are parameters: a hash function and a signature
scheme whose verifying keys are represented by their bytes.
-/

namespace Cosaci.Core

open Foundation

/-- A SHA-256 digest. -/
abbrev Hash := Bytes 32

/-- The cryptographic functions the program links against. -/
structure Crypto where
  /-- SHA-256. -/
  sha256 : List UInt8 → Hash
  /-- Whether 32 bytes decode to an Ed25519 verifying key. -/
  validKey : Bytes 32 → Bool
  /-- Strict Ed25519 verification of a message under a verifying key. -/
  verify : Bytes 32 → List UInt8 → Bytes 64 → Bool

/-- No two of the given messages have the same digest. -/
def Crypto.CollisionFree (crypto : Crypto) (messages : List (List UInt8)) : Prop :=
  ∀ first ∈ messages, ∀ second ∈ messages,
    crypto.sha256 first = crypto.sha256 second → first = second

instance (crypto : Crypto) (messages : List (List UInt8)) :
    Decidable (crypto.CollisionFree messages) :=
  inferInstanceAs (Decidable (∀ first ∈ messages, ∀ second ∈ messages, _ → _))

/-- An Ed25519 keypair: its verifying key and its deterministic signing function. -/
structure Keypair where
  verifyingKey : Bytes 32
  sign : List UInt8 → Bytes 64

/-- Whatever the keypair signs verifies under its key. -/
def Keypair.Correct (crypto : Crypto) (keypair : Keypair) : Prop :=
  ∀ message, crypto.verify keypair.verifyingKey message (keypair.sign message) = true

/-- A computable stand-in for SHA-256, for evaluating the model on concrete
inputs. -/
def modelHash (bytes : List UInt8) : Hash :=
  ⟨littleEndian 32 (ofLittleEndian bytes % (2 ^ 61 - 1)), length_littleEndian _ _⟩

/-- The matching signature: the key followed by the digest of the message. -/
def modelSignature (key : Bytes 32) (message : List UInt8) : Bytes 64 :=
  key ++ modelHash message

def modelCrypto : Crypto where
  sha256 := modelHash
  validKey _ := true
  verify key message signature := signature == modelSignature key message

def modelKeypair (key : Bytes 32) : Keypair where
  verifyingKey := key
  sign := modelSignature key

theorem modelKeypair_correct (key : Bytes 32) : (modelKeypair key).Correct modelCrypto :=
  fun _ => beq_self_eq_true _

/-- Result of a job as attested by a runner. -/
inductive AttestationResult where
  | pass
  | fail
  deriving DecidableEq, Repr

/-- A signed claim by one runner about one job's outcome. -/
structure Attestation where
  version : UInt8
  jobId : Bytes 16
  commit : Bytes 32
  runnerId : RunnerId
  result : AttestationResult
  environmentHash : Hash
  artifactHash : Hash
  timestampUnixNs : Int64
  signature : Bytes 64
  deriving DecidableEq

namespace Attestation

/-- The supported schema version. -/
def currentVersion : UInt8 := 1

def resultName : AttestationResult → String
  | .pass => "pass"
  | .fail => "fail"

/-- Canonical byte encoding. -/
def canonicalize (attestation : Attestation) : List UInt8 :=
  Cbor.record
    [("version", Cbor.unsigned attestation.version.toNat),
      ("job_id", Cbor.byteArray attestation.jobId.toList),
      ("commit", Cbor.byteArray attestation.commit.toList),
      ("runner_id", Cbor.unsigned attestation.runnerId.toNat),
      ("result", Cbor.text (resultName attestation.result)),
      ("environment_hash", Cbor.byteArray attestation.environmentHash.toList),
      ("artifact_hash", Cbor.byteArray attestation.artifactHash.toList),
      ("timestamp_unix_ns", Cbor.signed attestation.timestampUnixNs.toInt),
      ("signature", Cbor.byteArray attestation.signature.toList)]

/-- The signed message: the canonical encoding with the signature zeroed. -/
def canonicalSigningInput (attestation : Attestation) : List UInt8 :=
  canonicalize { attestation with signature := List.Vector.replicate 64 0 }

def signWith (attestation : Attestation) (keypair : Keypair) : Attestation :=
  { attestation with signature := keypair.sign attestation.canonicalSigningInput }

def verifySignature (crypto : Crypto) (attestation : Attestation) (key : Bytes 32) : Bool :=
  crypto.verify key attestation.canonicalSigningInput attestation.signature

/-- Signing changes no field but the signature, so it does not change the signed
message. -/
@[simp] theorem canonicalSigningInput_signWith (attestation : Attestation)
    (keypair : Keypair) :
    (attestation.signWith keypair).canonicalSigningInput =
      attestation.canonicalSigningInput := rfl

/-- An attestation signed with a correct keypair verifies under its key. -/
theorem verifySignature_signWith {crypto : Crypto} {keypair : Keypair}
    (correct : keypair.Correct crypto) (attestation : Attestation) :
    (attestation.signWith keypair).verifySignature crypto keypair.verifyingKey = true := by
  rw [verifySignature, canonicalSigningInput_signWith]
  exact correct attestation.canonicalSigningInput

end Attestation

end Cosaci.Core
