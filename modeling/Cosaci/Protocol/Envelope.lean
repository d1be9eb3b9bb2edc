import Cosaci.Core.Capabilities
import Cosaci.Core.FileStore
import Cosaci.Jobs.Pipeline

/-!
# Envelopes and connections

The messages between the coordinator and its agents, and the coordinator's end of
one connection.  What a connection delivers is a script: one result for every
read, and the fault, if any, of every write.
-/

namespace Cosaci.Protocol

open Foundation Cosaci.Core
open Jobs (Pipeline CapturedOutput)

/-- A signed attestation together with the captures of the execution. -/
structure AttestationBundle where
  attestation : Attestation
  captures : List CapturedOutput
  deriving DecidableEq

/-- A protocol message.  The messages of the read and admin APIs are one
constructor: neither end of an agent connection tells them apart. -/
inductive Envelope where
  | register (runnerId : RunnerId) (signingPubkey vrfPubkey vrfOutput : Bytes 32)
      (vrfProof : Bytes 64) (stake : Weight) (capabilities : Capabilities)
  | vrfClaim (jobId : UInt64) (vrfOutput : Bytes 32) (vrfProof : Bytes 64)
  | submitAttestation (bundle : AttestationBundle)
  | registerAck
  | jobSeed (jobId : UInt64) (seed : Bytes 32)
  | assign (jobId : UInt64) (pipeline : Pipeline) (requirements : JobRequirements)
      (deadlineUnixNs : Int64)
  | shutdown
  | other
  deriving DecidableEq

/-- One end of a connection. -/
structure Stream where
  /-- Results of the reads to come. -/
  inbound : List (Except IoErrorKind Envelope)
  /-- Faults of the writes to come; a write without an entry succeeds. -/
  faults : List (Option IoErrorKind)
  /-- The messages written so far. -/
  outbound : List Envelope

/-- Read one message; a stream with nothing left has been closed. -/
def readEnvelope (stream : Stream) : Except IoErrorKind Envelope × Stream :=
  match stream.inbound with
  | [] => (.error .unexpectedEof, stream)
  | result :: rest => (result, { stream with inbound := rest })

def writeEnvelope (stream : Stream) (envelope : Envelope) :
    Except IoErrorKind Unit × Stream :=
  match stream.faults with
  | some kind :: rest => (.error kind, { stream with faults := rest })
  | none :: rest =>
      (.ok (), { stream with faults := rest, outbound := stream.outbound ++ [envelope] })
  | [] => (.ok (), { stream with outbound := stream.outbound ++ [envelope] })

variable (stream : Stream)

/-- Writing does not touch what will be read. -/
@[simp] theorem inbound_writeEnvelope (envelope : Envelope) :
    (writeEnvelope stream envelope).2.inbound = stream.inbound := by
  unfold writeEnvelope
  split <;> rfl

@[simp] theorem inbound_readEnvelope : (readEnvelope stream).2.inbound = stream.inbound.tail := by
  unfold readEnvelope
  split
  · next empty => simp [empty]
  · next result rest script => simp [script]

/-- Reading does not touch the writes to come. -/
@[simp] theorem faults_readEnvelope : (readEnvelope stream).2.faults = stream.faults := by
  unfold readEnvelope
  split <;> rfl

@[simp] theorem faults_writeEnvelope (envelope : Envelope) :
    (writeEnvelope stream envelope).2.faults = stream.faults.tail := by
  unfold writeEnvelope
  split
  · next script => simp [script]
  · next script => simp [script]
  · next empty => simp [empty]

theorem readEnvelope_fst :
    (readEnvelope stream).1 = stream.inbound.headD (.error .unexpectedEof) := by
  unfold readEnvelope
  split
  · next empty => simp [empty]
  · next result rest script => simp [script]

/-- A write succeeds unless its fault is scripted. -/
theorem writeEnvelope_fst_eq_ok (envelope : Envelope) :
    (writeEnvelope stream envelope).1 = .ok () ↔ stream.faults.headD none = none := by
  unfold writeEnvelope
  split
  · next kind rest script => simp [script]
  · next rest script => simp [script]
  · next empty => simp [empty]

end Cosaci.Protocol
