import Cosaci.Jobs.Execute
import Cosaci.Protocol.Envelope

/-!
# The agent

The main loop of the agent binary after registration: a job seed is answered with a
VRF claim, an assignment with a signed attestation of the executed pipeline.  The
loop ends at a shutdown, at the first failing read or write, and at the first
pipeline that cannot be executed.
-/

namespace Cosaci.Agent

open Foundation Cosaci.Core Protocol Jobs

/-- A VRF keypair.  The output depends on the input only, the proof also on fresh
randomness. -/
structure VrfKeypair where
  publicKey : Bytes 32
  output : List UInt8 → Bytes 32
  proof : Bytes 32 → List UInt8 → Bytes 64

/-- The identity of a running agent. -/
structure Runner where
  runnerId : RunnerId
  signing : Keypair
  vrf : VrfKeypair

/-- What the outside world supplies to one turn of the loop. -/
structure Turn where
  received : Except IoErrorKind Envelope
  world : World
  entropy : Bytes 32
  writeFault : Option IoErrorKind

/-- What one turn of the loop comes to. -/
inductive Reaction where
  | reply (envelope : Envelope)
  | ignore
  | stop
  deriving DecidableEq

/-- The job number in the first half of a UUID. -/
def u64ToUuid (id : UInt64) : Bytes 16 :=
  ofBytes (littleEndian 8 id.toNat ++ List.replicate 8 0) (by simp)

namespace Runner

/-- The attestation of an executed pipeline.  Its result does not depend on the
statuses of the steps. -/
def attest (agent : Runner) (jobId : UInt64) (deadlineUnixNs : Int64)
    (result : PipelineResult) : Attestation :=
  ({ version := Attestation.currentVersion
     jobId := u64ToUuid jobId
     commit := List.Vector.replicate 32 0x42
     runnerId := agent.runnerId
     result := .pass
     environmentHash := List.Vector.replicate 32 0xee
     artifactHash := result.finalArtifactHash
     timestampUnixNs := deadlineUnixNs
     signature := List.Vector.replicate 64 0 } : Attestation).signWith agent.signing

/-- One turn of the loop, up to writing the reply. -/
def react (crypto : Crypto) (agent : Runner) (turn : Turn) : Reaction :=
  match turn.received with
  | .error _ => .stop
  | .ok (.jobSeed jobId seed) =>
      .reply (.vrfClaim jobId (agent.vrf.output seed.toList)
        (agent.vrf.proof turn.entropy seed.toList))
  | .ok (.assign jobId pipeline _ deadlineUnixNs) =>
      match executePipeline crypto turn.world pipeline with
      | .error _ => .stop
      | .ok result =>
          .reply (.submitAttestation ⟨agent.attest jobId deadlineUnixNs result, result.captures⟩)
  | .ok .shutdown => .stop
  | .ok _ => .ignore

/-- The messages that the loop writes during a sequence of turns. -/
def mainLoop (crypto : Crypto) (agent : Runner) : List Turn → List Envelope
  | [] => []
  | turn :: rest =>
      match agent.react crypto turn, turn.writeFault with
      | .reply envelope, none => envelope :: mainLoop crypto agent rest
      | .reply _, some _ => []
      | .ignore, _ => mainLoop crypto agent rest
      | .stop, _ => []

/-- A message written by the loop is the reply of one of its turns. -/
theorem exists_turn_of_mem_mainLoop {crypto : Crypto} {agent : Runner} {turns : List Turn}
    {envelope : Envelope} (written : envelope ∈ agent.mainLoop crypto turns) :
    ∃ turn ∈ turns, agent.react crypto turn = .reply envelope := by
  induction turns with
  | nil => cases written
  | cons turn rest ih =>
      rw [mainLoop] at written
      split at written
      · next reply reacted noFault =>
          rcases List.mem_cons.mp written with rfl | later
          · exact ⟨turn, List.mem_cons_self, reacted⟩
          · rcases ih later with ⟨other, member, replied⟩
            exact ⟨other, List.mem_cons_of_mem _ member, replied⟩
      · cases written
      · rcases ih written with ⟨other, member, replied⟩
        exact ⟨other, List.mem_cons_of_mem _ member, replied⟩
      · cases written

/-- The loop submits an attestation only for an assignment whose pipeline it
executed. -/
theorem react_eq_submit {crypto : Crypto} {agent : Runner} {turn : Turn}
    {bundle : AttestationBundle}
    (replied : agent.react crypto turn = .reply (.submitAttestation bundle)) :
    ∃ jobId pipeline requirements deadlineUnixNs result,
      turn.received = .ok (.assign jobId pipeline requirements deadlineUnixNs) ∧
      executePipeline crypto turn.world pipeline = .ok result ∧
      bundle = ⟨agent.attest jobId deadlineUnixNs result, result.captures⟩ := by
  rw [react] at replied
  cases received : turn.received with
  | error kind =>
      rw [received] at replied
      cases replied
  | ok envelope =>
      rw [received] at replied
      cases envelope with
      | assign jobId pipeline requirements deadlineUnixNs =>
          cases executed : executePipeline crypto turn.world pipeline with
          | error error =>
              simp only [executed] at replied
              cases replied
          | ok result =>
              simp only [executed] at replied
              refine ⟨jobId, pipeline, requirements, deadlineUnixNs, result, rfl, executed, ?_⟩
              exact (Envelope.submitAttestation.inj (Reaction.reply.inj replied)).symm
      | _ => cases replied

end Runner

end Cosaci.Agent
