import Cosaci.Agent.SubmissionSize
import Cosaci.Jobs.Divergence

/-!
# How the agent leaves its loop

The main loop once more, with the cap on frames, with steps that never return, and with
the reason for which the loop ends.  A shutdown and a failing stream are orderly ends.  Two
more are not: an error of the WASM runtime is propagated out of the loop, and so is the
refusal to send an attestation whose encoding is too large.  The agent answers every
request exactly when the outside world answers every step of the pipelines it gets to and
their attestations fit into frames.
-/

namespace Cosaci.Agent

open Foundation Cosaci.Core Protocol Jobs

/-- Why the loop ended. -/
inductive Exit where
  | shutdown
  | streamClosed (kind : IoErrorKind)
  | writeFailed (kind : IoErrorKind)
  | pipelineFailed (error : PipelineError)
  | oversized (bytes : Nat)
  deriving DecidableEq

/-- A turn in which a step may never return. -/
structure OpenTurn extends Turn where
  returns : Nat → Bool

/-- The outside world during the turn. -/
def OpenTurn.openWorld (turn : OpenTurn) : OpenWorld :=
  ⟨turn.world, turn.returns⟩

/-- Send a reply with the given encoding. -/
def send (turn : OpenTurn) (reply : Envelope) (bytes : List UInt8) :
    Except Exit (Option Envelope) :=
  if maxEnvelopeBytes < bytes.length then
    .error (.oversized bytes.length)
  else
    match turn.writeFault with
    | some kind => .error (.writeFailed kind)
    | none => .ok (some reply)

namespace Runner

/-- One turn of the loop, if it comes to an end: the reply it sends, if any, or the reason to
leave. -/
def takeTurn (crypto : Crypto) (agent : Runner) (turn : OpenTurn) :
    Option (Except Exit (Option Envelope)) :=
  match turn.received with
  | .error kind => some (.error (.streamClosed kind))
  | .ok (.jobSeed jobId seed) =>
      let output := agent.vrf.output seed.toList
      let proof := agent.vrf.proof turn.entropy seed.toList
      some (send turn (.vrfClaim jobId output proof) (vrfClaimBytes jobId output proof))
  | .ok (.assign jobId pipeline _ deadlineUnixNs) =>
      (executePipelineIn crypto turn.openWorld pipeline).map fun
        | .error error => .error (.pipelineFailed error)
        | .ok result =>
            let submitted := agent.bundle jobId deadlineUnixNs result
            send turn (.submitAttestation submitted) (submitAttestationBytes submitted)
  | .ok .shutdown => some (.error .shutdown)
  | .ok _ => some (.ok none)

end Runner

/-- The replies of the completed turns and the reason for which the loop ended, if it did. -/
structure Service where
  replies : List (Option Envelope)
  exit : Option Exit

/-- The loop over a sequence of turns; it stays in a turn that does not come to an end. -/
def Runner.serve (crypto : Crypto) (agent : Runner) : List OpenTurn → Service
  | [] => ⟨[], none⟩
  | turn :: rest =>
      match agent.takeTurn crypto turn with
      | none => ⟨[], none⟩
      | some (.error exit) => ⟨[], some exit⟩
      | some (.ok reply) =>
          let later := agent.serve crypto rest
          ⟨reply :: later.replies, later.exit⟩

/-! ## What the agent owes -/

/-- The reply that a received message calls for. -/
def Answers : Except IoErrorKind Envelope → Option Envelope → Prop
  | .ok (.jobSeed jobId _), some (.vrfClaim claimed _ _) => claimed = jobId
  | .ok (.assign jobId _ _ _), some (.submitAttestation bundle) =>
      bundle.attestation.jobId = u64ToUuid jobId
  | .ok (.register ..), none => True
  | .ok (.vrfClaim ..), none => True
  | .ok (.submitAttestation _), none => True
  | .ok .registerAck, none => True
  | .ok .other, none => True
  | _, _ => False

/-- The loop may end in this way at this turn. -/
def LeavesAt (turn : OpenTurn) : Exit → Prop
  | .shutdown => turn.received = .ok .shutdown
  | .streamClosed kind => turn.received = .error kind
  | .writeFailed kind => turn.writeFault = some kind
  | .pipelineFailed _ => False
  | .oversized _ => False

/-- Every message up to the end of the loop gets the reply it calls for, in order,
and the loop ends only at a shutdown or when the stream fails. -/
structure Total (crypto : Crypto) (agent : Runner) (turns : List OpenTurn) : Prop where
  answered : List.Forall₂ (fun turn reply => Answers turn.received reply)
    (turns.take (agent.serve crypto turns).replies.length) (agent.serve crypto turns).replies
  finished : (agent.serve crypto turns).exit = none →
    (agent.serve crypto turns).replies.length = turns.length
  left : ∀ exit, (agent.serve crypto turns).exit = some exit →
    ∃ turn, turns[(agent.serve crypto turns).replies.length]? = some turn ∧
      LeavesAt turn exit

/-- The outside world answers every step of an assigned pipeline, and the attestation of what
it answers fits into a frame together with the captured streams. -/
def Manageable (crypto : Crypto) (agent : Runner) (turn : OpenTurn) : Prop :=
  ∀ jobId pipeline requirements deadlineUnixNs,
    turn.received = .ok (.assign jobId pipeline requirements deadlineUnixNs) →
    (∀ (position : Nat) (step : Step), pipeline.steps[position]? = some step →
        step.Answered turn.openWorld position) ∧
      32 + (agent.attest jobId deadlineUnixNs
          (pipeline.outcome crypto turn.world)).canonicalize.length +
        capturesSize (pipeline.captured crypto turn.world) ≤ maxEnvelopeBytes

/-- A message at which the loop may end, or a reply that cannot be written. -/
def OpenTurn.last (turn : OpenTurn) : Bool :=
  match turn.received with
  | .error _ => true
  | .ok .shutdown => true
  | .ok (.jobSeed _ _) => turn.writeFault.isSome
  | .ok (.assign _ _ _ _) => turn.writeFault.isSome
  | .ok _ => false

/-- The turns up to the last one. -/
def reached : List OpenTurn → List OpenTurn
  | [] => []
  | turn :: rest => if turn.last then [turn] else turn :: reached rest

/-! ## One turn -/

variable {crypto : Crypto} {agent : Runner} {turn : OpenTurn}

variable {bytes : List UInt8} {reply : Option Envelope} {sent : Envelope} {exit : Exit}

variable {jobId : UInt64} {pipeline : Pipeline} {requirements : JobRequirements}
  {deadlineUnixNs : Int64}

theorem takeTurn_jobSeed {seed : List.Vector UInt8 32}
    (received : turn.received = .ok (.jobSeed jobId seed)) :
    agent.takeTurn crypto turn =
      some (send turn (.vrfClaim jobId (agent.vrf.output seed.toList)
          (agent.vrf.proof turn.entropy seed.toList))
        (vrfClaimBytes jobId (agent.vrf.output seed.toList)
          (agent.vrf.proof turn.entropy seed.toList))) := by
  rw [Runner.takeTurn, received]

/-- A pipeline that gets to its end is attested. -/
theorem takeTurn_assign {result : PipelineResult}
    (received : turn.received = .ok (.assign jobId pipeline requirements deadlineUnixNs))
    (executed : executePipelineIn crypto turn.openWorld pipeline = some (.ok result)) :
    agent.takeTurn crypto turn =
      some (send turn (.submitAttestation (agent.bundle jobId deadlineUnixNs result))
        (submitAttestationBytes (agent.bundle jobId deadlineUnixNs result))) := by
  simp only [Runner.takeTurn, received, executed, Option.map_some]

theorem send_eq_ok_iff :
    send turn sent bytes = .ok reply ↔
      bytes.length ≤ maxEnvelopeBytes ∧ turn.writeFault = none ∧ reply = some sent := by
  unfold send
  split
  · next large => simp [large]
  · next small =>
      rw [not_lt] at small
      cases turn.writeFault with
      | some kind => simp
      | none => simp [small, eq_comm]

/-- A frame that is not too large fails only with the stream. -/
theorem leavesAt_of_send_eq_error (failed : send turn sent bytes = .error exit) :
    LeavesAt turn exit ↔ bytes.length ≤ maxEnvelopeBytes ∧ turn.writeFault.isSome := by
  unfold send at failed
  split at failed
  · next large =>
      cases failed
      simp [LeavesAt, large]
  · next small =>
      rw [not_lt] at small
      cases fault : turn.writeFault with
      | some kind =>
          rw [fault] at failed
          cases failed
          simp [LeavesAt, fault, small]
      | none =>
          rw [fault] at failed
          cases failed

/-- The turn comes to an end, and either replies as it should or ends the loop properly. -/
def Proper (turn : OpenTurn) : Option (Except Exit (Option Envelope)) → Prop
  | none => False
  | some (.error exit) => LeavesAt turn exit
  | some (.ok reply) => Answers turn.received reply

/-- The last turn is told by its message and its write fault. -/
def Marked (turn : OpenTurn) : Option (Except Exit (Option Envelope)) → Prop
  | none => True
  | some (.error exit) => LeavesAt turn exit → turn.last = true
  | some (.ok _) => turn.last = false

theorem marked_of_send (taken : agent.takeTurn crypto turn = some (send turn sent bytes))
    (asked : turn.last = turn.writeFault.isSome) : Marked turn (agent.takeTurn crypto turn) := by
  rw [taken]
  cases sending : send turn sent bytes with
  | error exit =>
      intro leaves
      rw [asked]
      exact ((leavesAt_of_send_eq_error sending).mp leaves).2
  | ok reply =>
      rw [Marked, asked, (send_eq_ok_iff.mp sending).2.1]
      rfl

theorem marked_takeTurn (crypto : Crypto) (agent : Runner) (turn : OpenTurn) :
    Marked turn (agent.takeTurn crypto turn) := by
  cases received : turn.received with
  | error kind => simp [Runner.takeTurn, received, Marked, OpenTurn.last]
  | ok envelope =>
      cases envelope with
      | assign jobId pipeline requirements deadlineUnixNs =>
          cases executed : executePipelineIn crypto turn.openWorld pipeline with
          | none => simp [Runner.takeTurn, received, executed, Marked]
          | some finished =>
              cases finished with
              | error error => simp [Runner.takeTurn, received, executed, Marked, LeavesAt]
              | ok result =>
                  exact marked_of_send (takeTurn_assign received executed)
                    (by rw [OpenTurn.last, received])
      | jobSeed jobId seed =>
          exact marked_of_send (takeTurn_jobSeed received) (by rw [OpenTurn.last, received])
      | _ => simp [Runner.takeTurn, received, Marked, OpenTurn.last]

theorem manageable_of_ne_assign
    (other : ∀ jobId pipeline requirements deadlineUnixNs,
      turn.received ≠ .ok (.assign jobId pipeline requirements deadlineUnixNs)) :
    Manageable crypto agent turn := by
  intro jobId pipeline requirements deadlineUnixNs received
  exact absurd received (other _ _ _ _)

/-- A reply that fits into its frame is sent, or the stream fails. -/
theorem proper_of_send_iff (taken : agent.takeTurn crypto turn = some (send turn sent bytes))
    (called : Answers turn.received (some sent)) :
    Proper turn (agent.takeTurn crypto turn) ↔ bytes.length ≤ maxEnvelopeBytes := by
  rw [taken]
  cases sending : send turn sent bytes with
  | error exit =>
      rw [Proper, leavesAt_of_send_eq_error sending]
      refine and_iff_left_of_imp fun fits => ?_
      unfold send at sending
      rw [if_neg (Nat.not_lt.mpr fits)] at sending
      cases fault : turn.writeFault with
      | some kind => rfl
      | none => simp [fault] at sending
  | ok reply =>
      obtain ⟨fits, unfailing, rfl⟩ := send_eq_ok_iff.mp sending
      exact iff_of_true called fits

/-- A pipeline that does not get to its end is not attested. -/
theorem proper_assign_iff
    (received : turn.received = .ok (.assign jobId pipeline requirements deadlineUnixNs)) :
    Proper turn (agent.takeTurn crypto turn) ↔ Manageable crypto agent turn := by
  have manageable : Manageable crypto agent turn ↔
      (∃ result, executePipelineIn crypto turn.openWorld pipeline = some (.ok result)) ∧
        32 + (agent.attest jobId deadlineUnixNs
            (pipeline.outcome crypto turn.world)).canonicalize.length +
          capturesSize (pipeline.captured crypto turn.world) ≤ maxEnvelopeBytes := by
    rw [exists_executePipelineIn_iff]
    constructor
    · intro manageable
      exact manageable _ _ _ _ received
    · intro fits _ _ _ _ same
      rw [received] at same
      cases same
      exact fits
  rw [manageable]
  cases executed : executePipelineIn crypto turn.openWorld pipeline with
  | none => simp [Runner.takeTurn, received, executed, Proper]
  | some finished =>
      cases finished with
      | error error => simp [Runner.takeTurn, received, executed, Proper, LeavesAt]
      | ok result =>
          have outcome := executePipeline_eq_outcome (executePipeline_of_executePipelineIn executed)
          have called : Answers turn.received
              (some (.submitAttestation (agent.bundle jobId deadlineUnixNs result))) := by
            rw [received]
            rfl
          rw [proper_of_send_iff (takeTurn_assign received executed) called,
            length_submitAttestationBytes, outcome]
          exact (and_iff_right ⟨_, rfl⟩).symm

/-- A turn comes out as it should exactly when it is manageable. -/
theorem proper_takeTurn_iff :
    Proper turn (agent.takeTurn crypto turn) ↔ Manageable crypto agent turn := by
  cases received : turn.received with
  | error kind =>
      refine iff_of_true ?_ (manageable_of_ne_assign (by simp [received]))
      simp [Runner.takeTurn, received, Proper, LeavesAt]
  | ok envelope =>
      cases envelope with
      | assign jobId pipeline requirements deadlineUnixNs => exact proper_assign_iff received
      | jobSeed jobId seed =>
          refine iff_of_true ?_ (manageable_of_ne_assign (by simp [received]))
          refine (proper_of_send_iff (takeTurn_jobSeed received) ?_).mpr
            (length_vrfClaimBytes_le _ _ _)
          rw [received]
          rfl
      | shutdown =>
          refine iff_of_true ?_ (manageable_of_ne_assign (by simp [received]))
          simp [Runner.takeTurn, received, Proper, LeavesAt]
      | _ =>
          -- the other messages are ignored
          refine iff_of_true ?_ (manageable_of_ne_assign (by simp [received]))
          rw [Runner.takeTurn, received, Proper, received]
          trivial

/-! ## The cap as a write fault

The loop without the cap writes the same messages when a frame that is too large, or a step
that never returns, counts as a failing write.
-/

/-- The turn with what keeps it from replying as its write fault. -/
def framed (crypto : Crypto) (agent : Runner) (turn : OpenTurn) : Turn :=
  match agent.takeTurn crypto turn with
  | none => { turn.toTurn with writeFault := some .invalidData }
  | some (.error (.oversized _)) => { turn.toTurn with writeFault := some .invalidData }
  | _ => turn.toTurn

theorem react_framed (crypto : Crypto) (agent : Runner) (turn : OpenTurn) :
    agent.react crypto (framed crypto agent turn) = agent.react crypto turn.toTurn := by
  unfold framed
  split <;> rfl

/-- A reply is either written, or the framed turn has a write fault. -/
theorem framed_of_send (same : agent.takeTurn crypto turn = some (send turn sent bytes)) :
    (agent.takeTurn crypto turn = some (.ok (some sent)) ∧
        (framed crypto agent turn).writeFault = none) ∨
      ∃ exit kind, agent.takeTurn crypto turn = some (.error exit) ∧
        (framed crypto agent turn).writeFault = some kind := by
  unfold framed
  rw [same, send]
  by_cases large : maxEnvelopeBytes < bytes.length
  · simp [large]
  · cases fault : turn.writeFault with
    | none => simp [large, fault]
    | some kind => simp [large, fault]

/-- The loop of `mainLoop`, one turn at a time. -/
theorem mainLoop_framed_cons (crypto : Crypto) (agent : Runner) (turn : OpenTurn)
    (rest : List Turn) :
    agent.mainLoop crypto (framed crypto agent turn :: rest) =
      match agent.takeTurn crypto turn with
      | some (.ok reply) => reply.toList ++ agent.mainLoop crypto rest
      | _ => [] := by
  rw [Runner.mainLoop, react_framed, Runner.react]
  cases received : turn.received with
  | error kind => simp [Runner.takeTurn, received]
  | ok envelope =>
      cases envelope with
      | jobSeed jobId seed =>
          rcases @framed_of_send crypto agent _ _ _ (takeTurn_jobSeed received) with
            ⟨taken, fault⟩ | ⟨_, _, taken, fault⟩
          · simp [taken, fault]
          · simp [taken, fault]
      | assign jobId pipeline requirements deadlineUnixNs =>
          cases done : executePipelineIn crypto turn.openWorld pipeline with
          | none =>
              have stuck : agent.takeTurn crypto turn = none := by
                simp [Runner.takeTurn, received, done]
              have fault : (framed crypto agent turn).writeFault = some .invalidData := by
                rw [framed, stuck]
              simp only [stuck, fault]
              cases executePipeline crypto turn.world pipeline <;> rfl
          | some executed =>
              have same : executePipeline crypto turn.world pipeline = executed :=
                executePipeline_of_executePipelineIn done
              cases executed with
              | error error => simp [Runner.takeTurn, received, done, same]
              | ok result =>
                  rcases @framed_of_send crypto agent _ _ _ (takeTurn_assign received done) with
                    ⟨taken, fault⟩ | ⟨_, _, taken, fault⟩
                  · simp [taken, fault, same, Runner.bundle]
                  · simp [taken, fault, same]
      | _ => simp [Runner.takeTurn, received]

/-! ## Whole runs -/

theorem serve_cons_ok (taken : agent.takeTurn crypto turn = some (.ok reply))
    (rest : List OpenTurn) :
    agent.serve crypto (turn :: rest) =
      ⟨reply :: (agent.serve crypto rest).replies, (agent.serve crypto rest).exit⟩ := by
  rw [Runner.serve, taken]

theorem serve_cons_error (failed : agent.takeTurn crypto turn = some (.error exit))
    (rest : List OpenTurn) : agent.serve crypto (turn :: rest) = ⟨[], some exit⟩ := by
  rw [Runner.serve, failed]

theorem serve_cons_none (stuck : agent.takeTurn crypto turn = none) (rest : List OpenTurn) :
    agent.serve crypto (turn :: rest) = ⟨[], none⟩ := by
  rw [Runner.serve, stuck]

/-- With the cap and the endless steps as write faults, `mainLoop` writes the replies of
`serve`. -/
theorem mainLoop_map_framed (crypto : Crypto) (agent : Runner) (turns : List OpenTurn) :
    agent.mainLoop crypto (turns.map (framed crypto agent)) =
      (agent.serve crypto turns).replies.flatMap Option.toList := by
  induction turns with
  | nil => rfl
  | cons turn rest ih =>
      rw [List.map_cons, mainLoop_framed_cons, ih]
      cases taken : agent.takeTurn crypto turn with
      | none => simp [serve_cons_none taken]
      | some outcome =>
          cases outcome with
          | error exit => simp [serve_cons_error taken]
          | ok reply => simp [serve_cons_ok taken]

theorem total_cons_ok (taken : agent.takeTurn crypto turn = some (.ok reply))
    (rest : List OpenTurn) :
    Total crypto agent (turn :: rest) ↔
      Answers turn.received reply ∧ Total crypto agent rest := by
  have served := serve_cons_ok taken rest
  constructor
  · rintro ⟨answered, finished, left⟩
    rw [served] at answered finished left
    obtain ⟨now, later⟩ := List.forall₂_cons.mp answered
    refine ⟨now, later, ?_, left⟩
    intro stays
    exact Nat.succ.inj (finished stays)
  · rintro ⟨now, answered, finished, left⟩
    constructor
    · rw [served]
      exact .cons now answered
    · rw [served]
      intro stays
      exact congrArg Nat.succ (finished stays)
    · rw [served]
      exact left

theorem total_cons_error (failed : agent.takeTurn crypto turn = some (.error exit))
    (rest : List OpenTurn) : Total crypto agent (turn :: rest) ↔ LeavesAt turn exit := by
  have served := serve_cons_error failed rest
  constructor
  · rintro ⟨_, _, left⟩
    rw [served] at left
    rcases left exit rfl with ⟨_, here, leaves⟩
    cases here
    exact leaves
  · intro leaves
    constructor
    · rw [served]
      exact .nil
    · rw [served]
      intro stays
      cases stays
    · rw [served]
      intro reason same
      cases same
      exact ⟨turn, rfl, leaves⟩

/-- A turn without an end is never answered. -/
theorem not_total_cons_none (stuck : agent.takeTurn crypto turn = none) (rest : List OpenTurn) :
    ¬Total crypto agent (turn :: rest) := by
  rintro ⟨-, finished, -⟩
  rw [serve_cons_none stuck] at finished
  cases finished rfl

/-- For every sequence of messages, pipelines and answers of the outside world: the agent
answers each request once and in order and leaves its loop only at a shutdown or when its
stream fails, if and only if every turn up to that end is manageable. -/
theorem total_iff_manageable (crypto : Crypto) (agent : Runner) (turns : List OpenTurn) :
    Total crypto agent turns ↔ ∀ turn ∈ reached turns, Manageable crypto agent turn := by
  induction turns with
  | nil =>
      refine iff_of_true ⟨.nil, fun _ => rfl, ?_⟩ nofun
      intro exit left
      cases left
  | cons turn rest ih =>
      have proper := @proper_takeTurn_iff crypto agent turn
      have marked := marked_takeTurn crypto agent turn
      have here : turn ∈ reached (turn :: rest) := by
        rw [reached]
        split <;> exact List.mem_cons_self
      cases taken : agent.takeTurn crypto turn with
      | none =>
          rw [taken] at proper
          exact iff_of_false (not_total_cons_none taken rest) fun all => proper.mpr (all turn here)
      | some outcome =>
          rw [taken] at proper marked
          cases outcome with
          | error exit =>
              rw [total_cons_error taken]
              refine ⟨fun leaves => ?_, fun all => proper.mpr (all turn here)⟩
              rw [reached, if_pos (marked leaves)]
              intro other only
              rw [List.mem_singleton.mp only]
              exact proper.mp leaves
          | ok reply =>
              rw [Marked] at marked
              rw [total_cons_ok taken, ih, reached, if_neg (by simp [marked]), List.forall_mem_cons]
              exact and_congr_left' proper

/-- A host whose WASM runtime rejects every module. -/
def rejectingWorld : World where
  sourceFetch _ _ _ := .error .gitNotFound
  execWasm _ _ _ _ := .error "failed to parse WebAssembly module"
  execNative _ _ _ _ := .spawnFailed 0

/-- A message to an agent on that host. -/
def rejectedTurn (message : Envelope) : OpenTurn :=
  ⟨⟨.ok message, rejectingWorld, List.Vector.replicate 32 0, none⟩, fun _ => true⟩

/-- An assignment of a pipeline whose module is empty, then the seed of another job. -/
def brokenModuleTurns : List OpenTurn :=
  [rejectedTurn (.assign 1 ⟨[.execWasm [] [] ⟨1, 1, 1, ⟨[], .deny⟩⟩]⟩
      ⟨1, 1, .linuxX86_64, ∅⟩ 0),
    rejectedTurn (.jobSeed 2 (List.Vector.replicate 32 0))]

/-- The assignment is not answered and the agent is gone before the next seed. -/
theorem brokenModule_ends_loop :
    (loneRunner.serve modelCrypto brokenModuleTurns).replies = [] ∧
      (loneRunner.serve modelCrypto brokenModuleTurns).exit =
        some (.pipelineFailed (.wasmRuntime 0 "failed to parse WebAssembly module")) ∧
      ¬Total modelCrypto loneRunner brokenModuleTurns := by
  refine ⟨rfl, rfl, ?_⟩
  intro total
  rcases total.left _ rfl with ⟨_, _, leaves⟩
  exact leaves

end Cosaci.Agent
