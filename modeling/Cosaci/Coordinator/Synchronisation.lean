import Cosaci.Coordinator.Channels
import Cosaci.Coordinator.HonestCommittee
import Cosaci.Foundation.Fifo

/-!
# Whose reply is read

The coordinator writes a request and later reads one message from the same connection;
nothing in the message's framing ties it to the request.  A reply that was not read in
its own job, because the read timed out or the job ended early, is read by a later one.
The streams are first-in first-out channels; an honest agent is one that answers the
requests it got in order.
-/

namespace Cosaci.Coordinator

open Foundation Cosaci.Core State Protocol
open Agent (u64ToUuid Runner Turn)

/-! ## Honest agents -/

/-- What an honest agent replies to a request: a verifiable claim of the job to its
seed, an attestation of the job to its assignment. -/
inductive HonestReply (verifiers : Verifiers) (agent : RegisteredAgent) :
    Envelope → Envelope → Prop where
  | claim {jobId : UInt64} {seed output : Bytes 32} {proof : Bytes 64}
      (verified : verifiers.vrf agent.vrfPk seed.toList output proof = true) :
      HonestReply verifiers agent (.jobSeed jobId seed) (.vrfClaim jobId output proof)
  | attestation {jobId : UInt64} {pipeline : Jobs.Pipeline} {requirements : JobRequirements}
      {deadlineUnixNs : Int64} {bundle : AttestationBundle}
      (named : bundle.attestation.jobId = u64ToUuid jobId) :
      HonestReply verifiers agent (.assign jobId pipeline requirements deadlineUnixNs)
        (.submitAttestation bundle)

/-- The agent binary replies honestly when its VRF proofs verify under the key that it
registered. -/
theorem honestReply_of_react {verifiers : Verifiers} {agent : RegisteredAgent}
    {runner : Runner} (turn : Turn) {request reply : Envelope}
    (provable : ∀ entropy input, verifiers.vrf agent.vrfPk input (runner.vrf.output input)
      (runner.vrf.proof entropy input) = true)
    (received : turn.received = .ok request)
    (replied : runner.react verifiers.crypto turn = .reply reply) :
    HonestReply verifiers agent request reply := by
  unfold Runner.react at replied
  rw [received] at replied
  cases request with
  | jobSeed jobId seed =>
      cases replied
      exact .claim (provable _ _)
  | assign jobId pipeline requirements deadlineUnixNs =>
      cases executed : Jobs.executePipeline verifiers.crypto turn.world pipeline with
      | error error =>
          simp only [executed] at replied
          cases replied
      | ok result =>
          simp only [executed] at replied
          cases replied
          exact .attestation rfl
  | _ => cases replied

/-- At every point between two jobs of the run, the messages read so far from the
connection answer the requests written to it in order. -/
def HonestRun (verifiers : Verifiers) (order : IterationOrder Hash UInt32)
    (start : CoordinatorState) (jobs : List JobCall) (index : Nat)
    (agent : RegisteredAgent) : Prop :=
  ∀ earlier later, jobs = earlier ++ later →
    InOrder (HonestReply verifiers agent) (requestsTo verifiers order start earlier index)
      (repliesFrom verifiers order start earlier index)

/-- The message is the agent's own verifiable claim for the job. -/
def OwnClaim (verifiers : Verifiers) (job : JobCall) (agent : RegisteredAgent)
    (reply : Envelope) : Prop :=
  ∃ output proof, reply = .vrfClaim job.jobId output proof ∧
    verifiers.vrf agent.vrfPk (jobSeedBytes job.jobId).toList output proof = true

/-- In the VRF round of every job, a message read from the connection is the claim for
that job. -/
def Synchronised (verifiers : Verifiers) (order : IterationOrder Hash UInt32)
    (start : CoordinatorState) (jobs : List JobCall) (index : Nat)
    (agent : RegisteredAgent) : Prop :=
  ∀ earlier job later, jobs = earlier ++ job :: later →
    ∀ reply, (vrfReads job.jobId
        (runJobs verifiers order start earlier).agents)[index]? = some (.ok reply) →
      OwnClaim verifiers job agent reply

/-- Whenever the VRF round of a job reads a message from the connection, every earlier
job had read the replies to its own requests. -/
def SettledBefore (verifiers : Verifiers) (order : IterationOrder Hash UInt32)
    (start : CoordinatorState) (jobs : List JobCall) (index : Nat) : Prop :=
  ∀ earlier job later, jobs = earlier ++ job :: later →
    ∀ reply, (vrfReads job.jobId
        (runJobs verifiers order start earlier).agents)[index]? = some (.ok reply) →
      ∀ before past after, earlier = before ++ past :: after →
        Settles verifiers order (runJobs verifiers order start before) past index

/-- The agent has a claim in every job that gets to choose a committee. -/
def NeverExcluded (verifiers : Verifiers) (order : IterationOrder Hash UInt32)
    (start : CoordinatorState) (jobs : List JobCall) (index : Nat) : Prop :=
  ∀ earlier job later, jobs = earlier ++ job :: later →
    (convene verifiers job
      (runJobs verifiers order start earlier).agents).1.committee?.isSome →
    ∃ now claim, (runJobs verifiers order start earlier).agents[index]? = some now ∧
      claimResult verifiers job.jobId now = .ok (some claim)

section Synchronisation

variable {verifiers : Verifiers} {order : IterationOrder Hash UInt32}
  {start : CoordinatorState} {earlier : List JobCall} {job : JobCall} {index : Nat}
  {agent : RegisteredAgent} {reply : Envelope}

/-- The order of the replies once the VRF round has read one. -/
theorem inOrder_of_vrfReads (here : start.agents[index]? = some agent)
    (honest : HonestRun verifiers order start (earlier ++ [job]) index agent)
    (reads : (vrfReads job.jobId (runJobs verifiers order start earlier).agents)[index]? =
      some (.ok reply)) :
    ∃ more later, InOrder (HonestReply verifiers agent)
      (requestsTo verifiers order start earlier index ++ job.seedRequest :: more)
      (repliesFrom verifiers order start earlier index ++ reply :: later) := by
  rcases exchanged_runJobs verifiers order here earlier with ⟨now, there, -⟩
  rcases traffic_job verifiers order there job with ⟨_, -, first⟩
  rcases first reply reads with ⟨more, later, asked, heard⟩
  have ordered := honest (earlier ++ [job]) [] (List.append_nil _).symm
  rw [(requestsTo_append here earlier [job]).1, (requestsTo_append here earlier [job]).2,
    asked, heard] at ordered
  exact ⟨more, later, ordered⟩

/-- With nothing outstanding, the VRF round reads the claim. -/
theorem ownClaim_of_settled (here : start.agents[index]? = some agent)
    (honest : HonestRun verifiers order start (earlier ++ [job]) index agent)
    (reads : (vrfReads job.jobId (runJobs verifiers order start earlier).agents)[index]? =
      some (.ok reply))
    (settled : (repliesFrom verifiers order start earlier index).length =
      (requestsTo verifiers order start earlier index).length) :
    OwnClaim verifiers job agent reply := by
  rcases inOrder_of_vrfReads here honest reads with ⟨more, later, ordered⟩
  have answered := ordered.next_of_settled settled
  cases answered with
  | claim verified => exact ⟨_, _, rfl, verified⟩

theorem HonestReply.jobId_eq {past jobId : UInt64} {seed output : Bytes 32}
    {proof : Bytes 64}
    (answered : HonestReply verifiers agent (.jobSeed past seed)
      (.vrfClaim jobId output proof)) : past = jobId := by
  cases answered
  rfl

/-- The claim of a job answers no request of a job with another number. -/
theorem jobId_of_honestReply {past : JobCall} {request : Envelope}
    (asked : request = past.seedRequest ∨ request = past.assignRequest)
    (answered : HonestReply verifiers agent request reply)
    (own : OwnClaim verifiers job agent reply) : past.jobId = job.jobId := by
  rcases own with ⟨output, proof, rfl, -⟩
  rcases asked with rfl | rfl
  · exact answered.jobId_eq
  · cases answered

/-- With distinct job numbers, the VRF round reads the claim only if nothing is
outstanding. -/
theorem settled_of_ownClaim (here : start.agents[index]? = some agent)
    (honest : HonestRun verifiers order start (earlier ++ [job]) index agent)
    (reads : (vrfReads job.jobId (runJobs verifiers order start earlier).agents)[index]? =
      some (.ok reply))
    (fresh : ∀ past ∈ earlier, past.jobId ≠ job.jobId)
    (own : OwnClaim verifiers job agent reply) :
    (repliesFrom verifiers order start earlier index).length =
      (requestsTo verifiers order start earlier index).length := by
  rcases inOrder_of_vrfReads here honest reads with ⟨more, later, ordered⟩
  by_contra outstanding
  have fewer := lt_of_le_of_ne (answered_runJobs verifiers order here earlier) outstanding
  rcases ordered.next_of_outstanding fewer with ⟨request, member, answered⟩
  rcases exists_job_of_mem_requestsTo here member with ⟨past, listed, asked⟩
  exact fresh past listed (jobId_of_honestReply asked answered own)

theorem HonestRun.before {jobs later : List JobCall}
    (honest : HonestRun verifiers order start jobs index agent)
    (split : jobs = earlier ++ job :: later) :
    HonestRun verifiers order start (earlier ++ [job]) index agent := by
  intro first second same
  apply honest first (second ++ later)
  rw [split, ← List.append_assoc, ← same, List.append_assoc, List.singleton_append]

/-- The agent's own claim makes it a candidate. -/
theorem verifiedClaim_of_ownClaim {now : RegisteredAgent}
    (same : now.registration = agent.registration)
    (own : OwnClaim verifiers job agent reply) :
    (verifiedClaim verifiers job.jobId now reply).isSome := by
  rcases own with ⟨output, proof, rfl, verified⟩
  have sameKey : now.vrfPk = agent.vrfPk := congrArg Registration.vrfPk same
  simp [verifiedClaim, sameKey, verified]

theorem Synchronised.neverExcluded {jobs : List JobCall}
    (synchronised : Synchronised verifiers order start jobs index agent)
    (here : start.agents[index]? = some agent) :
    NeverExcluded verifiers order start jobs index := by
  intro earlier job later split chosen
  rcases exchanged_runJobs verifiers order here earlier with ⟨now, there, exchanged⟩
  rcases vrfReads_of_committee? chosen there with ⟨reply, received, reads⟩
  have own := synchronised earlier job later split reply reads
  rcases Option.isSome_iff_exists.mp
    (verifiedClaim_of_ownClaim exchanged.registration own) with ⟨claim, verified⟩
  refine ⟨now, claim, there, ?_⟩
  rw [claimResult, received]
  exact congrArg Except.ok verified

end Synchronisation

/-- For every run of any jobs, with any timeouts and aborted jobs, and every connection
of an honest agent: the VRF rounds read the claims of their own jobs if every job before
had read the replies to its requests; with distinct job numbers, only then.  An agent whose
claims are read is never excluded. -/
theorem synchronised_iff (verifiers : Verifiers) (order : IterationOrder Hash UInt32)
    (start : CoordinatorState) (jobs : List JobCall) (index : Nat) (agent : RegisteredAgent)
    (here : start.agents[index]? = some agent)
    (honest : HonestRun verifiers order start jobs index agent) :
    (SettledBefore verifiers order start jobs index →
      Synchronised verifiers order start jobs index agent) ∧
    ((jobs.map JobCall.jobId).Nodup →
      Synchronised verifiers order start jobs index agent →
      SettledBefore verifiers order start jobs index) ∧
    (Synchronised verifiers order start jobs index agent →
      NeverExcluded verifiers order start jobs index) := by
  refine ⟨?_, ?_, fun synchronised => synchronised.neverExcluded here⟩
  · intro settled earlier job later split reply reads
    apply ownClaim_of_settled here (honest.before split) reads
    exact (settled_iff here earlier).mpr (settled earlier job later split reply reads)
  · intro distinct synchronised earlier job later split reply reads
    apply (settled_iff here earlier).mp
    apply settled_of_ownClaim here (honest.before split) reads _
      (synchronised earlier job later split reply reads)
    intro past listed same
    rw [split, List.map_append, List.map_cons] at distinct
    have apart := (List.nodup_append.mp distinct).2.2
    exact apart _ (List.mem_map_of_mem listed) _ List.mem_cons_self same

/-! ## A late attestation -/

/-- The job after the sample job. -/
def secondJob : JobCall :=
  { singleJob with jobId := 2 }

/-- The requests of the first job and the seed of the second. -/
def sampleRequests : List Envelope :=
  [singleJob.seedRequest, singleJob.assignRequest, secondJob.seedRequest]

/-- The turn of the sample runner that receives a request. -/
def sampleTurn (request : Envelope) : Turn where
  received := .ok request
  world := bareWorld
  entropy := sampleEntry 0
  writeFault := none

/-- What the sample runner answers. -/
def sampleReplies : List Envelope :=
  (sampleRunner 1).mainLoop modelCrypto (sampleRequests.map sampleTurn)

/-- The runner's connection; if it is late, the read of the attestation times out and
the attestation arrives afterwards. -/
def delayedConnection (late : Bool) : RegisteredAgent :=
  { honestConnection 1 0 with
    stream := {
      inbound := (sampleReplies.take 1).map .ok ++
        (if late then [.error .timedOut] else []) ++ (sampleReplies.drop 1).map .ok
      faults := []
      outbound := [.registerAck] } }

def delayedState (late : Bool) : CoordinatorState :=
  { honestState 0 with agents := [delayedConnection late] }

/-- Both jobs, on the one connection. -/
def delayedJobs : List JobCall :=
  [singleJob, secondJob]

theorem sampleRunner_provable (late : Bool) (entropy : Bytes 32) (input : List UInt8) :
    modelVerifiers.vrf (delayedConnection late).vrfPk input ((sampleRunner 1).vrf.output input)
      ((sampleRunner 1).vrf.proof entropy input) = true :=
  beq_self_eq_true _

theorem sampleReplies_honest (late : Bool) :
    List.Forall₂ (HonestReply modelVerifiers (delayedConnection late)) sampleRequests
      sampleReplies := by
  have honest : ∀ request reply,
      (sampleRunner 1).react modelCrypto (sampleTurn request) = .reply reply →
      HonestReply modelVerifiers (delayedConnection late) request reply :=
    fun request _ => honestReply_of_react (sampleTurn request) (sampleRunner_provable late) rfl
  exact .cons (honest _ _ rfl) (.cons (honest _ _ rfl) (.cons (honest _ _ rfl) .nil))

/-- A run that reads the first of the runner's replies, in the order of the requests. -/
theorem inOrder_sampleReplies (late : Bool) {requests replies : List Envelope} (count : Nat)
    (short : count ≤ 3) (exchanged : requests.take count = sampleRequests.take count ∧
      replies = sampleReplies.take count) :
    InOrder (HonestReply modelVerifiers (delayedConnection late)) requests replies := by
  have length : replies.length = count := by
    rw [exchanged.2, List.length_take]
    exact min_eq_left short
  rw [InOrder, length, exchanged.1, exchanged.2]
  exact List.forall₂_take count (sampleReplies_honest late)

theorem split_delayedJobs {earlier later : List JobCall}
    (split : delayedJobs = earlier ++ later) :
    earlier = [] ∨ earlier = [singleJob] ∨ earlier = delayedJobs := by
  match earlier, split with
  | [], _ => exact Or.inl rfl
  | [_], split =>
      cases split
      exact Or.inr (Or.inl rfl)
  | [_, _], split =>
      cases split
      exact Or.inr (Or.inr rfl)
  | _ :: _ :: _ :: _, split => cases split

/-- The agent is honest whether or not its attestation is late. -/
theorem honestRun_delayed (late : Bool) :
    HonestRun modelVerifiers .stored (delayedState late) delayedJobs 0
      (delayedConnection late) := by
  intro earlier later split
  rcases split_delayedJobs split with rfl | rfl | rfl
  · cases late
    · exact inOrder_sampleReplies false 0 (by decide) (by decide +kernel)
    · exact inOrder_sampleReplies true 0 (by decide) (by decide +kernel)
  · cases late
    · exact inOrder_sampleReplies false 2 (by decide) (by decide +kernel)
    · exact inOrder_sampleReplies true 1 (by decide) (by decide +kernel)
  · cases late
    · exact inOrder_sampleReplies false 3 (by decide) (by decide +kernel)
    · exact inOrder_sampleReplies true 2 (by decide) (by decide +kernel)

/-- With the attestation in time, the first job leaves nothing behind. -/
theorem settledBefore_delayed :
    SettledBefore modelVerifiers .stored (delayedState false) delayedJobs 0 := by
  intro earlier job later split reply _ before past after parts
  rcases split_delayedJobs split with rfl | rfl | rfl
  · simp at parts
  · match before, parts with
    | [], parts =>
        cases parts
        unfold Settles
        decide +kernel
    | _ :: _, parts => simp at parts
  · simp [delayedJobs] at split

/-- Both jobs read the claims made for them. -/
theorem synchronised_iff_prompt :
    HonestRun modelVerifiers .stored (delayedState false) delayedJobs 0
        (delayedConnection false) ∧
      Synchronised modelVerifiers .stored (delayedState false) delayedJobs 0
        (delayedConnection false) ∧
      NeverExcluded modelVerifiers .stored (delayedState false) delayedJobs 0 := by
  obtain ⟨sufficient, -, included⟩ := synchronised_iff modelVerifiers .stored
    (delayedState false) delayedJobs 0 (delayedConnection false) rfl (honestRun_delayed false)
  have synchronised := sufficient settledBefore_delayed
  exact ⟨honestRun_delayed false, synchronised, included synchronised⟩

/-- The late attestation of the first job is what the VRF round of the second reads;
the honest agent is excluded and the second job finds no committee. -/
theorem late_attestation_desynchronises :
    HonestRun modelVerifiers .stored (delayedState true) delayedJobs 0
        (delayedConnection true) ∧
      (vrfReads secondJob.jobId (runJobs modelVerifiers .stored (delayedState true)
        [singleJob]).agents)[0]? = some (.ok (sampleReplies.getD 1 .other)) ∧
      (convene modelVerifiers secondJob (runJobs modelVerifiers .stored (delayedState true)
        [singleJob]).agents).1 = .unfilled ∧
      ¬Synchronised modelVerifiers .stored (delayedState true) delayedJobs 0
        (delayedConnection true) := by
  have reads : (vrfReads secondJob.jobId (runJobs modelVerifiers .stored (delayedState true)
      [singleJob]).agents)[0]? = some (.ok (sampleReplies.getD 1 .other)) := by
    decide +kernel
  refine ⟨honestRun_delayed true, reads, by decide +kernel, ?_⟩
  intro synchronised
  rcases synchronised [singleJob] secondJob [] rfl _ reads with ⟨output, proof, claim, -⟩
  change Envelope.submitAttestation _ = _ at claim
  cases claim

end Cosaci.Coordinator
