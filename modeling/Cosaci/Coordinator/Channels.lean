import Cosaci.Coordinator.Session

/-!
# Requests and replies on the connections

What a job, and a run of jobs, writes to one connection and reads from it.  A job writes
a seed and perhaps an assignment, reads at most one message for each of them, and may
end between a request and the read that belongs to it.
-/

namespace Cosaci.Coordinator

open Foundation Cosaci.Core State Protocol

/-! ## What passes over a connection -/

/-- Between two moments the coordinator wrote these requests to the connection of an
agent and read these messages from it. -/
structure Exchanged (start now : RegisteredAgent) (requests replies : List Envelope) :
    Prop where
  registration : now.registration = start.registration
  written : now.stream.outbound = start.stream.outbound ++ requests
  read : ∃ results, start.stream.inbound = results ++ now.stream.inbound ∧
    results.filterMap Except.toOption = replies

/-- The messages written since an earlier moment. -/
def sentSince (start now : RegisteredAgent) : List Envelope :=
  now.stream.outbound.drop start.stream.outbound.length

/-- The messages read since an earlier moment; failed reads left nothing. -/
def heardSince (start now : RegisteredAgent) : List Envelope :=
  (start.stream.inbound.take
    (start.stream.inbound.length - now.stream.inbound.length)).filterMap Except.toOption

namespace Exchanged

variable {start middle now : RegisteredAgent}
  {requests later replies laterReplies : List Envelope}

theorem refl (agent : RegisteredAgent) : Exchanged agent agent [] [] where
  registration := rfl
  written := (List.append_nil _).symm
  read := ⟨[], rfl, rfl⟩

theorem trans (first : Exchanged start middle requests replies)
    (second : Exchanged middle now later laterReplies) :
    Exchanged start now (requests ++ later) (replies ++ laterReplies) where
  registration := second.registration.trans first.registration
  written := by rw [second.written, first.written, List.append_assoc]
  read := by
    rcases first.read with ⟨results, script, kept⟩
    rcases second.read with ⟨laterResults, laterScript, laterKept⟩
    refine ⟨results ++ laterResults, ?_, ?_⟩
    · rw [script, laterScript, List.append_assoc]
    · rw [List.filterMap_append, kept, laterKept]

theorem runnerId_eq (exchanged : Exchanged start now requests replies) :
    now.runnerId = start.runnerId :=
  congrArg Registration.runnerId exchanged.registration

theorem sentSince_eq (exchanged : Exchanged start now requests replies) :
    sentSince start now = requests := by
  rw [sentSince, exchanged.written, List.drop_left]

theorem heardSince_eq (exchanged : Exchanged start now requests replies) :
    heardSince start now = replies := by
  rcases exchanged.read with ⟨results, script, kept⟩
  rw [heardSince, script, List.length_append, Nat.add_sub_cancel, List.take_left, kept]

end Exchanged

theorem exchanged_of_write_ok {agent : RegisteredAgent} {envelope : Envelope} {result : Unit}
    (written : (agent.write envelope).1 = .ok result) :
    Exchanged agent (agent.write envelope).2 [envelope] [] := by
  refine ⟨rfl, ?_, [], (inbound_writeEnvelope agent.stream envelope).symm, rfl⟩
  change (writeEnvelope agent.stream envelope).1 = .ok result at written
  change (writeEnvelope agent.stream envelope).2.outbound = _
  unfold writeEnvelope at written ⊢
  split at written
  · cases written
  · rfl
  · rfl

/-- A write either delivers its message or fails and delivers nothing. -/
theorem exchanged_write (agent : RegisteredAgent) (envelope : Envelope) :
    ∃ requests, (requests = [] ∨ requests = [envelope]) ∧
      Exchanged agent (agent.write envelope).2 requests [] := by
  cases written : (agent.write envelope).1 with
  | ok result => exact ⟨[envelope], Or.inr rfl, exchanged_of_write_ok written⟩
  | error kind =>
      refine ⟨[], Or.inl rfl, rfl, ?_, [], (inbound_writeEnvelope agent.stream envelope).symm,
        rfl⟩
      change (writeEnvelope agent.stream envelope).1 = .error kind at written
      change (writeEnvelope agent.stream envelope).2.outbound = _
      unfold writeEnvelope at written ⊢
      split at written
      · exact (List.append_nil _).symm
      · cases written
      · cases written

/-- A read takes at most one message off the connection. -/
theorem exchanged_read (agent : RegisteredAgent) :
    Exchanged agent agent.read.2 [] agent.read.1.toOption.toList := by
  have script : ∃ results, agent.stream.inbound =
      results ++ (readEnvelope agent.stream).2.inbound ∧
      results.filterMap Except.toOption = (readEnvelope agent.stream).1.toOption.toList := by
    unfold readEnvelope
    split
    · exact ⟨[], rfl, rfl⟩
    · next result rest script =>
        refine ⟨[result], script, ?_⟩
        cases result <;> rfl
  have unwritten : (readEnvelope agent.stream).2.outbound = agent.stream.outbound := by
    unfold readEnvelope
    split <;> rfl
  exact ⟨rfl, unwritten.trans (List.append_nil _).symm, script⟩

/-! ## One round, seen from one connection -/

/-- The request of the VRF round. -/
def JobCall.seedRequest (job : JobCall) : Envelope :=
  .jobSeed job.jobId (jobSeedBytes job.jobId)

/-- The request to a committee member. -/
def JobCall.assignRequest (job : JobCall) : Envelope :=
  .assign job.jobId job.pipeline job.requirements job.deadline

/-- The results of the reads of the VRF round, up to the first failing one; none if a
seed could not be written. -/
def vrfReads (jobId : UInt64) (agents : List RegisteredAgent) :
    List (Except IoErrorKind Envelope) :=
  match sendJobSeed jobId agents with
  | (.error _, _) => []
  | (.ok _, agents) => performed RegisteredAgent.read agents

section Rounds

variable {verifiers : Verifiers} {job : JobCall} {agents after : List RegisteredAgent}
  {agent : RegisteredAgent} {index : Nat} {committee : List RunnerId}

theorem exchanged_sendJobSeed (job : JobCall) (here : agents[index]? = some agent) :
    ∃ now requests, (sendJobSeed job.jobId agents).2[index]? = some now ∧
      (requests = [] ∨ requests = [job.seedRequest]) ∧ Exchanged agent now requests [] := by
  rw [sendJobSeed, getElem?_strictRound_snd, here, Option.map_some]
  split
  · rcases exchanged_write agent job.seedRequest with ⟨requests, either, exchanged⟩
    exact ⟨_, requests, rfl, either, exchanged⟩
  · exact ⟨agent, [], rfl, Or.inl rfl, .refl agent⟩

theorem exchanged_of_sendJobSeed_ok {seeds : List Unit}
    (sent : sendJobSeed job.jobId agents = (.ok seeds, after))
    (here : agents[index]? = some agent) :
    ∃ now, after[index]? = some now ∧ Exchanged agent now [job.seedRequest] [] := by
  rcases exists_strictRound_eq_iff.mp ⟨seeds, sent⟩ with ⟨done, rfl⟩
  rcases done agent (List.mem_of_getElem? here) with ⟨_, written⟩
  refine ⟨_, ?_, exchanged_of_write_ok written⟩
  rw [List.getElem?_map, here]
  rfl

theorem exchanged_collectClaims (verifiers : Verifiers) (job : JobCall)
    (here : agents[index]? = some agent) :
    ∃ now replies, (collectClaims verifiers job.jobId agents).2[index]? = some now ∧
      replies.length ≤ 1 ∧ Exchanged agent now [] replies ∧
      ∀ reply, (performed RegisteredAgent.read agents)[index]? = some (.ok reply) →
        replies = [reply] := by
  have judged : readClaim verifiers job.jobId = fun agent =>
      (agent.read.1.map (verifiedClaim verifiers job.jobId agent), agent.read.2) := by
    funext agent
    unfold readClaim
    split
    · next failed =>
        rw [failed]
        rfl
    · next received =>
        rw [received]
        rfl
  rw [collectClaims, judged, getElem?_strictRound_snd, here, Option.map_some,
    length_performed_map]
  split
  · refine ⟨_, _, rfl, Option.length_toList_le, exchanged_read agent, ?_⟩
    intro reply reached
    rcases getElem?_of_performed reached with ⟨party, there, result⟩
    rw [here] at there
    cases there
    rw [result]
    rfl
  · next unreached =>
      refine ⟨agent, [], rfl, Nat.zero_le 1, .refl agent, ?_⟩
      intro reply reached
      exact absurd (List.getElem?_eq_some_iff.mp reached).1 unreached

theorem exchanged_sendAssign (job : JobCall) (committee : List RunnerId)
    (here : agents[index]? = some agent) :
    ∃ now requests, (sendAssign job committee agents).2[index]? = some now ∧
      (requests = [] ∨ requests = [job.assignRequest]) ∧ Exchanged agent now requests [] := by
  rw [sendAssign, getElem?_strictRound_snd, here, Option.map_some]
  split
  · unfold assignTo
    split
    · rcases exchanged_write agent job.assignRequest with ⟨requests, either, exchanged⟩
      exact ⟨_, requests, rfl, either, exchanged⟩
    · exact ⟨agent, [], rfl, Or.inl rfl, .refl agent⟩
  · exact ⟨agent, [], rfl, Or.inl rfl, .refl agent⟩

theorem exchanged_of_sendAssign_ok {assigns : List Unit}
    (sent : sendAssign job committee agents = (.ok assigns, after))
    (here : agents[index]? = some agent) (seated : agent.runnerId ∈ committee) :
    ∃ now, after[index]? = some now ∧ Exchanged agent now [job.assignRequest] [] := by
  rcases exists_strictRound_eq_iff.mp ⟨assigns, sent⟩ with ⟨done, rfl⟩
  rcases done agent (List.mem_of_getElem? here) with ⟨_, written⟩
  have assigned : assignTo job committee agent = agent.write job.assignRequest :=
    if_pos (List.contains_iff_mem.mpr seated)
  rw [assigned] at written
  refine ⟨_, ?_, exchanged_of_write_ok written⟩
  rw [List.getElem?_map, here, ← assigned]
  rfl

/-- An attestation is read from the committee only. -/
theorem exchanged_collectAttestations (crypto : Crypto) (committee : List RunnerId)
    (here : agents[index]? = some agent) :
    ∃ now replies, (collectAttestations crypto committee agents).2[index]? = some now ∧
      Exchanged agent now [] replies ∧ replies.length ≤ 1 ∧
      (agent.runnerId ∉ committee → replies = []) := by
  have moved : (collectAttestations crypto committee agents).2[index]? =
      some (collectFrom crypto committee agent).2 := by
    rw [collectAttestations, tolerantRound, List.getElem?_map, here]
    rfl
  by_cases seated : agent.runnerId ∈ committee
  · have reads : (collectFrom crypto committee agent).2 = agent.read.2 := by
      rw [collectFrom, if_pos (List.contains_iff_mem.mpr seated)]
      split
      · next received =>
          rw [received]
          split <;> rfl
      · next received => rw [received]
    rw [reads] at moved
    exact ⟨_, _, moved, exchanged_read agent, Option.length_toList_le,
      fun stranger => absurd seated stranger⟩
  · have passed : (collectFrom crypto committee agent).2 = agent := by
      rw [collectFrom, if_neg (mt List.contains_iff_mem.mp seated)]
    rw [passed] at moved
    exact ⟨agent, [], moved, .refl agent, Nat.zero_le 1, fun _ => rfl⟩

/-- After a write, the next read is the one that was due before. -/
theorem read_write_fst (agent : RegisteredAgent) (envelope : Envelope) :
    (agent.write envelope).2.read.1 =
      agent.stream.inbound.headD (.error .unexpectedEof) := by
  rw [← inbound_writeEnvelope agent.stream envelope]
  exact readEnvelope_fst _

/-- When nothing fails, the VRF round reads the next message of every connection. -/
theorem vrfReads_eq (seeded : ∀ agent ∈ agents, agent.stream.faults.headD none = none)
    (heard : ∀ agent ∈ agents, ∃ message,
      agent.stream.inbound.headD (.error .unexpectedEof) = .ok message) :
    vrfReads job.jobId agents = agents.map fun agent =>
      agent.stream.inbound.headD (.error .unexpectedEof) := by
  have written : ∀ agent ∈ agents, ∃ result, (agent.write job.seedRequest).1 = .ok result :=
    fun agent member => (exists_write_eq_ok_iff agent _).mpr (seeded agent member)
  rcases exists_strictRound_eq_iff.mpr ⟨written, rfl⟩ with ⟨seeds, sent⟩
  have seeding : sendJobSeed job.jobId agents =
      (.ok seeds, agents.map fun agent => (agent.write job.seedRequest).2) := sent
  rw [vrfReads, seeding]
  simp only
  rw [performed_of_forall_ok, List.map_map]
  · exact List.map_congr_left fun agent _ => read_write_fst agent _
  · rw [List.forall_mem_map]
    intro agent member
    rw [read_write_fst]
    exact heard agent member

/-- A VRF round that goes through has read one message from every connection. -/
theorem vrfReads_of_committee?
    (chosen : (convene verifiers job agents).1.committee?.isSome)
    (here : agents[index]? = some agent) :
    ∃ reply, agent.stream.inbound.headD (.error .unexpectedEof) = .ok reply ∧
      (vrfReads job.jobId agents)[index]? = some (.ok reply) := by
  rcases asked_of_committee? chosen with ⟨seeded, claimed⟩
  have heard : ∀ agent ∈ agents, ∃ message,
      agent.stream.inbound.headD (.error .unexpectedEof) = .ok message :=
    fun agent member => exists_claimResult_iff.mp (claimed agent member)
  rcases heard agent (List.mem_of_getElem? here) with ⟨reply, received⟩
  refine ⟨reply, received, ?_⟩
  rw [vrfReads_eq seeded heard, List.getElem?_map, here, Option.map_some, received]

end Rounds

/-! ## One job, seen from one connection -/

/-- What a job exchanges over a connection: requests of its own only, and at most as
many messages as it wrote requests. -/
structure Traffic (job : JobCall) (start now : RegisteredAgent)
    (requests replies : List Envelope) : Prop where
  exchanged : Exchanged start now requests replies
  requested : ∀ request ∈ requests, request = job.seedRequest ∨ request = job.assignRequest
  answered : replies.length ≤ requests.length

section Job

variable {verifiers : Verifiers} {job : JobCall} {agents : List RegisteredAgent}
  {agent : RegisteredAgent} {index : Nat}

/-- The message read in the VRF round is the first one of the job, and it is read after
the seed was written. -/
def ReadsFirst (job : JobCall) (agents : List RegisteredAgent) (index : Nat)
    (requests replies : List Envelope) : Prop :=
  ∀ reply, (vrfReads job.jobId agents)[index]? = some (.ok reply) →
    ∃ more later, requests = job.seedRequest :: more ∧ replies = reply :: later

/-- The traffic of a job that got into the VRF round. -/
theorem traffic_of_rounds {asked heard now : RegisteredAgent}
    {replies assigns : List Envelope} (first : Exchanged agent asked [job.seedRequest] [])
    (second : Exchanged asked heard [] replies) (single : replies.length ≤ 1)
    (third : Exchanged heard now assigns [])
    (either : assigns = [] ∨ assigns = [job.assignRequest]) :
    Traffic job agent now (job.seedRequest :: assigns) replies where
  exchanged := by simpa using (first.trans second).trans third
  requested := by
    intro request member
    rcases List.mem_cons.mp member with rfl | later
    · exact Or.inl rfl
    · rcases either with rfl | rfl
      · cases later
      · exact Or.inr (List.mem_singleton.mp later)
  answered := by
    rw [List.length_cons]
    omega

theorem exchanged_assignCommittee (job : JobCall) (claims : List (RunnerId × Bytes 32))
    (here : agents[index]? = some agent) :
    ∃ now assigns, (assignCommittee job agents claims).2[index]? = some now ∧
      (assigns = [] ∨ assigns = [job.assignRequest]) ∧ Exchanged agent now assigns [] ∧
      ∀ committee, (assignCommittee job agents claims).1 = .convened committee →
        agent.runnerId ∈ committee → assigns = [job.assignRequest] := by
  unfold assignCommittee
  split
  · refine ⟨agent, [], here, Or.inl rfl, .refl agent, ?_⟩
    intro committee convened
    cases convened
  next committee formed =>
  rcases exchanged_sendAssign job committee here with ⟨now, assigns, there, either, exchanged⟩
  split
  · next failed =>
      rw [failed] at there
      refine ⟨now, assigns, there, either, exchanged, ?_⟩
      intro committee convened
      cases convened
  · next assigned =>
      by_cases seated : agent.runnerId ∈ committee
      · rcases exchanged_of_sendAssign_ok assigned here seated with ⟨told, there, exchanged⟩
        exact ⟨told, _, there, Or.inr rfl, exchanged, fun _ _ _ => rfl⟩
      · rw [assigned] at there
        refine ⟨now, assigns, there, either, exchanged, ?_⟩
        intro other convened member
        cases convened
        exact absurd member seated

/-- The traffic of a job whose seeds could not all be written. -/
theorem traffic_of_seeds (job : JobCall) (here : agents[index]? = some agent) :
    ∃ now requests, (sendJobSeed job.jobId agents).2[index]? = some now ∧
      Traffic job agent now requests [] := by
  rcases exchanged_sendJobSeed job here with ⟨now, requests, there, either, exchanged⟩
  refine ⟨now, requests, there, exchanged, ?_, Nat.zero_le _⟩
  intro request member
  rcases either with rfl | rfl
  · cases member
  · exact Or.inl (List.mem_singleton.mp member)

/-- The traffic of a job up to the collection of attestations; a member of the
committee then still owes a reply. -/
theorem traffic_convene (verifiers : Verifiers) (job : JobCall)
    (here : agents[index]? = some agent) :
    ∃ now requests replies, (convene verifiers job agents).2[index]? = some now ∧
      Traffic job agent now requests replies ∧ ReadsFirst job agents index requests replies ∧
      ∀ committee, (convene verifiers job agents).1 = .convened committee →
        agent.runnerId ∈ committee → replies.length < requests.length := by
  unfold ReadsFirst
  rcases seeding : sendJobSeed job.jobId agents with ⟨kind | seeds, seeded⟩
  · -- a seed could not be written: no connection is read
    rcases traffic_of_seeds job here with ⟨now, requests, there, traffic⟩
    have unread : vrfReads job.jobId agents = [] := by
      rw [vrfReads, seeding]
    rw [seeding] at there
    rw [convene_of_seed_error verifiers seeding, unread]
    refine ⟨now, requests, [], there, traffic, ?_, ?_⟩
    · intro reply reached
      cases reached
    · intro committee convened
      cases convened
  rcases exchanged_of_sendJobSeed_ok seeding here with ⟨asked, askedThere, first⟩
  rcases exchanged_collectClaims verifiers job askedThere with
    ⟨heard, replies, heardThere, single, second, reads⟩
  have read : vrfReads job.jobId agents = performed RegisteredAgent.read seeded := by
    rw [vrfReads, seeding]
  rcases claiming : collectClaims verifiers job.jobId seeded with ⟨kind | claims, fleet⟩
  · -- a claim could not be read: the later connections keep their replies
    rw [claiming] at heardThere
    rw [convene_of_claim_error seeding claiming, read]
    refine ⟨heard, _, replies, heardThere,
      traffic_of_rounds first second single (.refl heard) (Or.inl rfl), ?_, ?_⟩
    · intro reply reached
      exact ⟨[], [], rfl, reads reply reached⟩
    · intro committee convened
      cases convened
  · rw [claiming] at heardThere
    rcases exchanged_assignCommittee job claims.reduceOption heardThere with
      ⟨now, assigns, there, either, third, told⟩
    rw [convene_of_claimed seeding claiming, read]
    refine ⟨now, _, replies, there, traffic_of_rounds first second single third either,
      ?_, ?_⟩
    · intro reply reached
      exact ⟨assigns, [], rfl, reads reply reached⟩
    · intro committee convened seated
      rw [← (first.trans second).runnerId_eq] at seated
      rw [told committee convened seated, List.length_cons, List.length_singleton]
      omega

/-- The traffic of a whole job. -/
theorem traffic_runOneJob (verifiers : Verifiers) (order : IterationOrder Hash UInt32)
    (job : JobCall) {state : CoordinatorState} (here : state.agents[index]? = some agent) :
    ∃ now requests replies,
      (runOneJob verifiers order job state).state.agents[index]? = some now ∧
      Traffic job agent now requests replies ∧
      ReadsFirst job state.agents index requests replies := by
  rcases traffic_convene verifiers job here with
    ⟨now, requests, replies, there, traffic, first, owing⟩
  have convene_eq : ∀ {step agents},
      convene verifiers job (state.journalAppend [.jobSubmitted job.jobId]).agents =
        (step, agents) → agents[index]? = some now ∧
          (convene verifiers job state.agents).1 = step := by
    intro step agents same
    change convene verifiers job state.agents = (step, agents) at same
    rw [same] at there ⊢
    exact ⟨there, rfl⟩
  unfold runOneJob
  dsimp only
  split
  · next failed => exact ⟨now, requests, replies, (convene_eq failed).1, traffic, first⟩
  · next unfilled => exact ⟨now, requests, replies, (convene_eq unfilled).1, traffic, first⟩
  · next unassigned =>
      exact ⟨now, requests, replies, (convene_eq unassigned).1, traffic, first⟩
  next committee agents convened =>
  rcases exchanged_collectAttestations verifiers.crypto committee (convene_eq convened).1 with
    ⟨collected, answers, thereAfter, exchanged, single, strangers⟩
  rw [agents_conclude]
  refine ⟨collected, requests ++ [], replies ++ answers, thereAfter,
    ⟨traffic.exchanged.trans exchanged, ?_, ?_⟩, ?_⟩
  · rw [List.append_nil]
    exact traffic.requested
  · rw [List.append_nil, List.length_append]
    by_cases seated : agent.runnerId ∈ committee
    · have owes := owing committee (convene_eq convened).2 seated
      omega
    · rw [strangers (by rwa [traffic.exchanged.runnerId_eq]), List.length_nil]
      exact traffic.answered
  · intro reply reached
    rcases first reply reached with ⟨more, later, asked, heard⟩
    exact ⟨more, later ++ answers, by rw [asked, List.append_nil],
      by rw [heard, List.cons_append]⟩

end Job

/-! ## Whole runs -/

section Run

variable (verifiers : Verifiers) (order : IterationOrder Hash UInt32)

/-- The requests that the jobs write to a connection. -/
def requestsTo (start : CoordinatorState) (jobs : List JobCall) (index : Nat) :
    List Envelope :=
  match start.agents[index]?, (runJobs verifiers order start jobs).agents[index]? with
  | some before, some now => sentSince before now
  | _, _ => []

/-- The messages that the jobs read from a connection. -/
def repliesFrom (start : CoordinatorState) (jobs : List JobCall) (index : Nat) :
    List Envelope :=
  match start.agents[index]?, (runJobs verifiers order start jobs).agents[index]? with
  | some before, some now => heardSince before now
  | _, _ => []

/-- The job reads an answer to every request it writes to the connection. -/
def Settles (state : CoordinatorState) (job : JobCall) (index : Nat) : Prop :=
  (repliesFrom verifiers order state [job] index).length =
    (requestsTo verifiers order state [job] index).length

variable {verifiers order} {start : CoordinatorState} {agent : RegisteredAgent} {index : Nat}

theorem requestsTo_eq (jobs : List JobCall) {now : RegisteredAgent}
    {requests replies : List Envelope} (here : start.agents[index]? = some agent)
    (there : (runJobs verifiers order start jobs).agents[index]? = some now)
    (exchanged : Exchanged agent now requests replies) :
    requestsTo verifiers order start jobs index = requests ∧
      repliesFrom verifiers order start jobs index = replies := by
  rw [requestsTo, repliesFrom, here, there]
  exact ⟨exchanged.sentSince_eq, exchanged.heardSince_eq⟩

/-- The connection stays in its place during a run. -/
theorem exchanged_runJobs (verifiers : Verifiers) (order : IterationOrder Hash UInt32)
    (here : start.agents[index]? = some agent) (jobs : List JobCall) :
    ∃ now, (runJobs verifiers order start jobs).agents[index]? = some now ∧
      Exchanged agent now (requestsTo verifiers order start jobs index)
        (repliesFrom verifiers order start jobs index) := by
  have moved : ∃ now requests replies,
      (runJobs verifiers order start jobs).agents[index]? = some now ∧
        Exchanged agent now requests replies := by
    induction jobs generalizing start agent with
    | nil => exact ⟨agent, [], [], here, .refl agent⟩
    | cons job rest ih =>
        rcases traffic_runOneJob verifiers order job here with
          ⟨next, requests, replies, there, traffic, -⟩
        rcases ih there with ⟨now, more, later, reached, exchanged⟩
        exact ⟨now, _, _, reached, traffic.exchanged.trans exchanged⟩
  rcases moved with ⟨now, requests, replies, there, exchanged⟩
  rcases requestsTo_eq jobs here there exchanged with ⟨sent, heard⟩
  rw [sent, heard]
  exact ⟨now, there, exchanged⟩

/-- A run exchanges what its first jobs exchange, then what the others do. -/
theorem requestsTo_append (here : start.agents[index]? = some agent)
    (earlier later : List JobCall) :
    requestsTo verifiers order start (earlier ++ later) index =
        requestsTo verifiers order start earlier index ++
          requestsTo verifiers order (runJobs verifiers order start earlier) later index ∧
      repliesFrom verifiers order start (earlier ++ later) index =
        repliesFrom verifiers order start earlier index ++
          repliesFrom verifiers order (runJobs verifiers order start earlier) later index := by
  rcases exchanged_runJobs verifiers order here earlier with ⟨middle, there, first⟩
  rcases exchanged_runJobs verifiers order there later with ⟨now, reached, second⟩
  apply requestsTo_eq (earlier ++ later) here _ (first.trans second)
  rw [runJobs, Machine.final_append]
  exact reached

/-- The traffic of one job of a run. -/
theorem traffic_job (verifiers : Verifiers) (order : IterationOrder Hash UInt32)
    (here : start.agents[index]? = some agent) (job : JobCall) :
    ∃ now, Traffic job agent now (requestsTo verifiers order start [job] index)
        (repliesFrom verifiers order start [job] index) ∧
      ReadsFirst job start.agents index (requestsTo verifiers order start [job] index)
        (repliesFrom verifiers order start [job] index) := by
  rcases traffic_runOneJob verifiers order job here with
    ⟨now, requests, replies, there, traffic, first⟩
  rcases requestsTo_eq [job] here there traffic.exchanged with ⟨sent, heard⟩
  rw [sent, heard]
  exact ⟨now, traffic, first⟩

/-- The requests of a run are those of its jobs. -/
theorem exists_job_of_mem_requestsTo (here : start.agents[index]? = some agent)
    {jobs : List JobCall} {request : Envelope}
    (member : request ∈ requestsTo verifiers order start jobs index) :
    ∃ job ∈ jobs, request = job.seedRequest ∨ request = job.assignRequest := by
  induction jobs generalizing start agent with
  | nil =>
      rw [(requestsTo_eq [] here here (.refl agent)).1] at member
      cases member
  | cons job rest ih =>
      rw [← List.singleton_append, (requestsTo_append here [job] rest).1] at member
      rcases List.mem_append.mp member with first | later
      · rcases traffic_job verifiers order here job with ⟨now, traffic, -⟩
        exact ⟨job, List.mem_cons_self, traffic.requested request first⟩
      · rcases exchanged_runJobs verifiers order here [job] with ⟨now, there, -⟩
        rcases ih there later with ⟨other, listed, asked⟩
        exact ⟨other, List.mem_cons_of_mem _ listed, asked⟩

/-- A run never reads more messages than it writes requests. -/
theorem answered_runJobs (verifiers : Verifiers) (order : IterationOrder Hash UInt32)
    (here : start.agents[index]? = some agent) (jobs : List JobCall) :
    (repliesFrom verifiers order start jobs index).length ≤
      (requestsTo verifiers order start jobs index).length := by
  induction jobs generalizing start agent with
  | nil =>
      rcases requestsTo_eq [] here here (.refl agent) with ⟨sent, heard⟩
      rw [sent, heard]
  | cons job rest ih =>
      rcases exchanged_runJobs verifiers order here [job] with ⟨now, there, -⟩
      rcases traffic_job verifiers order here job with ⟨_, traffic, -⟩
      rcases requestsTo_append here [job] rest with ⟨sent, heard⟩
      rw [← List.singleton_append, sent, heard, List.length_append, List.length_append]
      exact Nat.add_le_add traffic.answered (ih there)

/-- Neither the first job nor the others read more than they write, so that the totals
agree only if both parts do. -/
theorem settled_cons (here : start.agents[index]? = some agent) (job : JobCall)
    (rest : List JobCall) :
    (repliesFrom verifiers order start (job :: rest) index).length =
        (requestsTo verifiers order start (job :: rest) index).length ↔
      Settles verifiers order start job index ∧
        (repliesFrom verifiers order (runJobs verifiers order start [job]) rest index).length =
          (requestsTo verifiers order (runJobs verifiers order start [job]) rest
            index).length := by
  rcases exchanged_runJobs verifiers order here [job] with ⟨now, there, -⟩
  rcases traffic_job verifiers order here job with ⟨_, traffic, -⟩
  rcases requestsTo_append here [job] rest with ⟨sent, heard⟩
  have first := traffic.answered
  have others := answered_runJobs verifiers order there rest
  rw [← List.singleton_append, sent, heard, List.length_append, List.length_append, Settles]
  omega

/-- Nothing is outstanding after a run exactly when every job settled its requests. -/
theorem settled_iff (here : start.agents[index]? = some agent) (jobs : List JobCall) :
    (repliesFrom verifiers order start jobs index).length =
        (requestsTo verifiers order start jobs index).length ↔
      ∀ earlier job later, jobs = earlier ++ job :: later →
        Settles verifiers order (runJobs verifiers order start earlier) job index := by
  induction jobs generalizing start agent with
  | nil =>
      rcases requestsTo_eq [] here here (.refl agent) with ⟨sent, heard⟩
      rw [sent, heard]
      simp
  | cons job rest ih =>
      rcases exchanged_runJobs verifiers order here [job] with ⟨now, there, -⟩
      rw [settled_cons here, ih there]
      constructor
      · rintro ⟨first, others⟩ earlier other later same
        cases earlier with
        | nil =>
            cases same
            exact first
        | cons _ earlier =>
            cases same
            exact others earlier other later rfl
      · intro every
        refine ⟨every [] job rest rfl, ?_⟩
        rintro earlier other later rfl
        exact every (job :: earlier) other later rfl

end Run

end Cosaci.Coordinator
