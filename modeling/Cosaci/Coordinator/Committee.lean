import Cosaci.Coordinator.Session

/-!
# Who sits on a committee

Claims are collected per connection, capabilities and stakes per runner id.  The two
views agree as long as no id is registered on two connections; `accept_fleet` does
not see to that, with or without an enrollment set.
-/

namespace Cosaci.Coordinator

open Foundation Cosaci.Core State Protocol

/-! ## Claims and candidates -/

/-- The capability record of every registered runner id. -/
def agentCaps (agents : List RegisteredAgent) : Table RunnerId Capabilities :=
  Table.collect (agents.map fun agent => (agent.runnerId, agent.capabilities))

/-- The record of the claim's runner id satisfies the requirements. -/
def eligible (agents : List RegisteredAgent) (requirements : JobRequirements)
    (claim : RunnerId × Bytes 32) : Bool :=
  ((agentCaps agents).lookup claim.1).any fun capabilities =>
    capabilities.matches requirements

/-- The verified claim of an agent, if it sends one. -/
def agentClaim (verifiers : Verifiers) (jobId : UInt64) (agent : RegisteredAgent) :
    Option (RunnerId × Bytes 32) :=
  (claimResult verifiers jobId agent).toOption.join

section Claims

variable {verifiers : Verifiers} {job : JobCall} {jobId : UInt64}
  {agents : List RegisteredAgent} {claims : List (RunnerId × Bytes 32)}

theorem fleetClaims_eq (verifiers : Verifiers) (jobId : UInt64)
    (agents : List RegisteredAgent) :
    fleetClaims verifiers jobId agents = agents.filterMap (agentClaim verifiers jobId) := by
  rw [fleetClaims, List.filterMap_map]
  rfl

/-- A claim bears the id of the connection it was read from. -/
theorem runnerId_of_agentClaim {agent : RegisteredAgent} {claim : RunnerId × Bytes 32}
    (claimed : agentClaim verifiers jobId agent = some claim) :
    claim.1 = agent.runnerId := by
  unfold agentClaim claimResult at claimed
  cases result : agent.stream.inbound.headD (.error .unexpectedEof) with
  | error kind =>
      rw [result] at claimed
      cases claimed
  | ok message =>
      rw [result] at claimed
      change verifiedClaim verifiers jobId agent message = some claim at claimed
      unfold verifiedClaim at claimed
      split at claimed
      · split at claimed
        · cases claimed
        split at claimed
        · cases claimed
        cases claimed
        rfl
      · cases claimed

private theorem map_filterMap_sublist {α β γ : Type} {choose : α → Option β}
    {source : α → γ} {target : β → γ}
    (agrees : ∀ element result, choose element = some result →
      target result = source element) (elements : List α) :
    ((elements.filterMap choose).map target).Sublist (elements.map source) := by
  induction elements with
  | nil => exact .slnil
  | cons element rest ih =>
      cases chosen : choose element with
      | none =>
          rw [List.filterMap_cons_none chosen]
          exact ih.cons (source element)
      | some result =>
          rw [List.filterMap_cons_some chosen, List.map_cons, List.map_cons,
            agrees element result chosen]
          exact ih.cons_cons (source element)

/-- Every connection contributes at most one claim. -/
theorem fleetClaims_sublist (verifiers : Verifiers) (jobId : UInt64)
    (agents : List RegisteredAgent) :
    ((fleetClaims verifiers jobId agents).map Prod.fst).Sublist
      (agents.map RegisteredAgent.runnerId) := by
  rw [fleetClaims_eq]
  exact map_filterMap_sublist (fun _ _ claimed => runnerId_of_agentClaim claimed) agents

/-- The members of a committee are runners with a claim, and there are as many as the
job wants. -/
theorem subperm_of_formCommittee {committee : List RunnerId}
    (formed : formCommittee job agents claims = some committee) :
    committee.length = job.committeeSize ∧ committee.Subperm (claims.map Prod.fst) := by
  have selected := subperm_of_selectCapabilityAwareCommittee formed
  refine ⟨selected.1, selected.2.trans (map_filterMap_sublist ?_ claims).subperm⟩
  intro claim candidate found
  rcases Option.map_eq_some_iff.mp found with ⟨_, _, rfl⟩
  rfl

/-- A committee is formed when there are enough eligible claims. -/
theorem exists_formCommittee_iff :
    (∃ committee, formCommittee job agents claims = some committee) ↔
      job.committeeSize ≤ claims.countP (eligible agents job.requirements) := by
  have counted : ((claims.filterMap fun claim =>
      ((agentCaps agents).lookup claim.1).map fun capabilities =>
        ({ id := claim.1, capabilities := capabilities, vrfOutput := claim.2 } :
          Candidate RunnerId)).filter fun candidate =>
            candidate.capabilities.matches job.requirements).length =
      claims.countP (eligible agents job.requirements) := by
    rw [← List.countP_eq_length_filter, List.countP_filterMap]
    congr 1
    funext claim
    unfold eligible
    cases (agentCaps agents).lookup claim.1 <;> rfl
  unfold formCommittee selectCapabilityAwareCommittee
  dsimp only
  unfold agentCaps at counted
  rw [counted]
  split
  · next few => simpa using few
  · next enough => simpa using enough

end Claims

/-! ## Distinct members -/

/-- A runner id stands for one connection, one stake and one capability record. -/
structure Identified (state : CoordinatorState) (runner : RunnerId) : Prop where
  connection : (state.agents.map RegisteredAgent.runnerId).count runner = 1
  stake : state.stakeLedger.stakes.keys.count runner = 1
  capabilities : (agentCaps state.agents).keys.count runner = 1

/-- The committee consists of as many different runners as the job wants. -/
structure Distinct (job : JobCall) (state : CoordinatorState) (committee : List RunnerId) :
    Prop where
  size : committee.length = job.committeeSize
  nodup : committee.Nodup
  identified : ∀ runner ∈ committee, Identified state runner

/-- The coordinator when the fleet has registered, whatever its connections are going
to deliver. -/
structure Starts (agents : List RegisteredAgent) (state : CoordinatorState) : Prop where
  registrations : state.agents.map RegisteredAgent.registration =
    agents.map RegisteredAgent.registration
  stakes : state.stakeLedger = .fromStakeMap
    (Table.collect (agents.map fun agent => (agent.runnerId, agent.stake)))

/-- After any jobs, every job that chooses a committee chooses a distinct one. -/
def DistinctCommittees (verifiers : Verifiers) (order : IterationOrder Hash UInt32)
    (agents : List RegisteredAgent) : Prop :=
  ∀ start jobs job committee, Starts agents start →
    (convene verifiers job (runJobs verifiers order start jobs).agents).1.committee? =
      some committee →
    Distinct job (runJobs verifiers order start jobs) committee

/-- The owner of a VRF key, having proved one output of it, can prove the output for
every input. -/
def Verifiers.VrfComplete (verifiers : Verifiers) : Prop :=
  ∀ key challenge output proof, verifiers.vrf key challenge output proof = true →
    ∀ input, ∃ output proof, verifiers.vrf key input output proof = true

theorem runnerIds_of_registrations {agents others : List RegisteredAgent}
    (same : agents.map RegisteredAgent.registration =
      others.map RegisteredAgent.registration) :
    agents.map RegisteredAgent.runnerId = others.map RegisteredAgent.runnerId := by
  have projected := congrArg (List.map Registration.runnerId) same
  rw [List.map_map, List.map_map] at projected
  exact projected

variable {runner : RunnerId}

section Sufficient

variable {verifiers : Verifiers} {order : IterationOrder Hash UInt32} {job : JobCall}
  {agents : List RegisteredAgent} {state : CoordinatorState} {committee : List RunnerId}

/-- With different ids, a runner of the fleet is one connection, stake and record. -/
theorem identified_of_nodup (distinct : (state.agents.map RegisteredAgent.runnerId).Nodup)
    (staked : runner ∈ state.stakeLedger.stakes)
    (listed : runner ∈ state.agents.map RegisteredAgent.runnerId) :
    Identified state runner where
  connection := List.count_eq_one_of_mem distinct listed
  stake := List.count_eq_one_of_mem state.stakeLedger.stakes.keys_nodup
    (AList.mem_keys.mp staked)
  capabilities := by
    apply List.count_eq_one_of_mem (agentCaps state.agents).keys_nodup
    rw [← AList.mem_keys, agentCaps, Table.mem_collect, List.map_map]
    exact listed

theorem nodup_of_subperm {committee ids : List RunnerId} (within : committee.Subperm ids)
    (distinct : ids.Nodup) : committee.Nodup := by
  rcases within with ⟨part, same, sublist⟩
  exact same.nodup_iff.mp (distinct.sublist sublist)

/-- Different registered ids give distinct committees, in every job of every run. -/
theorem distinctCommittees_of_nodup
    (distinct : (agents.map RegisteredAgent.runnerId).Nodup) :
    DistinctCommittees verifiers order agents := by
  intro start jobs job committee starts chosen
  have kept := (registration_runJobs verifiers order start jobs).trans starts.registrations
  have ids := runnerIds_of_registrations kept
  rcases subperm_of_formCommittee (committee?_convene.mp chosen).2.2 with ⟨size, within⟩
  have members := within.trans (fleetClaims_sublist verifiers job.jobId _).subperm
  rw [ids] at members
  refine ⟨size, nodup_of_subperm members distinct, ?_⟩
  intro runner member
  have listed := members.subset member
  apply identified_of_nodup
  · rw [ids]
    exact distinct
  · rw [mem_stakes_runJobs, starts.stakes, StakeLedger.fromStakeMap, Table.mem_collect,
      List.map_map]
    exact listed
  · rw [ids]
    exact listed

end Sufficient

section Necessary

variable {verifiers : Verifiers} {order : IterationOrder Hash UInt32}
  {agents : List RegisteredAgent} {twin : RunnerId}

/-- A job that accepts every runner on a platform. -/
def undemandingJob (platform : Platform) : JobCall where
  jobId := 0
  committeeSize := 2
  pipeline := ⟨[]⟩
  requirements := ⟨0, 0, platform, ∅⟩
  slashPolicy := ⟨false, id⟩
  nowUnixNs := 0
  appendIo := .ok

theorem matches_undemandingJob (capabilities : Capabilities) :
    capabilities.matches (undemandingJob capabilities.platform).requirements = true := by
  simp [Capabilities.matches, undemandingJob]

/-- The fleet when every connection carries a single message to the coordinator. -/
def saying (message : RegisteredAgent → Envelope) (agents : List RegisteredAgent) :
    List RegisteredAgent :=
  agents.map fun agent => { agent with stream := ⟨[.ok (message agent)], [], []⟩ }

/-- The connections of one runner id claim, the others send something else. -/
def twinMessage (twin : RunnerId) (output : RegisteredAgent → Bytes 32)
    (proof : RegisteredAgent → Bytes 64) (agent : RegisteredAgent) : Envelope :=
  if agent.runnerId = twin then .vrfClaim 0 (output agent) (proof agent) else .other

/-- Such a fleet gets through the VRF round; its committee is chosen by the claims. -/
theorem committee?_saying {message : RegisteredAgent → Envelope} {job : JobCall}
    {committee : List RunnerId} :
    (convene verifiers job (saying message agents)).1.committee? = some committee ↔
      formCommittee job (saying message agents)
        (fleetClaims verifiers job.jobId (saying message agents)) = some committee := by
  rw [committee?_convene]
  constructor
  · rintro ⟨_, _, formed⟩
    exact formed
  · intro formed
    refine ⟨?_, ?_, formed⟩
    · intro agent member
      rcases List.mem_map.mp member with ⟨_, _, rfl⟩
      rfl
    · intro agent member
      rcases List.mem_map.mp member with ⟨_, _, rfl⟩
      exact ⟨_, rfl⟩

variable {output : RegisteredAgent → Bytes 32} {proof : RegisteredAgent → Bytes 64}

/-- Only the twins have claims. -/
theorem eq_twin_of_mem_claims (claimed : runner ∈ (fleetClaims verifiers 0
      (saying (twinMessage twin output proof) agents)).map Prod.fst) : runner = twin := by
  rw [fleetClaims_eq] at claimed
  rcases List.mem_map.mp claimed with ⟨claim, member, rfl⟩
  rcases List.mem_filterMap.mp member with ⟨_, listed, claims⟩
  rcases List.mem_map.mp listed with ⟨agent, _, rfl⟩
  by_cases same : agent.runnerId = twin
  · exact (runnerId_of_agentClaim claims).trans same
  · simp [agentClaim, claimResult, twinMessage, same, verifiedClaim, Except.map,
      Except.toOption] at claims

/-- Every twin's claim is eligible. -/
theorem count_twin_le {capabilities : Capabilities} (verified : ∀ agent ∈ agents,
      verifiers.vrf agent.vrfPk (jobSeedBytes 0).toList (output agent) (proof agent) = true)
    (recorded : (agentCaps agents).lookup twin = some capabilities) :
    (agents.map RegisteredAgent.runnerId).count twin ≤
      (fleetClaims verifiers 0 (saying (twinMessage twin output proof) agents)).countP
        (eligible (saying (twinMessage twin output proof) agents)
          (undemandingJob capabilities.platform).requirements) := by
  have records : agentCaps (saying (twinMessage twin output proof) agents) =
      agentCaps agents := by
    rw [agentCaps, saying, List.map_map]
    rfl
  rw [fleetClaims_eq, List.countP_filterMap, List.count, saying, List.countP_map,
    List.countP_map, ← saying]
  apply List.countP_mono_left
  intro agent member same
  have twinned : agent.runnerId = twin := by simpa using same
  have claims : agentClaim verifiers 0
      { agent with stream := ⟨[.ok (twinMessage twin output proof agent)], [], []⟩ } =
        some (twin, output agent) := by
    simp [agentClaim, claimResult, twinMessage, twinned, verifiedClaim,
      verified agent member, Except.map, Except.toOption]
  rw [Function.comp_apply, claims, Option.map_some, Option.getD_some, eligible, records,
    recorded]
  exact matches_undemandingJob capabilities

/-- Two connections with one id can fill a committee of two on their own. -/
theorem exists_twin_committee (verified : ∀ agent ∈ agents,
      verifiers.vrf agent.vrfPk (jobSeedBytes 0).toList (output agent) (proof agent) = true)
    (twins : 2 ≤ (agents.map RegisteredAgent.runnerId).count twin) :
    ∃ platform committee,
      (convene verifiers (undemandingJob platform)
        (saying (twinMessage twin output proof) agents)).1.committee? = some committee ∧
      ¬committee.Nodup := by
  have known : ((agentCaps agents).lookup twin).isSome := by
    rw [AList.lookup_isSome, agentCaps, Table.mem_collect, List.map_map]
    exact List.count_pos_iff.mp (lt_of_lt_of_le Nat.two_pos twins)
  rcases Option.isSome_iff_exists.mp known with ⟨capabilities, recorded⟩
  have enough : (undemandingJob capabilities.platform).committeeSize ≤
      (fleetClaims verifiers 0 (saying (twinMessage twin output proof) agents)).countP
        (eligible (saying (twinMessage twin output proof) agents)
          (undemandingJob capabilities.platform).requirements) :=
    twins.trans (count_twin_le verified recorded)
  rcases exists_formCommittee_iff.mpr enough with ⟨committee, formed⟩
  refine ⟨capabilities.platform, committee, committee?_saying.mpr formed, ?_⟩
  intro distinct
  rcases subperm_of_formCommittee formed with ⟨size, within⟩
  -- only twins have claims, so both seats go to the same id
  have all : ∀ runner ∈ committee, twin = runner := by
    intro runner member
    exact (eq_twin_of_mem_claims (within.subset member)).symm
  have once := List.nodup_iff_count_le_one.mp distinct twin
  rw [List.count_eq_length.mpr all, size] at once
  exact Nat.not_succ_le_self 1 once

/-- A coordinator whose fleet is about to send these messages. -/
def startSaying (message : RegisteredAgent → Envelope) (agents : List RegisteredAgent) :
    CoordinatorState where
  agents := saying message agents
  stakeLedger := .fromStakeMap
    (Table.collect (agents.map fun agent => (agent.runnerId, agent.stake)))
  log := .mem ⟨[], ()⟩
  records := ∅
  journal := []

theorem starts_startSaying (message : RegisteredAgent → Envelope)
    (agents : List RegisteredAgent) : Starts agents (startSaying message agents) where
  registrations := by
    rw [startSaying, saying, List.map_map]
    rfl
  stakes := rfl

/-- An id on two connections can show up twice in a committee. -/
theorem not_distinctCommittees (complete : verifiers.VrfComplete)
    (owned : ∀ agent ∈ agents, ∃ challenge output proof,
      verifiers.vrf agent.vrfPk challenge output proof = true)
    (twins : 2 ≤ (agents.map RegisteredAgent.runnerId).count twin) :
    ¬DistinctCommittees verifiers order agents := by
  have provable : ∀ agent ∈ agents, ∃ output proof,
      verifiers.vrf agent.vrfPk (jobSeedBytes 0).toList output proof = true := by
    intro agent member
    rcases owned agent member with ⟨challenge, output, proof, accepted⟩
    exact complete agent.vrfPk challenge output proof accepted _
  choose! output proof verified using provable
  rcases exists_twin_committee verified twins with ⟨platform, committee, chosen, repeated⟩
  intro distinct
  exact repeated (distinct _ [] (undemandingJob platform) committee
    (starts_startSaying (twinMessage twin output proof) agents) chosen).nodup

end Necessary

/-- For every fleet that `accept_fleet` assembles, with or without an enrollment set,
and every sequence of jobs: all committees consist of as many different runners as the
job wants, each with one connection, stake and capability record, if and only if no
two connections registered with the same runner id. -/
theorem distinctCommittees_iff (registrar : Registrar)
    (order : IterationOrder Hash UInt32) (fleet : Nat) (arrivals : List Arrival)
    (agents : List RegisteredAgent) (complete : registrar.verifiers.VrfComplete)
    (assembled : acceptFleet registrar fleet [] arrivals = .assembled agents) :
    DistinctCommittees registrar.verifiers order agents ↔
      (agents.map RegisteredAgent.runnerId).Nodup := by
  constructor
  · intro distinct
    by_contra repeated
    rcases List.exists_duplicate_iff_not_nodup.mpr repeated with ⟨twin, twice⟩
    refine not_distinctCommittees complete ?_ (List.duplicate_iff_two_le_count.mp twice)
      distinct
    intro agent member
    rcases registered_of_acceptFleet assembled agent member with absent | ⟨stream, registered⟩
    · cases absent
    · exact ⟨_, Registrar.possession_of_register registered⟩
  · exact distinctCommittees_of_nodup

/-! ## An enrolled runner that connects twice -/

/-- A registrar that knows one runner for each of the given ids. -/
def enrolledRegistrar (runners : List RunnerId) : Registrar where
  verifiers := modelVerifiers
  enrollment := some (runners.foldl (fun enrolled runner => enrolled.insert
    ⟨runner, fingerprint modelCrypto (sampleEntry runner.toUInt8),
      fingerprint modelCrypto (sampleEntry runner.toUInt8)⟩) ⟨∅⟩)

/-- A connection of an enrolled runner, which registers and claims the sample job. -/
def enrolledStream (runner : RunnerId) : Stream where
  inbound := [
    .ok (.register runner (sampleEntry runner.toUInt8) (sampleEntry runner.toUInt8)
      (modelHash ((sampleEntry runner.toUInt8).toList ++ vrfRegistrationChallenge))
      (List.Vector.replicate 64 0) 10 ⟨4, 4096, .linuxX86_64, {.wasm}⟩),
    .ok (.vrfClaim sampleJob.jobId
      (modelHash ((sampleEntry runner.toUInt8).toList ++ (jobSeedBytes sampleJob.jobId).toList))
      (List.Vector.replicate 64 0))]
  faults := []
  outbound := []

/-- The agent that such a connection registers. -/
def enrolledAgent (runner : RunnerId) : RegisteredAgent where
  runnerId := runner
  stream := { enrolledStream runner with
    inbound := (enrolledStream runner).inbound.tail, outbound := [.registerAck] }
  signingPk := sampleEntry runner.toUInt8
  vrfPk := sampleEntry runner.toUInt8
  stake := 10
  capabilities := ⟨4, 4096, .linuxX86_64, {.wasm}⟩

theorem modelVerifiers_vrfComplete : modelVerifiers.VrfComplete := by
  intro key challenge output proof _ input
  exact ⟨modelHash (key.toList ++ input), proof, by simp [modelVerifiers]⟩

theorem register_enrolledStream {runners : List RunnerId}
    (enrolled : (enrolledRegistrar runners).lets runner (sampleEntry runner.toUInt8)
      (sampleEntry runner.toUInt8) = true) :
    (enrolledRegistrar runners).register (enrolledStream runner) =
      some (enrolledAgent runner) := by
  have proven : (enrolledRegistrar runners).verifiers.vrf (sampleEntry runner.toUInt8)
      vrfRegistrationChallenge
      (modelHash ((sampleEntry runner.toUInt8).toList ++ vrfRegistrationChallenge))
      (List.Vector.replicate 64 0) = true := by
    simp [enrolledRegistrar, modelVerifiers]
  have decoded : (enrolledRegistrar runners).verifiers.crypto.validKey
      (sampleEntry runner.toUInt8) = true := rfl
  simp only [Registrar.register, readEnvelope, enrolledStream, proven, enrolled, decoded,
    writeEnvelope]
  rfl

theorem acceptFleet_enrolled {first second : RunnerId} {runners : List RunnerId}
    (one : (enrolledRegistrar runners).lets first (sampleEntry first.toUInt8)
      (sampleEntry first.toUInt8) = true)
    (two : (enrolledRegistrar runners).lets second (sampleEntry second.toUInt8)
      (sampleEntry second.toUInt8) = true) :
    acceptFleet (enrolledRegistrar runners) 2 []
        [.connected (enrolledStream first), .connected (enrolledStream second)] =
      .assembled [enrolledAgent first, enrolledAgent second] := by
  simp [acceptFleet, register_enrolledStream one, register_enrolledStream two]

/-- Two enrolled runners, each on its own connection. -/
theorem distinctCommittees_iff_pair :
    acceptFleet (enrolledRegistrar [1, 2]) 2 []
        [.connected (enrolledStream 1), .connected (enrolledStream 2)] =
      .assembled [enrolledAgent 1, enrolledAgent 2] ∧
    DistinctCommittees modelVerifiers .stored [enrolledAgent 1, enrolledAgent 2] := by
  have assembled : acceptFleet (enrolledRegistrar [1, 2]) 2 []
      [.connected (enrolledStream 1), .connected (enrolledStream 2)] =
        .assembled [enrolledAgent 1, enrolledAgent 2] :=
    acceptFleet_enrolled (by decide +kernel) (by decide +kernel)
  exact ⟨assembled, (distinctCommittees_iff (enrolledRegistrar [1, 2]) .stored 2 _ _
    modelVerifiers_vrfComplete assembled).mpr (by decide)⟩

/-- An enrolled runner that registers twice fills both seats of a committee of two. -/
theorem repeated_registration_committee :
    acceptFleet (enrolledRegistrar [7]) 2 []
        [.connected (enrolledStream 7), .connected (enrolledStream 7)] =
      .assembled [enrolledAgent 7, enrolledAgent 7] ∧
    (convene modelVerifiers { sampleJob with committeeSize := 2 }
      [enrolledAgent 7, enrolledAgent 7]).1 = .convened [7, 7] ∧
    ¬DistinctCommittees modelVerifiers .stored [enrolledAgent 7, enrolledAgent 7] := by
  have chosen : (convene modelVerifiers { sampleJob with committeeSize := 2 }
      [enrolledAgent 7, enrolledAgent 7]).1 = .convened [7, 7] := by
    decide +kernel
  refine ⟨acceptFleet_enrolled (by decide +kernel) (by decide +kernel), chosen, ?_⟩
  intro distinct
  have committee := distinct ⟨[enrolledAgent 7, enrolledAgent 7], .fromStakeMap
    (Table.collect [(7, 10), (7, 10)]), .mem ⟨[], ()⟩, ∅, []⟩ [] _ [7, 7] ⟨rfl, rfl⟩
    (congrArg Convocation.committee? chosen)
  exact absurd committee.nodup (by decide)

end Cosaci.Coordinator
