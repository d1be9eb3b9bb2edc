import Cosaci.Foundation.Round
import Cosaci.Foundation.Table
import Cosaci.Protocol.Envelope
import Cosaci.State.StakeLedger

/-!
# The fleet side of a job

The rounds of `run_one_job` that talk to the agents: the VRF round, committee
selection, the assignment and the collection of attestations.  A failing write,
or a failing read in the VRF round, ends the job; a failing read while attestations
are collected only makes that runner a missing one.
-/

namespace Cosaci.Coordinator

open Foundation Cosaci.Core Protocol
open Jobs (Pipeline)
open State (SlashPolicy)

/-- The verification functions the coordinator links against. -/
structure Verifiers where
  crypto : Crypto
  /-- Verification of a VRF output and proof for an input under a public key. -/
  vrf : Bytes 32 → List UInt8 → Bytes 32 → Bytes 64 → Bool

/-- Stand-ins for the linked verification functions; a VRF output is the digest of
key and input. -/
def modelVerifiers : Verifiers where
  crypto := modelCrypto
  vrf key input output _ := output == modelHash (key.toList ++ input)

/-- A registered agent and its connection. -/
structure RegisteredAgent where
  runnerId : RunnerId
  stream : Stream
  signingPk : Bytes 32
  vrfPk : Bytes 32
  stake : Weight
  capabilities : Capabilities

/-- The arguments of one call of `run_one_job`, with the clock reading and the
outcome of the log append that happen during it. -/
structure JobCall where
  jobId : UInt64
  committeeSize : Nat
  pipeline : Pipeline
  requirements : JobRequirements
  slashPolicy : SlashPolicy
  nowUnixNs : Int64
  appendIo : AppendIo

namespace RegisteredAgent

def read (agent : RegisteredAgent) : Except IoErrorKind Envelope × RegisteredAgent :=
  let (result, stream) := readEnvelope agent.stream
  (result, { agent with stream := stream })

def write (agent : RegisteredAgent) (envelope : Envelope) :
    Except IoErrorKind Unit × RegisteredAgent :=
  let (result, stream) := writeEnvelope agent.stream envelope
  (result, { agent with stream := stream })

end RegisteredAgent

/-! ## The VRF round -/

/-- The seed of a job: its number in little-endian order and a final marker. -/
def jobSeedBytes (jobId : UInt64) : Bytes 32 :=
  ofBytes (littleEndian 8 jobId.toNat ++ List.replicate 23 0 ++ [0xab]) (by simp)

def sendJobSeed (jobId : UInt64) : List RegisteredAgent →
    Except IoErrorKind (List Unit) × List RegisteredAgent :=
  strictRound fun agent => agent.write (.jobSeed jobId (jobSeedBytes jobId))

/-- The claim of an agent, if its message is a verified claim for this job. -/
def verifiedClaim (verifiers : Verifiers) (jobId : UInt64) (agent : RegisteredAgent) :
    Envelope → Option (RunnerId × Bytes 32)
  | .vrfClaim claimJobId vrfOutput vrfProof =>
      if claimJobId ≠ jobId then
        none
      else if !verifiers.vrf agent.vrfPk (jobSeedBytes jobId).toList vrfOutput vrfProof then
        none
      else
        some (agent.runnerId, vrfOutput)
  | _ => none

def readClaim (verifiers : Verifiers) (jobId : UInt64) (agent : RegisteredAgent) :
    Except IoErrorKind (Option (RunnerId × Bytes 32)) × RegisteredAgent :=
  match agent.read with
  | (.error kind, after) => (.error kind, after)
  | (.ok envelope, after) => (.ok (verifiedClaim verifiers jobId agent envelope), after)

def collectClaims (verifiers : Verifiers) (jobId : UInt64) : List RegisteredAgent →
    Except IoErrorKind (List (Option (RunnerId × Bytes 32))) × List RegisteredAgent :=
  strictRound (readClaim verifiers jobId)

/-! ## Committee selection and assignment -/

/-- Rank the claims of the runners whose registered capabilities match. -/
def formCommittee (job : JobCall) (agents : List RegisteredAgent)
    (claims : List (RunnerId × Bytes 32)) : Option (List RunnerId) :=
  let agentCaps := Table.collect
    (agents.map fun agent => (agent.runnerId, agent.capabilities))
  let candidates := claims.filterMap fun claim =>
    (agentCaps.lookup claim.1).map fun capabilities =>
      { id := claim.1, capabilities := capabilities, vrfOutput := claim.2 : Candidate RunnerId }
  selectCapabilityAwareCommittee candidates job.requirements job.committeeSize

/-- One minute from now. -/
def JobCall.deadline (job : JobCall) : Int64 :=
  job.nowUnixNs + 60000000000

/-- Write the assignment to an agent of the committee. -/
def assignTo (job : JobCall) (committee : List RunnerId) (agent : RegisteredAgent) :
    Except IoErrorKind Unit × RegisteredAgent :=
  if committee.contains agent.runnerId then
    agent.write (.assign job.jobId job.pipeline job.requirements job.deadline)
  else
    (.ok (), agent)

def sendAssign (job : JobCall) (committee : List RunnerId) : List RegisteredAgent →
    Except IoErrorKind (List Unit) × List RegisteredAgent :=
  strictRound (assignTo job committee)

/-- How far the rounds before the collection got. -/
inductive Convocation where
  /-- The VRF round ended with an error. -/
  | failed (kind : IoErrorKind)
  /-- Too few candidates match the requirements. -/
  | unfilled
  /-- The committee was chosen, but an assignment could not be written. -/
  | unassigned (committee : List RunnerId) (kind : IoErrorKind)
  | convened (committee : List RunnerId)
  deriving DecidableEq

/-- The committee that was chosen, if the rounds got that far. -/
def Convocation.committee? : Convocation → Option (List RunnerId)
  | .failed _ => none
  | .unfilled => none
  | .unassigned committee _ => some committee
  | .convened committee => some committee

/-- The rounds up to the assignment. -/
def convene (verifiers : Verifiers) (job : JobCall) (agents : List RegisteredAgent) :
    Convocation × List RegisteredAgent :=
  match sendJobSeed job.jobId agents with
  | (.error kind, agents) => (.failed kind, agents)
  | (.ok _, agents) =>
      match collectClaims verifiers job.jobId agents with
      | (.error kind, agents) => (.failed kind, agents)
      | (.ok claims, agents) =>
          match formCommittee job agents claims.reduceOption with
          | none => (.unfilled, agents)
          | some committee =>
              match sendAssign job committee agents with
              | (.error kind, agents) => (.unassigned committee kind, agents)
              | (.ok _, agents) => (.convened committee, agents)

/-! ## Collecting attestations -/

/-- What the coordinator makes of one connection while it collects. -/
inductive Response where
  | notAsked
  | missing (connection : RunnerId)
  /-- A signature-valid attestation and the runner registered on the connection. -/
  | received (connection : RunnerId) (attestation : Attestation)
  deriving DecidableEq

/-- Read the answer of one connection.  The signature is checked against the key of
the connection; the runner and job named in the attestation are not looked at. -/
def collectFrom (crypto : Crypto) (committee : List RunnerId) (agent : RegisteredAgent) :
    Response × RegisteredAgent :=
  if committee.contains agent.runnerId then
    match agent.read with
    | (.ok (.submitAttestation bundle), after) =>
        if bundle.attestation.verifySignature crypto agent.signingPk then
          (.received agent.runnerId bundle.attestation, after)
        else
          (.missing agent.runnerId, after)
    | (_, after) => (.missing agent.runnerId, after)
  else
    (.notAsked, agent)

def collectAttestations (crypto : Crypto) (committee : List RunnerId) :
    List RegisteredAgent → List Response × List RegisteredAgent :=
  tolerantRound (collectFrom crypto committee)

/-- An attestation and the runner registered on the connection it was read
from. -/
structure Delivery where
  connection : RunnerId
  attestation : Attestation
  deriving DecidableEq

def Response.delivery : Response → Option Delivery
  | .received connection attestation => some ⟨connection, attestation⟩
  | _ => none

def deliveries (responses : List Response) : List Delivery :=
  responses.filterMap Response.delivery

/-! ## What the connections decide

A job reads each connection at most twice, so the committee and the collected
attestations are functions of the registrations and of the first two results of
each script. -/

/-- The result of the first read, judged as a claim. -/
def claimResult (verifiers : Verifiers) (jobId : UInt64) (agent : RegisteredAgent) :
    Except IoErrorKind (Option (RunnerId × Bytes 32)) :=
  (agent.stream.inbound.headD (.error .unexpectedEof)).map
    (verifiedClaim verifiers jobId agent)

def fleetClaims (verifiers : Verifiers) (jobId : UInt64) (agents : List RegisteredAgent) :
    List (RunnerId × Bytes 32) :=
  (agents.map (claimResult verifiers jobId)).filterMap fun result => result.toOption.join

/-- The result of the second read. -/
def RegisteredAgent.answer (agent : RegisteredAgent) : Except IoErrorKind Envelope :=
  agent.stream.inbound.tail.headD (.error .unexpectedEof)

/-- The job gets as far as collecting attestations from this committee. -/
structure Convenes (verifiers : Verifiers) (job : JobCall) (agents : List RegisteredAgent)
    (committee : List RunnerId) : Prop where
  /-- The job seed can be written to every agent. -/
  seeded : ∀ agent ∈ agents, agent.stream.faults.headD none = none
  /-- Every agent sends a message in the VRF round. -/
  claimed : ∀ agent ∈ agents, ∃ claim, claimResult verifiers job.jobId agent = .ok claim
  formed : formCommittee job agents (fleetClaims verifiers job.jobId agents) = some committee
  /-- The assignment can be written to every committee connection. -/
  assigned : ∀ agent ∈ agents, agent.runnerId ∈ committee →
    agent.stream.faults.tail.headD none = none

/-- The response of an agent once the committee is known. -/
def response (crypto : Crypto) (committee : List RunnerId) (agent : RegisteredAgent) :
    Response :=
  if committee.contains agent.runnerId then
    match agent.answer with
    | .ok (.submitAttestation bundle) =>
        if bundle.attestation.verifySignature crypto agent.signingPk then
          .received agent.runnerId bundle.attestation
        else
          .missing agent.runnerId
    | _ => .missing agent.runnerId
  else
    .notAsked

section Script

variable {verifiers : Verifiers} {job : JobCall} {jobId : UInt64} {committee : List RunnerId}
  {agents : List RegisteredAgent}

theorem Convenes.unique {other : List RunnerId}
    (convenes : Convenes verifiers job agents committee)
    (also : Convenes verifiers job agents other) : committee = other :=
  Option.some.inj (convenes.formed.symm.trans also.formed)

variable (agent : RegisteredAgent) {after : List RegisteredAgent}
  {claims : List (Option (RunnerId × Bytes 32))}

/-- A write succeeds when the script holds no fault for it. -/
theorem exists_write_eq_ok_iff (envelope : Envelope) :
    (∃ result, (agent.write envelope).1 = .ok result) ↔
      agent.stream.faults.headD none = none := by
  rw [← writeEnvelope_fst_eq_ok agent.stream envelope]
  constructor
  · rintro ⟨⟨⟩, written⟩
    exact written
  · intro written
    exact ⟨(), written⟩

/-- Writing leaves the registration and the reads alone. -/
theorem claimResult_write (envelope : Envelope) :
    claimResult verifiers jobId (agent.write envelope).2 =
      claimResult verifiers jobId agent := by
  have judged : verifiedClaim verifiers jobId (agent.write envelope).2 =
      verifiedClaim verifiers jobId agent := by
    funext message
    cases message <;> rfl
  have script : (agent.write envelope).2.stream.inbound = agent.stream.inbound :=
    inbound_writeEnvelope agent.stream envelope
  rw [claimResult, claimResult, judged, script]

/-- Any message is judged; only a failing read is an error. -/
theorem exists_claimResult_iff {agent : RegisteredAgent} :
    (∃ claim, claimResult verifiers jobId agent = .ok claim) ↔
      ∃ message, agent.stream.inbound.headD (.error .unexpectedEof) = .ok message := by
  unfold claimResult
  cases agent.stream.inbound.headD (.error .unexpectedEof) with
  | error kind => simp [Except.map]
  | ok message => simp [Except.map]

theorem readClaim_fst :
    (readClaim verifiers jobId agent).1 = claimResult verifiers jobId agent := by
  have first : agent.read.1 = agent.stream.inbound.headD (.error .unexpectedEof) :=
    readEnvelope_fst agent.stream
  rw [claimResult, ← first, readClaim]
  split
  · next failed => simp [failed, Except.map]
  · next message after received => simp [received, Except.map]

theorem readClaim_snd : (readClaim verifiers jobId agent).2 = agent.read.2 := by
  rw [readClaim]
  split
  · next failed => rw [failed]
  · next received => rw [received]

/-- Only registrations matter for the choice of a committee. -/
theorem formCommittee_map {step : RegisteredAgent → RegisteredAgent}
    (runner : ∀ agent, (step agent).runnerId = agent.runnerId)
    (capabilities : ∀ agent, (step agent).capabilities = agent.capabilities)
    (claims : List (RunnerId × Bytes 32)) :
    formCommittee job (agents.map step) claims = formCommittee job agents claims := by
  simp only [formCommittee, List.map_map, Function.comp_def, runner, capabilities]

/-- An agent after the job seed and its claim. -/
def askStep (verifiers : Verifiers) (jobId : UInt64) (agent : RegisteredAgent) :
    RegisteredAgent :=
  (readClaim verifiers jobId (agent.write (.jobSeed jobId (jobSeedBytes jobId))).2).2

/-- An agent after the job seed, its claim and the assignment. -/
def conveneStep (verifiers : Verifiers) (job : JobCall) (committee : List RunnerId)
    (agent : RegisteredAgent) : RegisteredAgent :=
  (assignTo job committee (askStep verifiers job.jobId agent)).2

/-- The VRF round changes nothing but the stream, uses one write and reads one
message. -/
theorem askStep_spec (verifiers : Verifiers) (jobId : UInt64) (agent : RegisteredAgent) :
    ∃ stream : Stream, stream.inbound = agent.stream.inbound.tail ∧
      stream.faults = agent.stream.faults.tail ∧
      askStep verifiers jobId agent = { agent with stream := stream } := by
  let seed := Envelope.jobSeed jobId (jobSeedBytes jobId)
  let written := (writeEnvelope agent.stream seed).2
  refine ⟨(readEnvelope written).2, ?_, ?_, readClaim_snd _⟩
  · rw [inbound_readEnvelope, inbound_writeEnvelope]
  · rw [faults_readEnvelope, faults_writeEnvelope]

theorem runnerId_askStep : (askStep verifiers jobId agent).runnerId = agent.runnerId := by
  rcases askStep_spec verifiers jobId agent with ⟨stream, -, -, moved⟩
  rw [moved]

theorem capabilities_askStep :
    (askStep verifiers jobId agent).capabilities = agent.capabilities := by
  rcases askStep_spec verifiers jobId agent with ⟨stream, -, -, moved⟩
  rw [moved]

theorem faults_askStep :
    (askStep verifiers jobId agent).stream.faults = agent.stream.faults.tail := by
  rcases askStep_spec verifiers jobId agent with ⟨stream, -, faults, moved⟩
  rw [moved, faults]

/-! Each round as a condition on the scripts of the fleet it starts from. -/

private theorem sendJobSeed_iff (jobId : UInt64) :
    (∃ seeds, sendJobSeed jobId agents = (.ok seeds, after)) ↔
      (∀ agent ∈ agents, agent.stream.faults.headD none = none) ∧
        after = agents.map fun agent =>
          (agent.write (.jobSeed jobId (jobSeedBytes jobId))).2 := by
  simp only [sendJobSeed, exists_strictRound_eq_iff, exists_write_eq_ok_iff]

private theorem collectClaims_iff :
    collectClaims verifiers jobId (agents.map fun agent =>
        (agent.write (.jobSeed jobId (jobSeedBytes jobId))).2) = (.ok claims, after) ↔
      agents.map (claimResult verifiers jobId) = claims.map .ok ∧
        after = agents.map (askStep verifiers jobId) := by
  simp only [collectClaims, strictRound_eq_iff, List.map_map, Function.comp_def,
    readClaim_fst, claimResult_write]
  rfl

private theorem assignTo_iff {agent : RegisteredAgent} :
    (∃ result, (assignTo job committee agent).1 = .ok result) ↔
      (agent.runnerId ∈ committee → agent.stream.faults.headD none = none) := by
  unfold assignTo
  split
  · next member =>
      have listed := List.contains_iff_mem.mp member
      simp only [exists_write_eq_ok_iff, listed, true_implies]
  · next stranger =>
      have unlisted : agent.runnerId ∉ committee :=
        fun member => stranger (List.contains_iff_mem.mpr member)
      simp [unlisted]

private theorem sendAssign_iff (verifiers : Verifiers) (job : JobCall) :
    (∃ assigns, sendAssign job committee (agents.map (askStep verifiers job.jobId)) =
        (.ok assigns, after)) ↔
      (∀ agent ∈ agents, agent.runnerId ∈ committee →
        agent.stream.faults.tail.headD none = none) ∧
        after = agents.map (conveneStep verifiers job committee) := by
  simp only [sendAssign, exists_strictRound_eq_iff, assignTo_iff, List.forall_mem_map,
    runnerId_askStep, faults_askStep, List.map_map, Function.comp_def]
  rfl

/-- The committee that the collected claims give. -/
private theorem formCommittee_askStep
    (all : agents.map (claimResult verifiers jobId) = claims.map .ok) :
    formCommittee job (agents.map (askStep verifiers jobId)) claims.reduceOption =
      formCommittee job agents (fleetClaims verifiers jobId agents) := by
  have collected : claims.reduceOption = fleetClaims verifiers jobId agents := by
    rw [fleetClaims, all, List.filterMap_map]
    rfl
  rw [collected, formCommittee_map runnerId_askStep capabilities_askStep]

/-- The rounds after the claims have been collected. -/
def assignCommittee (job : JobCall) (agents : List RegisteredAgent)
    (claims : List (RunnerId × Bytes 32)) : Convocation × List RegisteredAgent :=
  match formCommittee job agents claims with
  | none => (.unfilled, agents)
  | some committee =>
      match sendAssign job committee agents with
      | (.error kind, agents) => (.unassigned committee kind, agents)
      | (.ok _, agents) => (.convened committee, agents)

theorem committee?_assignCommittee (claims : List (RunnerId × Bytes 32)) :
    (assignCommittee job agents claims).1.committee? = formCommittee job agents claims := by
  unfold assignCommittee
  split
  · next unfilled => exact unfilled.symm
  · next formed =>
      rw [formed]
      split <;> rfl

/-! The three ways in which the VRF round can end. -/

theorem convene_of_seed_error (verifiers : Verifiers) {kind : IoErrorKind}
    {seeded : List RegisteredAgent}
    (seeding : sendJobSeed job.jobId agents = (.error kind, seeded)) :
    convene verifiers job agents = (.failed kind, seeded) := by
  simp only [convene, seeding]

theorem convene_of_claim_error {seeds : List Unit} {kind : IoErrorKind}
    {seeded asked : List RegisteredAgent}
    (seeding : sendJobSeed job.jobId agents = (.ok seeds, seeded))
    (claiming : collectClaims verifiers job.jobId seeded = (.error kind, asked)) :
    convene verifiers job agents = (.failed kind, asked) := by
  simp only [convene, seeding, claiming]

theorem convene_of_claimed {seeds : List Unit} {seeded asked : List RegisteredAgent}
    (seeding : sendJobSeed job.jobId agents = (.ok seeds, seeded))
    (claiming : collectClaims verifiers job.jobId seeded = (.ok claims, asked)) :
    convene verifiers job agents = assignCommittee job asked claims.reduceOption := by
  simp only [convene, seeding, claiming]
  rfl

/-- The VRF round goes through when every seed can be written and every agent sends a
message. -/
theorem convene_of_asked
    (seeded : ∀ agent ∈ agents, agent.stream.faults.headD none = none)
    (claimed : ∀ agent ∈ agents, ∃ claim, claimResult verifiers job.jobId agent = .ok claim) :
    ∃ claims : List (Option (RunnerId × Bytes 32)),
      agents.map (claimResult verifiers job.jobId) = claims.map .ok ∧
      convene verifiers job agents = assignCommittee job
        (agents.map (askStep verifiers job.jobId)) claims.reduceOption := by
  rcases (sendJobSeed_iff job.jobId).mpr ⟨seeded, rfl⟩ with ⟨seeds, seeding⟩
  rcases exists_map_ok_iff.mpr claimed with ⟨claims, all⟩
  exact ⟨claims, all, convene_of_claimed seeding (collectClaims_iff.mpr ⟨all, rfl⟩)⟩

/-- Conversely, it goes through only then. -/
theorem asked_of_committee? (chosen : (convene verifiers job agents).1.committee?.isSome) :
    (∀ agent ∈ agents, agent.stream.faults.headD none = none) ∧
      ∀ agent ∈ agents, ∃ claim, claimResult verifiers job.jobId agent = .ok claim := by
  rcases seeding : sendJobSeed job.jobId agents with ⟨kind | seeds, seeded⟩
  · rw [convene_of_seed_error verifiers seeding] at chosen
    cases chosen
  rcases (sendJobSeed_iff job.jobId).mp ⟨seeds, seeding⟩ with ⟨writable, rfl⟩
  rcases claiming : collectClaims verifiers job.jobId _ with ⟨kind | claims, asked⟩
  · rw [convene_of_claim_error seeding claiming] at chosen
    cases chosen
  · exact ⟨writable, exists_map_ok_iff.mp ⟨claims, (collectClaims_iff.mp claiming).1⟩⟩

/-- A committee is chosen when the VRF round goes through and finds enough runners. -/
theorem committee?_convene :
    (convene verifiers job agents).1.committee? = some committee ↔
      (∀ agent ∈ agents, agent.stream.faults.headD none = none) ∧
      (∀ agent ∈ agents, ∃ claim, claimResult verifiers job.jobId agent = .ok claim) ∧
      formCommittee job agents (fleetClaims verifiers job.jobId agents) = some committee := by
  constructor
  · intro chosen
    rcases asked_of_committee? (Option.isSome_of_eq_some chosen) with ⟨seeded, claimed⟩
    rcases convene_of_asked seeded claimed with ⟨claims, all, convened⟩
    rw [convened, committee?_assignCommittee, formCommittee_askStep all] at chosen
    exact ⟨seeded, claimed, chosen⟩
  · rintro ⟨seeded, claimed, formed⟩
    rcases convene_of_asked seeded claimed with ⟨claims, all, convened⟩
    rw [convened, committee?_assignCommittee, formCommittee_askStep all, formed]

/-- When the scripts allow it, the rounds go through and every agent takes its three
steps. -/
theorem convene_eq (convenes : Convenes verifiers job agents committee) :
    convene verifiers job agents =
      (.convened committee, agents.map (conveneStep verifiers job committee)) := by
  rcases convene_of_asked convenes.seeded convenes.claimed with ⟨claims, all, convened⟩
  have formed := (formCommittee_askStep all).trans convenes.formed
  rcases (sendAssign_iff verifiers job).mpr ⟨convenes.assigned, rfl⟩ with
    ⟨assigns, assigning⟩
  simp only [convened, assignCommittee, formed, assigning]

/-- Conversely, a job whose rounds go through had a fleet that allowed it. -/
theorem convenes_of_convened
    (convened : (convene verifiers job agents).1 = .convened committee) :
    Convenes verifiers job agents committee := by
  have chosen : (convene verifiers job agents).1.committee? = some committee := by
    rw [convened]
    rfl
  rcases committee?_convene.mp chosen with ⟨seeded, claimed, formed⟩
  rcases convene_of_asked seeded claimed with ⟨claims, all, same⟩
  rw [same, assignCommittee, (formCommittee_askStep all).trans formed] at convened
  refine ⟨seeded, claimed, formed, ?_⟩
  rcases assigning : sendAssign job committee (agents.map (askStep verifiers job.jobId)) with
    ⟨kind | assigns, assigned⟩
  · simp only [assigning] at convened
    cases convened
  · exact ((sendAssign_iff verifiers job).mp ⟨assigns, assigning⟩).1

/-- The three steps change nothing but the stream, and read one message of it. -/
theorem conveneStep_spec (verifiers : Verifiers) (job : JobCall) (committee : List RunnerId)
    (agent : RegisteredAgent) :
    ∃ stream : Stream, stream.inbound = agent.stream.inbound.tail ∧
      conveneStep verifiers job committee agent = { agent with stream := stream } := by
  rcases askStep_spec verifiers job.jobId agent with ⟨asked, script, -, moved⟩
  rw [conveneStep, moved, assignTo]
  split
  · exact ⟨_, (inbound_writeEnvelope asked _).trans script, rfl⟩
  · exact ⟨asked, script, rfl⟩

/-- The answer that is collected is the second result of the script. -/
theorem collectFrom_conveneStep (crypto : Crypto) (agent : RegisteredAgent) :
    (collectFrom crypto committee (conveneStep verifiers job committee agent)).1 =
      response crypto committee agent := by
  rcases conveneStep_spec verifiers job committee agent with ⟨stream, script, moved⟩
  rw [moved]
  have answered : (RegisteredAgent.read { agent with stream := stream }).1 = agent.answer := by
    rw [RegisteredAgent.answer, ← script]
    exact readEnvelope_fst stream
  unfold collectFrom response
  rw [← answered]
  split
  · split
    · next bundle after received =>
        simp only [received]
        split <;> rfl
    · next result after noBundle received =>
        rw [received]
        split
        · next bundle same => exact absurd same (noBundle bundle)
        · rfl
  · rfl

end Script

end Cosaci.Coordinator
