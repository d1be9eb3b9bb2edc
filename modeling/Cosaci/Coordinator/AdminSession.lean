import Cosaci.Coordinator.AdminKeys
import Cosaci.Coordinator.EnrollmentFile
import Cosaci.Coordinator.ReadServer
import Cosaci.Foundation.Silence

/-!
# Admin sessions

`handle_admin_client`: a session is opened by a signed greeting and serves one request.
Many sessions are under way at the same time, next to the main thread, and the clients may
send anything.  Only a session whose greeting was accepted and whose request changes a
registry can be noticed by anyone else.
-/

namespace Cosaci.Coordinator

open Foundation Cosaci.Core State Protocol

/-! ## The server -/

/-- What admin sessions share with each other and with the main thread. -/
structure AdminState where
  enrollment : RegistryStore
  tenants : RegistryStore
  log : LogBackend

/-- What the admin server is started with.  The two orders are those in which hash maps
are walked. -/
structure AdminServer where
  crypto : Crypto
  adminKeys : AdminKeySet
  floats : ReputationLibrary
  tenantsPath : List Char
  hasAuthState : Bool
  agentsOrder : IterationOrder RunnerId Enrollment
  tenantsOrder : IterationOrder TenantId TenantRecord

def AdminServer.config (server : AdminServer) : AdminConfig :=
  ⟨server.floats.toFloatLibrary, server.tenantsPath, server.hasAuthState⟩

/-- A process on the enrollment file. -/
def onEnrollment (process : Process RegistryStore α) : Process AdminState α :=
  process.within AdminState.enrollment fun store state => { state with enrollment := store }

/-- A process on the tenants file. -/
def onTenants (process : Process RegistryStore α) : Process AdminState α :=
  process.within AdminState.tenants fun store state => { state with tenants := store }

def AdminReply.envelope : AdminReply → WireEnvelope
  | .enrollAck => .adminEnrollAck
  | .revokeAck => .adminRevokeAck
  | .addTenantAck => .adminAddTenantAck
  | .revokeTenantAck => .adminRevokeTenantAck
  | .error reason => .adminError (String.ofList reason)

/-- `TenantRegistry::iter` -/
def sortedTenants (order : IterationOrder TenantId TenantRecord) (registry : TenantRegistry) :
    List TenantRecord :=
  ((order.visit registry.byId).map Sigma.snd).insertionSort fun first second =>
    first.tenantId ≤ second.tenantId

def tenantEntry (record : TenantRecord) : AdminTenantRecord where
  tenantId := record.tenantId
  signingFp := record.signingFp
  rateCapacity := record.rateCapacity
  rateRefillPerSec := record.rateRefillPerSec
  registeredAtUnixNs := record.registeredAtUnixNs

def adminListTenants (config : AdminConfig) (order : IterationOrder TenantId TenantRecord) :
    Process RegistryStore WireEnvelope :=
  if config.tenantsPath.isEmpty then
    return tenantsNotConfigured.envelope
  else do
    let text ← readRegistry
    match text.bind TenantRegistry.loadFromText with
    | .ok registry => return .adminTenantList ((sortedTenants order registry).map tenantEntry)
    | .error error =>
        return .adminError (String.ofList ("load tenants: ".toList ++ error.text))

/-- The answer to the request of a session. -/
def AdminServer.serve (server : AdminServer) : WireEnvelope → Process AdminState WireEnvelope
  | .adminListAgents => onEnrollment do
      match ← adminListAgents server.floats server.agentsOrder with
      | .ok entries => return .adminAgentList entries
      | .error reason => return .adminError (String.ofList reason)
  | .adminGetLogRoot =>
      .look fun state =>
        .adminLogRoot (state.log.root server.crypto) (UInt64.ofNat state.log.len)
  | .adminEnrollAgent record => onEnrollment do
      let reply ← adminEnrollAgent server.config
        ⟨record.runnerId, record.signingFp, record.vrfFp⟩ record.enrolledAtUnixNs
        record.initialReputationThousandths
      return reply.envelope
  | .adminRevokeAgent runnerId => onEnrollment do
      let reply ← adminRevokeAgent runnerId
      return reply.envelope
  | .adminListTenants => onTenants (adminListTenants server.config server.tenantsOrder)
  | .adminAddTenant record => onTenants do
      let reply ← adminAddTenant server.config
        ⟨record.tenantId, record.signingFp, record.rateCapacity, record.rateRefillPerSec,
          record.registeredAtUnixNs⟩
      return reply.envelope
  | .adminRevokeTenant tenantId => onTenants do
      let reply ← adminRevokeTenant server.config tenantId
      return reply.envelope
  | _ => return .adminError "unsupported admin operation"

/-- What a session meets: the messages that it reads, the clock when it checks the
greeting, and whether the welcome can be written. -/
structure AdminVisit where
  hello : Except Core.IoErrorKind WireEnvelope
  nowNs : UInt64
  welcomed : Bool
  request : Except Core.IoErrorKind WireEnvelope

/-- The greeting of an admin. -/
def adminHello (keypair : Keypair) (nowNs : UInt64) : WireEnvelope :=
  .adminHello keypair.verifyingKey nowNs
    (keypair.sign (adminHelloMessage adminHelloChallenge nowNs))

/-- The admin that a greeting is accepted from. -/
def AdminServer.authenticate (server : AdminServer) (visit : AdminVisit) : AdminAuthCheck :=
  match visit.hello with
  | .ok (.adminHello adminPubkey tsUnixNs signature) =>
      verifyAdminHello server.crypto server.adminKeys adminPubkey tsUnixNs signature
        adminHelloChallenge adminHelloFreshnessNs visit.nowNs
  | _ => .unauthorized

/-- `handle_admin_client`, with the messages that it writes. -/
def AdminServer.handleAdminClient (server : AdminServer) (visit : AdminVisit) :
    Process AdminState (List WireEnvelope) :=
  match visit.hello with
  | .error _ => return []
  | .ok (.adminHello _ _ _) =>
      match server.authenticate visit with
      | .unauthorized => return [.adminError "unauthorized"]
      | .ok _ =>
          if !visit.welcomed then
            return []
          else
            match visit.request with
            | .error _ => return [.adminWelcome]
            | .ok request => do
                let response ← server.serve request
                return [.adminWelcome, response]
  | .ok _ => return [.adminError "expected AdminHello"]

/-- The requests that change a registry. -/
def changesRegistry : WireEnvelope → Bool
  | .adminEnrollAgent _ => true
  | .adminRevokeAgent _ => true
  | .adminAddTenant _ => true
  | .adminRevokeTenant _ => true
  | _ => false

/-- The greeting of the session was accepted, and its request changes a registry. -/
def AdminServer.acts (server : AdminServer) (visit : AdminVisit) : Bool :=
  server.authenticate visit ≠ .unauthorized && visit.welcomed &&
    match visit.request with
    | .ok request => changesRegistry request
    | .error _ => false

/-! ## Sessions that change nothing -/

theorem silent_onEnrollment {process : Process RegistryStore α} (silent : process.Silent) :
    (onEnrollment process).Silent :=
  silent.within fun _ => rfl

theorem silent_onTenants {process : Process RegistryStore α} (silent : process.Silent) :
    (onTenants process).Silent :=
  silent.within fun _ => rfl

theorem silent_readRegistry : readRegistry.Silent :=
  Process.silent_look _

theorem silent_adminListAgents (floats : ReputationLibrary)
    (order : IterationOrder RunnerId Enrollment) : (adminListAgents floats order).Silent := by
  apply silent_readRegistry.bind
  intro text
  split <;> exact Process.silent_pure _

theorem silent_adminListTenants (config : AdminConfig)
    (order : IterationOrder TenantId TenantRecord) : (adminListTenants config order).Silent := by
  unfold adminListTenants
  split
  · exact Process.silent_pure _
  · apply silent_readRegistry.bind
    intro text
    split <;> exact Process.silent_pure _

/-- Only four requests change anything. -/
theorem AdminServer.silent_serve (server : AdminServer) {request : WireEnvelope}
    (quiet : changesRegistry request = false) : (server.serve request).Silent := by
  cases request with
  | adminListAgents =>
      apply silent_onEnrollment
      apply (silent_adminListAgents _ _).bind
      intro entries
      split <;> exact Process.silent_pure _
  | adminGetLogRoot => exact Process.silent_look _
  | adminListTenants => exact silent_onTenants (silent_adminListTenants _ _)
  | adminEnrollAgent | adminRevokeAgent | adminAddTenant | adminRevokeTenant => cases quiet
  | _ => exact Process.silent_pure _

theorem AdminServer.silent_handleAdminClient (server : AdminServer) {visit : AdminVisit}
    (quiet : server.acts visit = false) : (server.handleAdminClient visit).Silent := by
  unfold handleAdminClient
  split
  · exact Process.silent_pure _
  · split
    · exact Process.silent_pure _
    · next accepted =>
        split
        · exact Process.silent_pure _
        · next welcomed =>
            split
            · exact Process.silent_pure _
            · next request found =>
                apply Process.Silent.bind
                · apply server.silent_serve
                  have written : visit.welcomed = true := by simpa using welcomed
                  simpa [acts, accepted, found, written] using quiet
                · exact fun response => Process.silent_pure _
  · exact Process.silent_pure _

/-! ## All sessions together -/

section Sessions

variable {ι β : Type} [DecidableEq ι] [DecidableEq β]

/-- Sessions, next to whatever else uses the files and the log. -/
def adminThreads (server : AdminServer) (visit : ι → AdminVisit)
    (background : β → Process AdminState (List WireEnvelope)) (state : AdminState) :
    Threads (ι ⊕ β) Unit AdminState (List WireEnvelope) where
  objects _ := state
  process := Sum.elim (fun session => server.handleAdminClient (visit session)) background

/-- The threads that can be noticed. -/
def AdminServer.noticeable (server : AdminServer) (visit : ι → AdminVisit) : ι ⊕ β → Bool :=
  Sum.elim (fun session => server.acts (visit session)) fun _ => true

/-- What the coordinator writes to a client that it does not know. -/
def rejections : List (List WireEnvelope) :=
  [[], [.adminError "unauthorized"], [.adminError "expected AdminHello"]]

theorem AdminServer.handleAdminClient_of_unauthorized (server : AdminServer)
    {visit : AdminVisit} (unknown : server.authenticate visit = .unauthorized) :
    ∃ replies ∈ rejections, server.handleAdminClient visit = .done replies := by
  unfold handleAdminClient
  split
  · exact ⟨_, List.mem_cons_self, rfl⟩
  · rw [unknown]
    exact ⟨_, List.mem_cons_of_mem _ List.mem_cons_self, rfl⟩
  · exact ⟨_, List.mem_cons_of_mem _ (List.mem_cons_of_mem _ List.mem_cons_self), rfl⟩

/-- The greeting of a session is fresh, and signed with a key of the allowlist. -/
def AdminServer.Signed (server : AdminServer) (allowed : List AdminRecord)
    (visit : AdminVisit) : Prop :=
  ∃ adminPubkey tsUnixNs signature, visit.hello = .ok (.adminHello adminPubkey tsUnixNs signature) ∧
    (∃ record ∈ allowed, record.signingFp = server.crypto.sha256 adminPubkey.toList) ∧
    server.crypto.verify adminPubkey (adminHelloMessage adminHelloChallenge tsUnixNs) signature =
      true ∧
    absDiff visit.nowNs tsUnixNs ≤ adminHelloFreshnessNs

theorem AdminServer.signed_of_authenticate {server : AdminServer} {allowed : List AdminRecord}
    (known : ∀ fp record, server.adminKeys.get fp = some record →
      record ∈ allowed ∧ record.signingFp = fp)
    {visit : AdminVisit} (accepted : server.authenticate visit ≠ .unauthorized) :
    server.Signed allowed visit := by
  unfold authenticate at accepted
  split at accepted
  · next adminPubkey tsUnixNs signature hello =>
      cases verdict : verifyAdminHello server.crypto server.adminKeys adminPubkey tsUnixNs
          signature adminHelloChallenge adminHelloFreshnessNs visit.nowNs with
      | unauthorized => exact absurd verdict accepted
      | ok adminId =>
          obtain ⟨fresh, listed, -, verified⟩ := verifyAdminHello_eq_ok_iff.mp verdict
          obtain ⟨record, found, -⟩ := Option.map_eq_some_iff.mp listed
          exact ⟨adminPubkey, tsUnixNs, signature, hello,
            ⟨record, known _ _ found⟩, verified, fresh⟩
  · exact absurd rfl accepted

/-- In every interleaving, the registries, the log and what all other threads do are as if
only those sessions had been there whose request changes a registry and whose greeting is
fresh and signed with a key in the allowlist file.  A client that is not accepted learns
nothing but that. -/
theorem admin_sessions_isolated (server : AdminServer) (text : List Char)
    (load : AdminKeySet.loadFromText text = .ok server.adminKeys) (visit : ι → AdminVisit)
    (background : β → Process AdminState (List WireEnvelope)) (state : AdminState)
    (schedule : List (ι ⊕ β)) :
    let run := (adminThreads server visit background state).run fun _ => ()
    let others := schedule.filter (server.noticeable visit)
    ((run schedule).objects () = (run others).objects () ∧
        ∀ thread, server.noticeable visit thread = true →
          (run schedule).result thread = (run others).result thread) ∧
      (∃ allowed, adminKeysFormat.Holds (textLines text) allowed ∧
        ∀ session, server.acts (visit session) = true → server.Signed allowed (visit session)) ∧
      ∀ session, server.authenticate (visit session) = .unauthorized →
        ∃ replies ∈ rejections, (run schedule).result (.inl session) = some replies := by
  intro run others
  have silent : ∀ thread, server.noticeable visit thread = false →
      ((adminThreads server visit background state).process thread).Silent := by
    intro thread quiet
    cases thread with
    | inl session => exact server.silent_handleAdminClient quiet
    | inr thread => cases quiet
  have unnoticed := (Threads.unnoticed_self silent).run (fun _ => ()) schedule
  refine ⟨⟨congrFun unnoticed.objects (), fun thread kept =>
    congrArg Process.result (unnoticed.process thread kept)⟩, ?_, ?_⟩
  · obtain ⟨allowed, holds, known⟩ := AdminKeySet.mem_of_loadFromText load
    refine ⟨allowed, holds, fun session acting => server.signed_of_authenticate known ?_⟩
    rw [AdminServer.acts, Bool.and_eq_true, Bool.and_eq_true, decide_eq_true_eq] at acting
    exact acting.1.1
  · intro session unknown
    obtain ⟨replies, allowed, done⟩ := server.handleAdminClient_of_unauthorized unknown
    exact ⟨replies, allowed, Threads.result_run_of_done done schedule⟩

end Sessions

/-- A coordinator with one admin and no files. -/
def sampleServer : AdminServer where
  crypto := modelCrypto
  adminKeys := ⟨AList.singleton (modelHash (sampleEntry 1).toList)
    ⟨1, modelHash (sampleEntry 1).toList, 0⟩⟩
  floats := wholeFloats
  tenantsPath := "tenants.txt".toList
  hasAuthState := true
  agentsOrder := .stored
  tenantsOrder := .stored

def withoutFiles : AdminState :=
  ⟨storeOf none, storeOf none, .mem ⟨[], ()⟩⟩

/-- The allowlist of that coordinator. -/
def soleAdminText : List Char :=
  showId 1 ++ ' ' :: fingerprintHex (modelHash (sampleEntry 1).toList) ++ ' ' :: showId 0

/-- The admin adds a tenant, and somebody else tries to. -/
def twoVisits (session : Fin 2) : AdminVisit where
  hello := .ok (adminHello (modelKeypair (if session = 0 then sampleEntry 1 else sampleEntry 2))
    1000)
  nowNs := 2000
  welcomed := true
  request := .ok (.adminAddTenant (tenantEntry newTenant))

theorem admin_sessions_isolated_two :
    let run := (adminThreads sampleServer twoVisits Empty.elim withoutFiles).run fun _ => ()
    let both := .inl 1 :: .inl 0 :: .inl 1 :: List.replicate 7 (.inl 0)
    (run both).objects () = (run (List.replicate 8 (.inl 0))).objects () ∧
      (run both).result (.inl 0) = some [.adminWelcome, .adminAddTenantAck] := by
  intro run both
  obtain ⟨⟨objects, results⟩, -⟩ := admin_sessions_isolated sampleServer soleAdminText rfl
    twoVisits Empty.elim withoutFiles both
  have admin : both.filter (sampleServer.noticeable twoVisits) = List.replicate 8 (.inl 0) := by
    decide +kernel
  rw [admin] at objects results
  refine ⟨objects, (results (.inl 0) ?_).trans ?_⟩
  · decide +kernel
  · decide +kernel

end Cosaci.Coordinator
