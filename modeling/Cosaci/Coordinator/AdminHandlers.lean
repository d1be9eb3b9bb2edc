import Cosaci.Coordinator.RegistryFiles
import Cosaci.Foundation.Process

/-!
# Admin handlers

Every admin connection is served by a thread of its own.  A request that changes a
registry reads the file, writes the new text to a temporary file, whose name is the same
for all threads, and renames it over the old one; each of these is one atomic operation
of the file system, and no lock is held around them.  Requests for one file that do not
overlap are served as if one after the other.
-/

namespace Cosaci.Coordinator

open Foundation Cosaci.Core State

/-! ## The files -/

/-- The files behind one registry path and its temporary name, and the tenants that the
gate knows. -/
structure RegistryStore where
  /-- The contents of all files, also of those that have lost their name. -/
  inodes : List (List UInt8)
  published : Option Nat
  temp : Option Nat
  /-- The registry in the auth state; only the one of tenants is kept there. -/
  installed : TenantRegistry
  published_lt : ∀ inode ∈ published, inode < inodes.length
  temp_lt : ∀ inode ∈ temp, inode < inodes.length
  apart : ∀ inode ∈ temp, inode ∉ published

namespace RegistryStore

/-- The content of the file under the registry path. -/
def contents (store : RegistryStore) : Option (List UInt8) :=
  store.published.map fun inode => store.inodes.getD inode []

def readToString (store : RegistryStore) : Except IoError (List Char) :=
  match store.contents with
  | none => .error .noSuchFile
  | some bytes => okOr .notUtf8 (utf8Decode bytes)

/-- Open the temporary file, empty. -/
def create (store : RegistryStore) : Nat × RegistryStore :=
  match opened : store.temp with
  | some inode => (inode,
      { store with
        inodes := store.inodes.set inode []
        published_lt := by simpa using store.published_lt
        temp_lt := by simpa using store.temp_lt })
  | none => (store.inodes.length,
      { store with
        inodes := store.inodes ++ [[]]
        temp := some store.inodes.length
        published_lt := by
          intro inode found
          have bound := store.published_lt inode found
          rw [List.length_append]
          exact Nat.lt_add_right _ bound
        temp_lt := by simp
        apart := by
          intro inode found published
          have bound := store.published_lt inode published
          rw [← Option.some.inj found] at bound
          exact Nat.lt_irrefl _ bound })

/-- Write to an open file from its beginning. -/
def writeAll (store : RegistryStore) (inode : Nat) (bytes : List UInt8) : RegistryStore :=
  { store with
    inodes := store.inodes.modify inode fun old => bytes ++ old.drop bytes.length
    published_lt := by simpa using store.published_lt
    temp_lt := by simpa using store.temp_lt }

/-- Rename the temporary file over the registry file. -/
def rename (store : RegistryStore) : Except IoError Unit × RegistryStore :=
  match renamed : store.temp with
  | none => (.error .noSuchFile, store)
  | some inode => (.ok (),
      { store with
        published := some inode
        temp := none
        published_lt := by
          intro other found
          rw [← Option.some.inj found]
          exact store.temp_lt inode renamed
        temp_lt := nofun
        apart := nofun })

def install (store : RegistryStore) (registry : TenantRegistry) : RegistryStore :=
  { store with installed := registry }

end RegistryStore

/-! ## Requests -/

/-- What the handlers are started with. -/
structure AdminConfig where
  floats : FloatLibrary
  tenantsPath : List Char
  hasAuthState : Bool

inductive RegistryKind where
  | enrollment
  | tenants
  deriving DecidableEq, Repr

/-- The requests that change a registry. -/
inductive AdminRequest where
  | enrollAgent (record : EnrolledRecord) (enrolledAtUnixNs : Int64)
      (initialReputationThousandths : UInt32)
  | revokeAgent (runnerId : RunnerId)
  | addTenant (record : TenantRecord)
  | revokeTenant (tenantId : TenantId)

def AdminRequest.registry : AdminRequest → RegistryKind
  | .enrollAgent _ _ _ => .enrollment
  | .revokeAgent _ => .enrollment
  | .addTenant _ => .tenants
  | .revokeTenant _ => .tenants

inductive AdminReply where
  | enrollAck
  | revokeAck
  | addTenantAck
  | revokeTenantAck
  | error (reason : List Char)
  deriving DecidableEq

def AdminReply.isAck : AdminReply → Bool
  | .error _ => false
  | _ => true

/-! ## Handlers -/

def readRegistry : Process RegistryStore (Except IoError (List Char)) :=
  .look RegistryStore.readToString

/-- Replace the file through the temporary one. -/
def writeAtomic (content : List Char) : Process RegistryStore (Except IoError Unit) := do
  let file ← .atomic RegistryStore.create
  .atomic fun store => ((), store.writeAll file (utf8 content))
  .atomic RegistryStore.rename

/-- Append a line; the file is read once more for it. -/
def appendAtomic (line : List Char) : Process RegistryStore (Except IoError Unit) := do
  let found ← .look fun store => store.published.isSome
  let existing ← if found then readRegistry else pure (.ok [])
  match existing with
  | .error error => return .error error
  | .ok text => writeAtomic (appendLine text line)

/-- Load the tenants again for the gate, which keeps its registry if that fails. -/
def reloadTenantsInState (config : AdminConfig) : Process RegistryStore Bool :=
  if config.hasAuthState then do
    let text ← readRegistry
    match text.bind TenantRegistry.loadFromText with
    | .ok registry =>
        .atomic fun store => ((), store.install registry)
        return true
    | .error _ => return false
  else
    return false

/-- The end of a request: write the new text, reload the tenants if they have changed, and
acknowledge. -/
def publish (write : Process RegistryStore (Except IoError Unit)) (failed : List Char)
    (reload : Process RegistryStore Bool) (ack : AdminReply) :
    Process RegistryStore AdminReply := do
  let written ← write
  match written with
  | .error error => return .error (failed ++ error.text)
  | .ok () =>
      let _reloaded ← reload
      return ack

def adminEnrollAgent (config : AdminConfig) (record : EnrolledRecord)
    (enrolledAtUnixNs : Int64) (initialReputationThousandths : UInt32) :
    Process RegistryStore AdminReply := do
  let text ← readRegistry
  match text.bind (EnrollmentSet.parse config.floats) with
  | .error error => return .error ("load enrollment: ".toList ++ error.text)
  | .ok existing =>
      if (existing.records.lookup record.runnerId).isSome then
        return .error ("runner_id ".toList ++ showId record.runnerId ++
          " already enrolled".toList)
      else
        publish (appendAtomic (enrollmentLine config.floats record enrolledAtUnixNs
          initialReputationThousandths)) "write enrollment: ".toList (pure false) .enrollAck

def adminRevokeAgent (runnerId : RunnerId) : Process RegistryStore AdminReply := do
  let original ← readRegistry
  match original with
  | .error error => return .error ("read enrollment: ".toList ++ error.text)
  | .ok text =>
      match revokeLines runnerId text with
      | none => return .error ("runner_id ".toList ++ showId runnerId ++ " not enrolled".toList)
      | some out =>
          publish (writeAtomic out) "write enrollment: ".toList (pure false) .revokeAck

/-- The answer without a tenants file. -/
def tenantsNotConfigured : AdminReply :=
  .error "tenants registry not configured (--tenants is empty)".toList

/-- A missing file stands for no tenants. -/
def emptyIfMissing : Except IoError TenantRegistry → Except IoError TenantRegistry
  | .ok registry => .ok registry
  | .error error => if error.kind = .notFound then .ok ⟨∅⟩ else .error error

def adminAddTenant (config : AdminConfig) (record : TenantRecord) :
    Process RegistryStore AdminReply :=
  if config.tenantsPath.isEmpty then
    return tenantsNotConfigured
  else do
    let text ← readRegistry
    match emptyIfMissing (text.bind TenantRegistry.loadFromText) with
    | .error error => return .error ("load tenants: ".toList ++ error.text)
    | .ok existing =>
        if (existing.get record.tenantId).isSome then
          return .error ("tenant_id ".toList ++ showId record.tenantId ++
            " already registered".toList)
        else
          publish (appendAtomic (tenantLine record)) "write tenants: ".toList
            (reloadTenantsInState config) .addTenantAck

def adminRevokeTenant (config : AdminConfig) (tenantId : TenantId) :
    Process RegistryStore AdminReply :=
  if config.tenantsPath.isEmpty then
    return tenantsNotConfigured
  else do
    let original ← readRegistry
    match original with
    | .error error => return .error ("read tenants: ".toList ++ error.text)
    | .ok text =>
        match revokeLines tenantId text with
        | none =>
            return .error ("tenant_id ".toList ++ showId tenantId ++ " not registered".toList)
        | some out =>
            publish (writeAtomic out) "write tenants: ".toList (reloadTenantsInState config)
              .revokeTenantAck

def handleAdmin (config : AdminConfig) : AdminRequest → Process RegistryStore AdminReply
  | .enrollAgent record enrolledAtUnixNs initialReputationThousandths =>
      adminEnrollAgent config record enrolledAtUnixNs initialReputationThousandths
  | .revokeAgent runnerId => adminRevokeAgent runnerId
  | .addTenant record => adminAddTenant config record
  | .revokeTenant tenantId => adminRevokeTenant config tenantId

/-! ## One request on its own -/

/-- On its own, replacing the file succeeds. -/
theorem run_writeAtomic (content : List Char) (store : RegistryStore) :
    ((writeAtomic content).run store).1 = .ok () := by
  have opened : store.create.2.temp = some store.create.1 := by
    unfold RegistryStore.create
    split
    · next inode found => exact found
    · rfl
  simp only [writeAtomic, Process.run_bind, Process.run_atomic]
  unfold RegistryStore.rename
  split
  · next missing =>
      rw [RegistryStore.writeAll] at missing
      rw [opened] at missing
      cases missing
  · rfl

/-- On its own, a request that is not acknowledged changes nothing. -/
def Harmless (process : Process RegistryStore AdminReply) : Prop :=
  ∀ store, (process.run store).1.isAck = false → (process.run store).2 = store

theorem harmless_pure (reply : AdminReply) : Harmless (pure reply) :=
  fun _ _ => rfl

theorem harmless_read {rest : Except IoError (List Char) → Process RegistryStore AdminReply}
    (harmless : ∀ text, Harmless (rest text)) : Harmless (readRegistry >>= rest) := by
  intro store refused
  rw [Process.run_bind] at refused ⊢
  exact harmless _ store refused

/-- A change that is not written is not acknowledged, and only then. -/
theorem harmless_publish {write : Process RegistryStore (Except IoError Unit)}
    {failed : List Char} {reload : Process RegistryStore Bool} {ack : AdminReply}
    (acknowledges : ack.isAck = true)
    (written : ∀ store, (write.run store).1 = .ok () ∨ (write.run store).2 = store) :
    Harmless (publish write failed reload ack) := by
  intro store refused
  unfold publish at refused ⊢
  rw [Process.run_bind] at refused ⊢
  cases outcome : (write.run store).1 with
  | error error =>
      rcases written store with success | unchanged
      · rw [success] at outcome
        cases outcome
      · exact unchanged
  | ok value =>
      rw [outcome] at refused
      simp only [Process.run_bind, Process.run_pure, acknowledges] at refused
      cases refused

theorem run_appendAtomic (line : List Char) (store : RegistryStore) :
    ((appendAtomic line).run store).1 = .ok () ∨ ((appendAtomic line).run store).2 = store := by
  have reading : ∀ existing : Process RegistryStore (Except IoError (List Char)),
      (existing.run store).2 = store →
      ((existing >>= fun text => match text with
        | .error error => pure (.error error)
        | .ok text => writeAtomic (appendLine text line)).run store).1 = .ok () ∨
      ((existing >>= fun text => match text with
        | .error error => pure (.error error)
        | .ok text => writeAtomic (appendLine text line)).run store).2 = store := by
    intro existing unchanged
    rw [Process.run_bind, unchanged]
    cases (existing.run store).1 with
    | error error => exact Or.inr rfl
    | ok text => exact Or.inl (run_writeAtomic _ store)
  unfold appendAtomic
  rw [Process.run_bind, Process.run_look]
  cases store.published.isSome with
  | false => exact reading (pure (.ok [])) rfl
  | true => exact reading readRegistry rfl

theorem harmless_handleAdmin (config : AdminConfig) (request : AdminRequest) :
    Harmless (handleAdmin config request) := by
  cases request with
  | enrollAgent record enrolledAtUnixNs initialReputationThousandths =>
      apply harmless_read
      intro text
      split
      · exact harmless_pure _
      · split
        · exact harmless_pure _
        · exact harmless_publish rfl (run_appendAtomic _)
  | revokeAgent runnerId =>
      apply harmless_read
      intro text
      split
      · exact harmless_pure _
      · split
        · exact harmless_pure _
        · exact harmless_publish rfl fun store => Or.inl (run_writeAtomic _ store)
  | addTenant record =>
      simp only [handleAdmin, adminAddTenant]
      split
      · exact harmless_pure _
      · apply harmless_read
        intro text
        split
        · exact harmless_pure _
        · split
          · exact harmless_pure _
          · exact harmless_publish rfl (run_appendAtomic _)
  | revokeTenant tenantId =>
      simp only [handleAdmin, adminRevokeTenant]
      split
      · exact harmless_pure _
      · apply harmless_read
        intro text
        split
        · exact harmless_pure _
        · split
          · exact harmless_pure _
          · exact harmless_publish rfl fun store => Or.inl (run_writeAtomic _ store)

/-! ## Concurrent sessions -/

section Sessions

variable {ι : Type} [DecidableEq ι] (config : AdminConfig) (request : ι → AdminRequest)

/-- The file that a session works on. -/
def sessionRegistry (session : ι) : RegistryKind :=
  (request session).registry

/-- The sessions before any of them has begun. -/
def sessions (stores : RegistryKind → RegistryStore) :
    Threads ι RegistryKind RegistryStore AdminReply :=
  ⟨stores, fun session => handleAdmin config (request session)⟩

/-- The registries after the sessions have been served one after the other. -/
def served (stores : RegistryKind → RegistryStore) (order : List ι) :
    Threads.Serial ι RegistryKind RegistryStore AdminReply :=
  .run (sessionRegistry request) (fun session => handleAdmin config (request session)) stores
    order

/-- If no session takes a step on a registry file while another one is under way on the
same file, then the registries end up as if the acknowledged requests had been served one
after the other, in some order, and each of them is acknowledged there. -/
theorem admin_updates_serializable (stores : RegistryKind → RegistryStore) {schedule : List ι}
    (exclusive : Threads.Exclusive (sessionRegistry request) (sessions config request stores)
      schedule)
    (finished : ∀ session ∈ schedule, (((sessions config request stores).run
      (sessionRegistry request) schedule).result session).isSome) :
    ∃ order : List ι, order.Nodup ∧
      (∀ session, session ∈ order ↔ session ∈ schedule ∧
        (((sessions config request stores).run (sessionRegistry request) schedule).result
          session).any AdminReply.isAck = true) ∧
      ((sessions config request stores).run (sessionRegistry request) schedule).objects =
        (served config request stores order).objects ∧
      ∀ session ∈ order, (served config request stores order).results session =
        ((sessions config request stores).run (sessionRegistry request) schedule).result
          session := by
  obtain ⟨order, nodup, members, objects, results⟩ := Threads.serializable exclusive finished
  have harmless : ∀ session store,
      (((sessions config request stores).process session).run store).1.isAck = false →
        (((sessions config request stores).process session).run store).2 = store :=
    fun session => harmless_handleAdmin config (request session)
  obtain ⟨sameObjects, sameResults⟩ := Threads.Serial.run_kept (sessionRegistry request)
    (sessions config request stores).process harmless stores nodup
  refine ⟨_, nodup.filter _, ?_, objects.trans sameObjects.symm, ?_⟩
  · intro session
    rw [List.mem_filter, members session]
    constructor
    · rintro ⟨scheduled, acknowledged⟩
      exact ⟨scheduled, by rw [results session scheduled]; exact acknowledged⟩
    · rintro ⟨scheduled, acknowledged⟩
      rw [results session scheduled] at acknowledged
      exact ⟨scheduled, acknowledged⟩
  · intro session member
    have scheduled := (members session).mp (List.mem_of_mem_filter member)
    rw [results session scheduled]
    exact sameResults session member

end Sessions

/-! ## Two sessions -/

/-- A stand-in that knows one number. -/
def unitFloats : FloatLibrary where
  F32 := Unit
  parse _ := .ok ()
  display _ := "1".toList
  thousandths _ := ()
  inUnit _ := true

def tenantsConfig : AdminConfig where
  floats := unitFloats
  tenantsPath := "tenants.txt".toList
  hasAuthState := true

/-- A registry whose file holds the text, if there is one. -/
def storeOf (text : Option (List Char)) : RegistryStore where
  inodes := text.toList.map utf8
  published := text.map fun _ => 0
  temp := none
  installed := ⟨∅⟩
  published_lt := by
    cases text with
    | none => nofun
    | some text => simp
  temp_lt := nofun
  apart := nofun

/-- No tenants, and a file with the lines of two agents. -/
def initialStores : RegistryKind → RegistryStore
  | .enrollment => storeOf (some "5 a\n6 b\n".toList)
  | .tenants => storeOf none

/-- Two sessions revoke an agent, and one adds a tenant. -/
def threeRequests : Fin 3 → AdminRequest
  | 0 => .revokeAgent 5
  | 1 => .addTenant ⟨1, List.Vector.replicate 32 0, 10, 1, 0⟩
  | 2 => .revokeAgent 6

/-- The sessions that revoke an agent are served one after the other, while the third one
is under way. -/
def exclusiveSchedule : List (Fin 3) :=
  [0, 1, 0, 1, 0, 1, 0, 1, 2, 1, 2, 1, 2, 1, 2]

/-- The sessions that revoke an agent both read the file before either of them writes. -/
def overlappingSchedule : List (Fin 3) :=
  [0, 2, 0, 0, 0, 2, 2, 2]

theorem admin_updates_serializable_three :
    ∃ order : List (Fin 3), order.Nodup ∧ (∀ session, session ∈ order) ∧
      ((sessions tenantsConfig threeRequests initialStores).run
          (sessionRegistry threeRequests) exclusiveSchedule).objects =
        (served tenantsConfig threeRequests initialStores order).objects := by
  have exclusive : Threads.Exclusive (sessionRegistry threeRequests)
      (sessions tenantsConfig threeRequests initialStores) exclusiveSchedule := by
    decide +kernel
  have replies : ∀ session ∈ exclusiveSchedule, (((sessions tenantsConfig threeRequests
      initialStores).run (sessionRegistry threeRequests) exclusiveSchedule).result
        session).any AdminReply.isAck = true := by
    decide +kernel
  have finished : ∀ session ∈ exclusiveSchedule, (((sessions tenantsConfig threeRequests
      initialStores).run (sessionRegistry threeRequests) exclusiveSchedule).result
        session).isSome := by
    intro session scheduled
    obtain ⟨reply, replied, -⟩ := (Option.any_eq_true _ _).mp (replies session scheduled)
    exact Option.isSome_of_eq_some replied
  obtain ⟨order, nodup, members, objects, -⟩ := admin_updates_serializable tenantsConfig
    threeRequests initialStores exclusive finished
  refine ⟨order, nodup, fun session => ?_, objects⟩
  have scheduled : ∀ session : Fin 3, session ∈ exclusiveSchedule := by decide
  exact (members session).mpr ⟨scheduled session, replies session (scheduled session)⟩

/-- Both revocations are acknowledged, but one of the agents stays in the file, while one
after the other, in either order, both would have been removed. -/
theorem concurrent_revocation_lost :
    ((sessions tenantsConfig threeRequests initialStores).run (sessionRegistry threeRequests)
        overlappingSchedule).result 0 = some .revokeAck ∧
      ((sessions tenantsConfig threeRequests initialStores).run (sessionRegistry threeRequests)
        overlappingSchedule).result 2 = some .revokeAck ∧
      (((sessions tenantsConfig threeRequests initialStores).run
        (sessionRegistry threeRequests) overlappingSchedule).objects .enrollment).contents =
          some (utf8 "5 a\n".toList) ∧
      ((served tenantsConfig threeRequests initialStores [0, 2]).objects .enrollment).contents =
        some [] ∧
      ((served tenantsConfig threeRequests initialStores [2, 0]).objects .enrollment).contents =
        some [] := by
  decide +kernel

end Cosaci.Coordinator
