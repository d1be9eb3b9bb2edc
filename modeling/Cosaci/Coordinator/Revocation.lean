import Cosaci.Coordinator.AdminHandlers

/-!
# When a revocation takes effect

A tenant is revoked by rewriting the tenants file and loading it again for the gate.  The
thread that reloads the file on SIGHUP does the same in two steps of its own: it loads
the file, and then takes the lock and installs what it has loaded.  Submissions are
answered with whatever registry is installed.
-/

namespace Cosaci.Coordinator

open Foundation Cosaci.Core State

/-! ## The handler under interference -/

variable {store : RegistryStore}

namespace RegistryStore

/-- The environment may install other registries, and leaves the files alone. -/
def Reinstalled (before after : RegistryStore) : Prop :=
  ∃ registry, after = before.install registry

theorem Reinstalled.trans {first second third : RegistryStore}
    (early : Reinstalled first second) (late : Reinstalled second third) :
    Reinstalled first third := by
  obtain ⟨_, rfl⟩ := early
  obtain ⟨registry, rfl⟩ := late
  exact ⟨registry, rfl⟩

/-- The temporary file is open and holds these bytes. -/
def Holds (store : RegistryStore) (inode : Nat) (bytes : List UInt8) : Prop :=
  store.temp = some inode ∧ store.inodes[inode]? = some bytes

variable {inode : Nat}

theorem Holds.reinstalled {before after : RegistryStore} {bytes : List UInt8}
    (holds : before.Holds inode bytes) (interfered : Reinstalled before after) :
    after.Holds inode bytes := by
  obtain ⟨registry, rfl⟩ := interfered
  exact holds

theorem holds_create (store : RegistryStore) : store.create.2.Holds store.create.1 [] := by
  unfold create
  split
  · next inode opened =>
      exact ⟨opened, by simp [store.temp_lt inode opened]⟩
  · exact ⟨rfl, by simp⟩

theorem Holds.writeAll (holds : store.Holds inode []) (bytes : List UInt8) :
    (store.writeAll inode bytes).Holds inode bytes := by
  refine ⟨holds.1, ?_⟩
  simp [RegistryStore.writeAll, holds.2]

theorem Holds.rename {bytes : List UInt8} (holds : store.Holds inode bytes) :
    store.rename.2.contents = some bytes := by
  unfold RegistryStore.rename
  split
  · next missing =>
      rw [holds.1] at missing
      cases missing
  · next found renamed =>
      rw [holds.1] at renamed
      cases renamed
      simp [contents, List.getD_eq_getElem?_getD, holds.2]

theorem readToString_of_contents {text : List Char} (holds : store.contents = some (utf8 text)) :
    store.readToString = .ok text := by
  simp only [readToString, holds, utf8Decode_utf8, okOr]

/-- The file, if it can be loaded at all, does not register the tenant. -/
def Unlisted (store : RegistryStore) (tenantId : TenantId) : Prop :=
  ∀ registry, store.readToString.bind TenantRegistry.loadFromText = .ok registry →
    registry.get tenantId = none

end RegistryStore

open RegistryStore (Reinstalled)

theorem ensures_writeAtomic (content : List Char) (store : RegistryStore) :
    (writeAtomic content).Ensures Reinstalled
      (fun result written => result = .ok () → written.readToString = .ok content) store := by
  refine Process.ensures_bind (Process.ensures_atomic fun found _ => ?_)
  have created := found.holds_create
  refine Process.ensures_bind (Process.ensures_atomic fun opened interfered => ?_)
  have written := (created.reinstalled interfered).writeAll (utf8 content)
  refine Process.ensures_atomic fun closed interfered _ => ?_
  exact RegistryStore.readToString_of_contents (written.reinstalled interfered).rename

/-- With a file that loads, the gate gets the registry of that file. -/
theorem ensures_reloadTenantsInState {config : AdminConfig} (present : config.hasAuthState = true)
    {content : List Char} {registry : TenantRegistry}
    (loads : TenantRegistry.loadFromText content = .ok registry)
    (written : store.readToString = .ok content) :
    (reloadTenantsInState config).Ensures Reinstalled
      (fun _ reloaded => reloaded.readToString = .ok content ∧ reloaded.installed = registry)
      store := by
  unfold reloadTenantsInState
  rw [if_pos present]
  refine Process.ensures_bind (Process.ensures_look fun found interfered => ?_)
  obtain ⟨other, rfl⟩ := interfered
  have read : (store.install other).readToString.bind TenantRegistry.loadFromText =
      .ok registry :=
    (congrArg (Except.bind · _) written).trans loads
  rw [read]
  refine Process.ensures_bind (Process.ensures_atomic fun waiting interfered => ?_)
  obtain ⟨_, rfl⟩ := interfered
  exact ⟨written, rfl⟩

/-- What is known when the handler returns its reply. -/
def Revokes (tenantId : TenantId) (reply : AdminReply) (store : RegistryStore) : Prop :=
  reply = .revokeTenantAck →
    store.Unlisted tenantId ∧ store.installed.get tenantId = none

/-- When the handler acknowledges the revocation, neither the file nor the gate knows the
tenant, if what is left of the file loads. -/
theorem ensures_adminRevokeTenant {config : AdminConfig} (present : config.hasAuthState = true)
    {tenantId : TenantId}
    (loads : ∀ text rest, store.readToString = .ok text → revokeLines tenantId text = some rest →
      ∃ registry, TenantRegistry.loadFromText rest = .ok registry) :
    (adminRevokeTenant config tenantId).Ensures Reinstalled
      (Revokes tenantId) store := by
  unfold adminRevokeTenant
  split
  · exact nofun
  · refine Process.ensures_bind (Process.ensures_look fun found interfered => ?_)
    obtain ⟨_, rfl⟩ := interfered
    split
    · exact nofun
    · next text read =>
        split
        · exact nofun
        · next rest revoked =>
            obtain ⟨registry, loaded⟩ := loads text rest read revoked
            have absent := get_of_revokeLines revoked loaded
            refine Process.ensures_bind ((ensures_writeAtomic rest _).imp ?_)
            intro result written success
            cases result with
            | error error => exact nofun
            | ok value =>
                refine Process.ensures_bind
                  ((ensures_reloadTenantsInState present loaded (success rfl)).imp ?_)
                rintro _ reloaded ⟨kept, rfl⟩ _
                refine ⟨?_, absent⟩
                intro other load
                rw [kept] at load
                rw [Except.ok.inj (load.symm.trans loaded)]
                exact absent

/-! ## The handler, the reloader and the gate -/

/-- The tenants file and the registry of the gate, with the two threads that replace it. -/
structure RevocationState where
  store : RegistryStore
  handler : Process RegistryStore AdminReply
  /-- What the thread for SIGHUP has loaded and not yet installed. -/
  reloader : Option TenantRegistry
  gate : Gate

inductive RevocationEvent where
  /-- One step of the handler. -/
  | handler
  /-- The reloader loads the file. -/
  | reload
  /-- The reloader installs what it has loaded. -/
  | install
  | submission (call : GateCall)
  deriving DecidableEq

namespace RevocationState

variable (crypto : Crypto)

def step (state : RevocationState) : RevocationEvent → Option AuthCheck × RevocationState
  | .handler =>
      match state.handler with
      | .done _ => (none, state)
      | .act update next =>
          (none, { state with store := update state.store, handler := next state.store })
  | .reload =>
      match state.reloader, state.store.readToString.bind TenantRegistry.loadFromText with
      | none, .ok registry => (none, { state with reloader := some registry })
      -- A load that fails is only logged, and a thread that waits does not load again.
      | _, _ => (none, state)
  | .install =>
      match state.reloader with
      | none => (none, state)
      | some registry =>
          (none, { state with store := state.store.install registry, reloader := none })
  | .submission call =>
      let (verdict, gate) := Gate.step crypto state.store.installed state.gate call
      (some verdict, { state with gate := gate })

def machine : Machine RevocationState RevocationEvent (Option AuthCheck) where
  step := step crypto

/-- The verdict on a submission that names the tenant. -/
def verdictFor (tenantId : TenantId) :
    RevocationEvent → Option AuthCheck → Option AuthCheck
  | .submission call, verdict =>
      if call.submission.tenantId = tenantId then verdict else none
  | _, _ => none

/-- Neither the file nor the gate nor the reloader knows the tenant. -/
structure Forgotten (tenantId : TenantId) (state : RevocationState) : Prop where
  file : state.store.Unlisted tenantId
  gate : state.store.installed.get tenantId = none
  reloader : ∀ registry ∈ state.reloader, registry.get tenantId = none

variable {crypto} {tenantId : TenantId} {state : RevocationState}

theorem step_of_get_none {registry : TenantRegistry} {gate : Gate} {call : GateCall}
    (absent : registry.get call.submission.tenantId = none) :
    (Gate.step crypto registry gate call).1 = .unknownTenant := by
  have refused : Gate.identify crypto registry call = .error .unknownTenant := by
    simp only [Gate.identify, authenticate, absent]
  rw [Gate.step_eq, refused]

/-! ## Events -/

variable {reply : AdminReply}

/-- A handler that is done stays as it is. -/
theorem step_handler_of_done (ended : state.handler.result = some reply) :
    state.step crypto .handler = (none, state) := by
  cases process : state.handler with
  | done result => simp only [step, process]
  | act update next =>
      rw [process] at ended
      cases ended

theorem step_reload :
    ∃ reloader, state.step crypto .reload = (none, { state with reloader := reloader }) ∧
      ∀ registry ∈ reloader, registry ∈ state.reloader ∨
        state.store.readToString.bind TenantRegistry.loadFromText = .ok registry := by
  cases waiting : state.reloader with
  | some registry =>
      have stepped : state.step crypto .reload = (none, state) := by simp only [step, waiting]
      refine ⟨state.reloader, stepped, fun other held => Or.inl ?_⟩
      rw [← waiting]
      exact held
  | none =>
      cases loaded : state.store.readToString.bind TenantRegistry.loadFromText with
      | error error =>
          have stepped : state.step crypto .reload = (none, state) := by
            simp only [step, waiting, loaded]
          refine ⟨state.reloader, stepped, fun other held => ?_⟩
          rw [waiting] at held
          cases held
      | ok registry =>
          refine ⟨some registry, by simp only [step, waiting, loaded], fun other held => ?_⟩
          rw [Option.some.inj held]
          exact Or.inr rfl

theorem step_install :
    state.step crypto .install = (none, state) ∨
      ∃ registry ∈ state.reloader, state.step crypto .install =
        (none, { state with store := state.store.install registry, reloader := none }) := by
  cases waiting : state.reloader with
  | none => exact Or.inl (by simp only [step, waiting])
  | some registry => exact Or.inr ⟨registry, rfl, by simp only [step, waiting]⟩

/-! ## After the acknowledgement -/

/-- A forgotten tenant stays forgotten. -/
theorem Forgotten.step (forgotten : state.Forgotten tenantId)
    (ended : state.handler.result = some reply) (event : RevocationEvent) :
    (state.step crypto event).2.Forgotten tenantId := by
  cases event with
  | handler =>
      rw [step_handler_of_done ended]
      exact forgotten
  | reload =>
      obtain ⟨reloader, stepped, held⟩ : ∃ reloader, state.step crypto .reload = _ ∧ _ :=
        step_reload
      rw [stepped]
      refine ⟨forgotten.file, forgotten.gate, fun registry found => ?_⟩
      rcases held registry found with earlier | loaded
      · exact forgotten.reloader registry earlier
      · exact forgotten.file registry loaded
  | install =>
      rcases step_install with stepped | ⟨registry, held, stepped⟩
      · rw [stepped]
        exact forgotten
      · rw [stepped]
        exact ⟨forgotten.file, forgotten.reloader registry held, nofun⟩
  | submission call => exact ⟨forgotten.file, forgotten.gate, forgotten.reloader⟩

theorem result_step (ended : state.handler.result = some reply) (event : RevocationEvent) :
    (state.step crypto event).2.handler.result = some reply := by
  cases event with
  | handler =>
      rw [step_handler_of_done ended]
      exact ended
  | reload =>
      obtain ⟨reloader, stepped, -⟩ : ∃ reloader, state.step crypto .reload = _ ∧ _ :=
        step_reload
      rw [stepped]
      exact ended
  | install =>
      rcases step_install with stepped | ⟨registry, -, stepped⟩
      · rw [stepped]
        exact ended
      · rw [stepped]
        exact ended
  | submission call => exact ended

/-- A forgotten tenant is answered as unknown. -/
theorem Forgotten.unknown (forgotten : state.Forgotten tenantId) (event : RevocationEvent) :
    ∀ verdict ∈ verdictFor tenantId event (state.step crypto event).1,
      verdict = .unknownTenant := by
  intro verdict answered
  cases event with
  | handler => cases answered
  | reload => cases answered
  | install => cases answered
  | submission call =>
      simp only [verdictFor] at answered
      split at answered
      · next named =>
          rw [← Option.some.inj answered]
          apply step_of_get_none
          rw [named]
          exact forgotten.gate
      · cases answered

theorem Forgotten.observe (forgotten : state.Forgotten tenantId)
    (ended : state.handler.result = some reply) (events : List RevocationEvent) :
    ∀ verdict ∈ (machine crypto).observe (verdictFor tenantId) state events,
      verdict = .unknownTenant := by
  induction events generalizing state with
  | nil => exact fun _ member => absurd member List.not_mem_nil
  | cons event rest ih =>
      intro verdict member
      rw [Machine.observe_cons, List.mem_append, Option.mem_toList] at member
      rcases member with here | later
      · exact forgotten.unknown event verdict here
      · exact ih (forgotten.step ended event) (result_step ended event) verdict later

/-! ## Up to the acknowledgement -/

/-- While the handler runs it is on its way to its postcondition, and once it has
acknowledged, the tenant is forgotten. -/
def Tracked (tenantId : TenantId) (state : RevocationState) : Prop :=
  (state.handler.result = none ∧
    state.handler.Ensures Reinstalled (Revokes tenantId) state.store) ∨
  ∃ reply, state.handler.result = some reply ∧
    (reply = .revokeTenantAck → state.Forgotten tenantId)

/-- One step of the handler.  If it is the last one, the reloader must not hold the
tenant. -/
theorem tracked_step_handler (running : state.handler.result = none)
    (ensures : state.handler.Ensures Reinstalled (Revokes tenantId) state.store)
    (timely : (state.step crypto .handler).2.handler.result.isSome →
      ∀ registry ∈ state.reloader, registry.get tenantId = none) :
    (state.step crypto .handler).2.Tracked tenantId := by
  cases process : state.handler with
  | done result =>
      rw [process] at running
      cases running
  | act update next =>
      have stepped : (state.step crypto .handler).2 =
          { state with store := update state.store, handler := next state.store } := by
        simp only [step, process]
      rw [stepped] at timely ⊢
      rw [process] at ensures
      have ensures := ensures state.store ⟨state.store.installed, rfl⟩
      unfold Tracked
      dsimp only at timely ⊢
      cases rest : next state.store with
      | act later further =>
          rw [rest] at ensures
          exact Or.inl ⟨rfl, ensures⟩
      | done reply =>
          rw [rest] at ensures timely
          refine Or.inr ⟨reply, rfl, fun acknowledged => ?_⟩
          obtain ⟨file, gate⟩ := ensures acknowledged
          exact ⟨file, gate, timely rfl⟩

theorem Tracked.step (tracked : state.Tracked tenantId) {event : RevocationEvent}
    (timely : event = .handler → state.handler.result = none →
      (state.step crypto event).2.handler.result.isSome →
        ∀ registry ∈ state.reloader, registry.get tenantId = none) :
    (state.step crypto event).2.Tracked tenantId := by
  rcases tracked with ⟨running, ensures⟩ | ⟨reply, ended, forgotten⟩
  · cases event with
    | handler => exact tracked_step_handler running ensures (timely rfl running)
    | reload =>
        obtain ⟨reloader, stepped, -⟩ : ∃ reloader, state.step crypto .reload = _ ∧ _ :=
          step_reload
        rw [stepped]
        exact Or.inl ⟨running, ensures⟩
    | install =>
        rcases step_install with stepped | ⟨registry, -, stepped⟩
        · rw [stepped]
          exact Or.inl ⟨running, ensures⟩
        · rw [stepped]
          exact Or.inl ⟨running, ensures.interfere (fun _ _ _ => Reinstalled.trans) running
            ⟨registry, rfl⟩⟩
    | submission call => exact Or.inl ⟨running, ensures⟩
  · exact Or.inr ⟨reply, result_step ended event,
      fun acknowledged => (forgotten acknowledged).step ended event⟩

/-- When the handler takes its last step, the reloader does not wait to install a registry
with the tenant. -/
def Timely (crypto : Crypto) (tenantId : TenantId) (state : RevocationState) :
    List RevocationEvent → Prop
  | [] => True
  | event :: rest =>
      (event = .handler → state.handler.result = none →
        (state.step crypto event).2.handler.result.isSome →
          ∀ registry ∈ state.reloader, registry.get tenantId = none) ∧
      Timely crypto tenantId (state.step crypto event).2 rest

instance decidableTimely (crypto : Crypto) (tenantId : TenantId) :
    ∀ (state : RevocationState) (events : List RevocationEvent),
      Decidable (Timely crypto tenantId state events)
  | _, [] => inferInstanceAs (Decidable True)
  | state, event :: rest =>
      have := decidableTimely crypto tenantId (state.step crypto event).2 rest
      inferInstanceAs (Decidable (_ ∧ _))

theorem Tracked.final (tracked : state.Tracked tenantId) {events : List RevocationEvent}
    (timely : Timely crypto tenantId state events) :
    ((machine crypto).final state events).Tracked tenantId := by
  induction events generalizing state with
  | nil => exact tracked
  | cons event rest ih => exact ih (tracked.step timely.1) timely.2

end RevocationState

/-- Once the revocation of a tenant is acknowledged, every submission that names the tenant
is answered as unknown, if what is left of the file loads and the reloader does not wait
to install an older registry when the handler finishes. -/
theorem revocation_effective {crypto : Crypto} {config : AdminConfig}
    (present : config.hasAuthState = true) {tenantId : TenantId} {state : RevocationState}
    (begins : state.handler = adminRevokeTenant config tenantId)
    (loads : ∀ text rest, state.store.readToString = .ok text →
      revokeLines tenantId text = some rest →
        ∃ registry, TenantRegistry.loadFromText rest = .ok registry)
    {before : List RevocationEvent} (timely : state.Timely crypto tenantId before)
    (acknowledged : ((RevocationState.machine crypto).final state before).handler.result =
      some .revokeTenantAck)
    (after : List RevocationEvent) :
    ∀ verdict ∈ (RevocationState.machine crypto).observe (RevocationState.verdictFor tenantId)
        ((RevocationState.machine crypto).final state before) after,
      verdict = .unknownTenant := by
  have ensures := ensures_adminRevokeTenant present loads
  rw [← begins] at ensures
  have tracked : state.Tracked tenantId := by
    cases ended : state.handler.result with
    | none => exact Or.inl ⟨ended, ensures⟩
    | some reply =>
        -- Without a tenants file the handler has nothing to do, and says so.
        refine Or.inr ⟨reply, ended, ?_⟩
        rw [begins, adminRevokeTenant] at ended
        split at ended
        · rw [← Option.some.inj ended]
          intro same
          cases same
        · cases ended
  rcases tracked.final timely with ⟨running, -⟩ | ⟨reply, ended, forgotten⟩
  · rw [running] at acknowledged
    cases acknowledged
  · have acked := Option.some.inj (ended.symm.trans acknowledged)
    exact (forgotten acked).observe ended after

/-! ## A tenant that comes back -/

/-- The line of the tenant whose submissions the gate admits. -/
def soleTenantLine : List Char :=
  tenantLine ⟨1, modelHash Gate.soleTenantKey.toList, 1, 1, 0⟩

/-- The file holds the text, the gate knows the tenant, and the handler has not begun. -/
def beforeRevocation (text : List Char) : RevocationState where
  store := (storeOf (some text)).install Gate.soleTenantRegistry
  handler := adminRevokeTenant tenantsConfig 1
  reloader := none
  gate := Gate.freshGate

theorem revocation_effective_sole :
    ((RevocationState.machine modelCrypto).final (beforeRevocation (soleTenantLine ++ ['\n']))
        (List.replicate 6 .handler)).handler.result = some .revokeTenantAck ∧
      ∀ verdict ∈ (RevocationState.machine modelCrypto).observe (RevocationState.verdictFor 1)
          ((RevocationState.machine modelCrypto).final
            (beforeRevocation (soleTenantLine ++ ['\n'])) (List.replicate 6 .handler))
          [.reload, .install, .submission (Gate.soleTenantCall 5 0)],
        verdict = .unknownTenant := by
  have acknowledged : ((RevocationState.machine modelCrypto).final
      (beforeRevocation (soleTenantLine ++ ['\n'])) (List.replicate 6 .handler)).handler.result =
        some .revokeTenantAck := by decide +kernel
  have timely : (beforeRevocation (soleTenantLine ++ ['\n'])).Timely modelCrypto 1
      (List.replicate 6 .handler) := by decide +kernel
  have begins : (beforeRevocation (soleTenantLine ++ ['\n'])).handler =
      adminRevokeTenant tenantsConfig 1 := rfl
  refine ⟨acknowledged, revocation_effective rfl begins ?_ timely acknowledged _⟩
  intro text rest read revoked
  have left : (((storeOf (some (soleTenantLine ++ ['\n']))).readToString.toOption).bind
      (revokeLines 1)) = some [] := by decide +kernel
  have same : (storeOf (some (soleTenantLine ++ ['\n']))).readToString = .ok text := read
  rw [same] at left
  have empty : rest = [] := Option.some.inj (revoked.symm.trans left)
  rw [empty]
  exact ⟨⟨∅⟩, rfl⟩

/-- Two ways in which a revoked tenant is still admitted after the acknowledgement: a line
that is no record keeps the gate from loading what is left of the file, and a reload that
has begun before the revocation brings the tenant back. -/
theorem revoked_tenant_admitted :
    (let state := beforeRevocation (soleTenantLine ++ "\nbroken\n".toList)
      let events := List.replicate 5 RevocationEvent.handler
      ((RevocationState.machine modelCrypto).final state events).handler.result =
          some .revokeTenantAck ∧
        (RevocationState.machine modelCrypto).observe (RevocationState.verdictFor 1)
            ((RevocationState.machine modelCrypto).final state events)
            [.submission (Gate.soleTenantCall 5 0)] = [.ok]) ∧
    (let state := beforeRevocation (soleTenantLine ++ ['\n'])
      let events := RevocationEvent.reload :: List.replicate 6 .handler
      ((RevocationState.machine modelCrypto).final state events).handler.result =
          some .revokeTenantAck ∧
        (RevocationState.machine modelCrypto).observe (RevocationState.verdictFor 1)
            ((RevocationState.machine modelCrypto).final state events)
            [.install, .submission (Gate.soleTenantCall 5 0)] = [.ok]) := by
  decide +kernel

end Cosaci.Coordinator
