import Cosaci.Core.Quorum
import Cosaci.Foundation.Machine

/-!
# Lease lifecycle

A lease pairs a runner with a job for a bounded time.  The manager keeps every
lease it ever granted, an index from pairs to their active lease, and a counter
for identifiers.  Expiry is lazy: every call first sweeps the leases whose time
is up according to the clock reading of that call.

The index is kept exact by every call, whatever the clock shows, and a lease that
has been closed stays closed.
-/

namespace Cosaci.State

open Cosaci.Foundation
open Cosaci.Core (JobId RunnerId)

/-- Identifier of a lease. -/
abbrev LeaseId := UInt64

/-- The state of a lease. -/
inductive LeaseState where
  | active
  | completed
  | expired
  deriving DecidableEq, Repr

/-- One lease record. -/
structure Lease where
  leaseId : LeaseId
  jobId : JobId
  runnerId : RunnerId
  acquiredAtNs : UInt64
  ttlNs : UInt64
  state : LeaseState
  deriving DecidableEq

namespace Lease

/-- The instant at which a lease expires. -/
def expiresAtNs (lease : Lease) : UInt64 :=
  saturatingAdd lease.acquiredAtNs lease.ttlNs

/-- The key under which an active lease is indexed. -/
def pair (lease : Lease) : JobId × RunnerId :=
  (lease.jobId, lease.runnerId)

/-- Whether a sweep at the given reading expires the lease. -/
def isDue (nowNs : UInt64) (lease : Lease) : Bool :=
  decide (lease.state = .active) && decide (lease.expiresAtNs ≤ nowNs)

/-- A lease after a sweep at the given reading. -/
def sweptAt (nowNs : UInt64) (lease : Lease) : Lease :=
  if lease.isDue nowNs then { lease with state := .expired } else lease

theorem unexpired_sweptAt {nowNs later : UInt64} (ordered : nowNs ≤ later)
    (lease : Lease) :
    ((lease.sweptAt nowNs).state = .active ∧ later < (lease.sweptAt nowNs).expiresAtNs) ↔
      (lease.state = .active ∧ later < lease.expiresAtNs) := by
  unfold sweptAt
  split
  · next due =>
      simp only [isDue, Bool.and_eq_true, decide_eq_true_eq] at due
      have expired : ¬later < lease.expiresAtNs := UInt64.not_lt.mpr (UInt64.le_trans due.2 ordered)
      simp [expired]
  · exact Iff.rfl

theorem acquiredAtNs_sweptAt (nowNs : UInt64) (lease : Lease) :
    (lease.sweptAt nowNs).acquiredAtNs = lease.acquiredAtNs := by
  unfold sweptAt
  split <;> rfl

theorem pair_sweptAt (nowNs : UInt64) (lease : Lease) :
    (lease.sweptAt nowNs).pair = lease.pair := by
  unfold sweptAt
  split <;> rfl

end Lease

/-- The reason a lease is refused. -/
inductive LeaseError where
  | alreadyLeased
  deriving DecidableEq, Repr

/-- The leases of one shard. -/
structure LeaseManager where
  defaultTtlNs : UInt64
  leases : Table LeaseId Lease
  activeByPair : Table (JobId × RunnerId) LeaseId
  nextId : LeaseId

/-- What a sweep depends on besides the leases: the clock reading and the order in
which the hash map of the leases is walked. -/
structure Sweep where
  nowNs : UInt64
  order : IterationOrder LeaseId Lease

namespace LeaseManager

/-- A manager without leases. -/
def new (defaultTtlNs : UInt64) : LeaseManager where
  defaultTtlNs := defaultTtlNs
  leases := ∅
  activeByPair := ∅
  nextId := 1

/-- Give a lease its final state and drop its pair from the index. -/
def close (manager : LeaseManager) (id : LeaseId) (lease : Lease) (state : LeaseState) :
    LeaseManager :=
  { manager with
    leases := manager.leases.insert id { lease with state := state }
    activeByPair := manager.activeByPair.erase lease.pair }

/-- One turn of the loop of `tick`. -/
def expire (manager : LeaseManager) (id : LeaseId) : LeaseManager :=
  match manager.leases.lookup id with
  | some lease => manager.close id lease .expired
  | none => manager

/-- The leases that a sweep expires. -/
def toExpire (manager : LeaseManager) (sweep : Sweep) : List LeaseId :=
  ((sweep.order.visit manager.leases).filter fun entry =>
    entry.2.isDue sweep.nowNs).map Sigma.fst

/-- Sweep the active leases whose time is up. -/
def tick (manager : LeaseManager) (sweep : Sweep) : LeaseManager :=
  (manager.toExpire sweep).foldl expire manager

/-- Record a new active lease under the next identifier. -/
def grant (manager : LeaseManager) (jobId : JobId) (runnerId : RunnerId)
    (acquiredAtNs : UInt64) : LeaseManager :=
  { manager with
    leases := manager.leases.insert manager.nextId
      { leaseId := manager.nextId
        jobId := jobId
        runnerId := runnerId
        acquiredAtNs := acquiredAtNs
        ttlNs := manager.defaultTtlNs
        state := .active }
    activeByPair := manager.activeByPair.insert (jobId, runnerId) manager.nextId
    nextId := manager.nextId + 1 }

/-- Acquire a lease for a pair that holds none.  The clock is read once for the
sweep and once more for the new lease. -/
def acquire (manager : LeaseManager) (sweep : Sweep) (jobId : JobId) (runnerId : RunnerId)
    (acquiredAtNs : UInt64) : Except LeaseError LeaseId × LeaseManager :=
  let swept := manager.tick sweep
  if (jobId, runnerId) ∈ swept.activeByPair then (.error .alreadyLeased, swept)
  else (.ok swept.nextId, swept.grant jobId runnerId acquiredAtNs)

/-- Complete a lease that is still active after the sweep. -/
def complete (manager : LeaseManager) (sweep : Sweep) (leaseId : LeaseId) : LeaseManager :=
  let swept := manager.tick sweep
  match swept.leases.lookup leaseId with
  | some lease =>
      if lease.state = .active then swept.close leaseId lease .completed else swept
  | none => swept

/-- Whether a lease is active. -/
def isActive (manager : LeaseManager) (sweep : Sweep) (leaseId : LeaseId) :
    Bool × LeaseManager :=
  let swept := manager.tick sweep
  ((swept.leases.lookup leaseId).any fun lease => decide (lease.state = .active), swept)

/-- The active lease of a pair. -/
def activeLeaseFor (manager : LeaseManager) (sweep : Sweep) (jobId : JobId)
    (runnerId : RunnerId) : Option LeaseId × LeaseManager :=
  let swept := manager.tick sweep
  (swept.activeByPair.lookup (jobId, runnerId), swept)

/-- The number of runners with an active lease for a job. -/
def countActiveForJob (manager : LeaseManager) (sweep : Sweep) (jobId : JobId) :
    Nat × LeaseManager :=
  let swept := manager.tick sweep
  ((swept.activeByPair.keys.filter fun pair => pair.1 = jobId).length, swept)

/-- The number of active leases. -/
def countActive (manager : LeaseManager) (sweep : Sweep) : Nat × LeaseManager :=
  let swept := manager.tick sweep
  (swept.activeByPair.entries.length, swept)

/-- The pairs that hold an active lease, in iteration order. -/
def activePairs (manager : LeaseManager) (sweep : Sweep)
    (order : IterationOrder (JobId × RunnerId) LeaseId) :
    List (JobId × RunnerId) × LeaseManager :=
  let swept := manager.tick sweep
  ((order.visit swept.activeByPair).map Sigma.fst, swept)

/-- The state of a lease after the sweep. -/
def stateOf (manager : LeaseManager) (sweep : Sweep) (leaseId : LeaseId) :
    Option LeaseState × LeaseManager :=
  let swept := manager.tick sweep
  ((swept.leases.lookup leaseId).map Lease.state, swept)

/-! ## The sweep -/

theorem lookup_leases_close (manager : LeaseManager) (id query : LeaseId) (lease : Lease)
    (state : LeaseState) :
    (manager.close id lease state).leases.lookup query =
      if query = id then some { lease with state := state }
      else manager.leases.lookup query :=
  Table.lookup_insert_eq _ _ _ _

theorem lookup_leases_expire (manager : LeaseManager) (id query : LeaseId) :
    (manager.expire id).leases.lookup query =
      if query = id then
        (manager.leases.lookup query).map fun lease => { lease with state := .expired }
      else manager.leases.lookup query := by
  unfold expire
  split
  · next lease found =>
      rw [lookup_leases_close]
      by_cases same : query = id
      · subst query
        simp [found]
      · simp [same]
  · next absent =>
      by_cases same : query = id
      · subst query
        simp [absent]
      · simp [same]

theorem lookup_leases_foldl_expire (manager : LeaseManager) (ids : List LeaseId)
    (query : LeaseId) :
    (ids.foldl expire manager).leases.lookup query =
      if query ∈ ids then
        (manager.leases.lookup query).map fun lease => { lease with state := .expired }
      else manager.leases.lookup query := by
  induction ids generalizing manager with
  | nil => simp
  | cons id rest ih =>
      rw [List.foldl_cons, ih, lookup_leases_expire]
      by_cases here : query = id
      · subst query
        by_cases later : id ∈ rest
        · simp [later, Function.comp_def]
        · simp [later]
      · simp [here]

theorem mem_toExpire (manager : LeaseManager) (sweep : Sweep) (id : LeaseId) :
    id ∈ manager.toExpire sweep ↔
      ∃ lease, manager.leases.lookup id = some lease ∧ lease.isDue sweep.nowNs = true := by
  simp only [toExpire, List.mem_map, List.mem_filter, IterationOrder.mem_visit]
  constructor
  · rintro ⟨⟨_, lease⟩, ⟨found, due⟩, rfl⟩
    exact ⟨lease, found, due⟩
  · rintro ⟨lease, found, due⟩
    exact ⟨⟨id, lease⟩, ⟨found, due⟩, rfl⟩

theorem toExpire_nodup (manager : LeaseManager) (sweep : Sweep) :
    (manager.toExpire sweep).Nodup := by
  have distinct : ((sweep.order.visit manager.leases).map Sigma.fst).Nodup :=
    ((sweep.order.perm manager.leases).map Sigma.fst).nodup_iff.mpr manager.leases.keys_nodup
  exact distinct.sublist (List.filter_sublist.map Sigma.fst)

/-- A sweep treats every lease on its own. -/
theorem lookup_leases_tick (manager : LeaseManager) (sweep : Sweep) (id : LeaseId) :
    (manager.tick sweep).leases.lookup id =
      (manager.leases.lookup id).map (Lease.sweptAt sweep.nowNs) := by
  rw [tick, lookup_leases_foldl_expire]
  cases found : manager.leases.lookup id with
  | none => simp
  | some lease =>
      have listed := manager.mem_toExpire sweep id
      simp only [found, Option.some.injEq, exists_eq_left'] at listed
      simp only [listed, Option.map_some, Lease.sweptAt]
      split <;> rfl

theorem foldl_expire_frame (manager : LeaseManager) (ids : List LeaseId) :
    (ids.foldl expire manager).defaultTtlNs = manager.defaultTtlNs ∧
      (ids.foldl expire manager).nextId = manager.nextId := by
  induction ids generalizing manager with
  | nil => exact ⟨rfl, rfl⟩
  | cons id rest ih =>
      rw [List.foldl_cons]
      rcases ih (manager.expire id) with ⟨ttl, next⟩
      rw [ttl, next, expire]
      cases manager.leases.lookup id with
      | none => exact ⟨rfl, rfl⟩
      | some lease => exact ⟨rfl, rfl⟩

@[simp] theorem defaultTtlNs_tick (manager : LeaseManager) (sweep : Sweep) :
    (manager.tick sweep).defaultTtlNs = manager.defaultTtlNs :=
  (foldl_expire_frame manager _).1

@[simp] theorem nextId_tick (manager : LeaseManager) (sweep : Sweep) :
    (manager.tick sweep).nextId = manager.nextId :=
  (foldl_expire_frame manager _).2

/-! ## The index -/

/-- A lease is active and belongs to a pair. -/
def ActiveAs (manager : LeaseManager) (id : LeaseId) (pair : JobId × RunnerId) : Prop :=
  ∃ lease, manager.leases.lookup id = some lease ∧ lease.state = .active ∧ lease.pair = pair

/-- The index lists exactly the active leases, each under its pair. -/
def Indexed (manager : LeaseManager) : Prop :=
  ∀ pair id, manager.activeByPair.lookup pair = some id ↔ manager.ActiveAs id pair

theorem indexed_new (defaultTtlNs : UInt64) : (new defaultTtlNs).Indexed := by
  intro pair id
  simp [new, ActiveAs]

variable {manager : LeaseManager} {lease : Lease} {state : LeaseState} {jobId : JobId}
  {runnerId : RunnerId} {sweep : Sweep} {acquisitions : Nat}

theorem Indexed.unique (indexed : manager.Indexed) {first second : LeaseId}
    {pair : JobId × RunnerId} (left : manager.ActiveAs first pair)
    (right : manager.ActiveAs second pair) : first = second := by
  have found := (indexed pair first).mpr left
  rw [(indexed pair second).mpr right] at found
  exact (Option.some.inj found).symm

theorem activeAs_close {id : LeaseId} (closed : state ≠ .active) (query : LeaseId)
    (pair : JobId × RunnerId) :
    (manager.close id lease state).ActiveAs query pair ↔
      query ≠ id ∧ manager.ActiveAs query pair := by
  unfold ActiveAs
  rw [lookup_leases_close]
  by_cases same : query = id
  · simp [same, closed]
  · simp [same]

/-- Closing an active lease removes exactly its own entry of the index. -/
theorem Indexed.close (indexed : manager.Indexed) {id : LeaseId}
    (found : manager.leases.lookup id = some lease) (active : lease.state = .active)
    (closed : state ≠ .active) : (manager.close id lease state).Indexed := by
  have own : manager.ActiveAs id lease.pair := ⟨lease, found, active, rfl⟩
  intro pair query
  rw [activeAs_close closed, ← indexed]
  by_cases same : pair = lease.pair
  · subst pair
    have absent : (manager.close id lease state).activeByPair.lookup lease.pair = none :=
      AList.lookup_erase _ _
    rw [absent, (indexed lease.pair id).mpr own]
    constructor
    · intro impossible
      cases impossible
    · rintro ⟨other, sameId⟩
      exact absurd (Option.some.inj sameId).symm other
  · have kept : (manager.close id lease state).activeByPair.lookup pair =
        manager.activeByPair.lookup pair := AList.lookup_erase_ne same
    rw [kept]
    constructor
    · intro listed
      refine ⟨?_, listed⟩
      rintro rfl
      rcases (indexed pair query).mp listed with ⟨other, foundOther, _, otherPair⟩
      rw [found] at foundOther
      cases foundOther
      exact same otherPair.symm
    · exact And.right

theorem Indexed.foldl_expire (indexed : manager.Indexed) {ids : List LeaseId} (distinct : ids.Nodup)
    (active : ∀ id ∈ ids, ∃ pair, manager.ActiveAs id pair) :
    (ids.foldl expire manager).Indexed := by
  induction ids generalizing manager with
  | nil => exact indexed
  | cons id rest ih =>
      rcases List.nodup_cons.mp distinct with ⟨absent, distinct⟩
      rcases active id (by simp) with ⟨_, lease, found, isActive, _⟩
      have expired : manager.expire id = manager.close id lease .expired := by
        rw [expire, found]
      have closed : LeaseState.expired ≠ .active := by decide
      rw [List.foldl_cons, expired]
      apply ih (indexed.close found isActive closed) distinct
      -- The identifiers are distinct, so the remaining leases are still active.
      intro other present
      rcases active other (List.mem_cons_of_mem _ present) with ⟨pair, activeAs⟩
      refine ⟨pair, (activeAs_close closed other pair).mpr ⟨?_, activeAs⟩⟩
      rintro rfl
      exact absent present

theorem Indexed.tick (indexed : manager.Indexed) (sweep : Sweep) :
    (manager.tick sweep).Indexed := by
  apply indexed.foldl_expire (manager.toExpire_nodup sweep)
  intro id listed
  rcases (manager.mem_toExpire sweep id).mp listed with ⟨lease, found, due⟩
  simp only [Lease.isDue, Bool.and_eq_true, decide_eq_true_eq] at due
  exact ⟨lease.pair, lease, found, due.1, rfl⟩

/-- A grant under a fresh identifier to a pair without an active lease. -/
theorem Indexed.grant (indexed : manager.Indexed) (free : (jobId, runnerId) ∉ manager.activeByPair)
    (fresh : manager.leases.lookup manager.nextId = none) (acquiredAtNs : UInt64) :
    (manager.grant jobId runnerId acquiredAtNs).Indexed := by
  intro pair query
  have index : (manager.grant jobId runnerId acquiredAtNs).activeByPair.lookup pair =
      if pair = (jobId, runnerId) then some manager.nextId
      else manager.activeByPair.lookup pair := Table.lookup_insert_eq _ _ _ _
  have store : (manager.grant jobId runnerId acquiredAtNs).leases.lookup query =
      if query = manager.nextId then
        some ⟨manager.nextId, jobId, runnerId, acquiredAtNs, manager.defaultTtlNs, .active⟩
      else manager.leases.lookup query := Table.lookup_insert_eq _ _ _ _
  rw [index]
  unfold ActiveAs
  rw [store]
  by_cases new : query = manager.nextId
  · subst query
    have unused : manager.activeByPair.lookup pair ≠ some manager.nextId := by
      intro listed
      rcases (indexed pair manager.nextId).mp listed with ⟨lease, found, _⟩
      rw [fresh] at found
      cases found
    by_cases own : pair = (jobId, runnerId)
    · simp [own, Lease.pair]
    · simp [own, unused, Lease.pair, Ne.symm own]
  · by_cases own : pair = (jobId, runnerId)
    · subst pair
      have notActive : ¬manager.ActiveAs query (jobId, runnerId) := by
        intro activeAs
        have listed := (indexed _ query).mpr activeAs
        exact free (AList.lookup_isSome.mp (Option.isSome_of_mem listed))
      simpa [new, Ne.symm new, ActiveAs] using notActive
    · simpa [new, own, ActiveAs] using indexed pair query

/-! ## Leases held at a reading

An active lease counts until its expiry, whether or not a sweep has seen it.  What
a pair holds at a reading is therefore not changed by sweeps at earlier readings,
and it is what the next call at that reading observes.
-/

/-- The acquisition time of the unexpired lease that a pair holds at a reading. -/
def heldSince (manager : LeaseManager) (nowNs : UInt64) (pair : JobId × RunnerId) :
    Option UInt64 :=
  (((manager.activeByPair.lookup pair).bind fun id => manager.leases.lookup id).filter
    fun lease => nowNs < lease.expiresAtNs).map Lease.acquiredAtNs

@[simp] theorem heldSince_new (defaultTtlNs nowNs : UInt64) (pair : JobId × RunnerId) :
    (new defaultTtlNs).heldSince nowNs pair = none := by
  simp [heldSince, new]

theorem Indexed.heldSince_eq_some_iff (indexed : manager.Indexed) (nowNs : UInt64)
    (pair : JobId × RunnerId) (since : UInt64) :
    manager.heldSince nowNs pair = some since ↔
      ∃ id lease, manager.leases.lookup id = some lease ∧ lease.state = .active ∧
        lease.pair = pair ∧ nowNs < lease.expiresAtNs ∧ lease.acquiredAtNs = since := by
  simp only [heldSince, Option.map_eq_some_iff, Option.filter_eq_some_iff,
    Option.bind_eq_some_iff, decide_eq_true_eq]
  constructor
  · rintro ⟨lease, ⟨⟨id, listed, found⟩, unexpired⟩, since⟩
    rcases (indexed pair id).mp listed with ⟨_, foundActive, active, samePair⟩
    rw [found] at foundActive
    cases foundActive
    exact ⟨id, lease, found, active, samePair, unexpired, since⟩
  · rintro ⟨id, lease, found, active, samePair, unexpired, since⟩
    exact ⟨lease, ⟨⟨id, (indexed pair id).mpr ⟨lease, found, active, samePair⟩, found⟩,
      unexpired⟩, since⟩

/-- What is held later was held before, if it was not acquired in between. -/
theorem heldSince_isSome_of_le {nowNs later : UInt64} (ordered : nowNs ≤ later)
    {pair : JobId × RunnerId} (held : (manager.heldSince later pair).isSome) :
    (manager.heldSince nowNs pair).isSome := by
  simp only [heldSince, Option.isSome_map] at held ⊢
  rcases Option.isSome_iff_exists.mp held with ⟨lease, kept⟩
  rw [Option.filter_eq_some_iff, decide_eq_true_eq] at kept
  apply Option.isSome_iff_exists.mpr
  refine ⟨lease, Option.filter_eq_some_iff.mpr ⟨kept.1, ?_⟩⟩
  exact decide_eq_true (UInt64.lt_of_le_of_lt ordered kept.2)

/-- A sweep at an earlier reading cannot be noticed. -/
theorem Indexed.heldSince_tick (indexed : manager.Indexed) {later : UInt64}
    (ordered : sweep.nowNs ≤ later) (pair : JobId × RunnerId) :
    (manager.tick sweep).heldSince later pair = manager.heldSince later pair := by
  apply Option.ext
  intro since
  rw [(indexed.tick sweep).heldSince_eq_some_iff, indexed.heldSince_eq_some_iff]
  simp only [lookup_leases_tick, Option.map_eq_some_iff]
  constructor
  · rintro ⟨id, _, ⟨lease, found, rfl⟩, active, samePair, unexpired, since⟩
    rcases (lease.unexpired_sweptAt ordered).mp ⟨active, unexpired⟩ with ⟨active, unexpired⟩
    rw [Lease.pair_sweptAt] at samePair
    rw [Lease.acquiredAtNs_sweptAt] at since
    exact ⟨id, lease, found, active, samePair, unexpired, since⟩
  · rintro ⟨id, lease, found, active, samePair, unexpired, since⟩
    rcases (lease.unexpired_sweptAt ordered).mpr ⟨active, unexpired⟩ with ⟨active, unexpired⟩
    refine ⟨id, _, ⟨lease, found, rfl⟩, active, ?_, unexpired, ?_⟩
    · rw [Lease.pair_sweptAt, samePair]
    · rw [Lease.acquiredAtNs_sweptAt, since]

/-- After a sweep the index lists exactly the pairs that hold a lease. -/
theorem Indexed.mem_activeByPair_tick (indexed : manager.Indexed) (sweep : Sweep)
    (pair : JobId × RunnerId) :
    pair ∈ (manager.tick sweep).activeByPair ↔
      (manager.heldSince sweep.nowNs pair).isSome := by
  rw [← indexed.heldSince_tick (UInt64.le_refl _), ← AList.lookup_isSome, heldSince,
    Option.isSome_map]
  cases listed : (manager.tick sweep).activeByPair.lookup pair with
  | none => simp
  | some id =>
      rcases (indexed.tick sweep pair id).mp listed with ⟨lease, found, active, _⟩
      have unexpired : sweep.nowNs < lease.expiresAtNs := by
        rw [lookup_leases_tick] at found
        rcases Option.map_eq_some_iff.mp found with ⟨before, _, rfl⟩
        revert active
        unfold Lease.sweptAt
        split
        · intro active
          cases active
        · next kept =>
            intro active
            simpa [Lease.isDue, active] using kept
      simp [found, unexpired]

/-- A grant gives its pair a lease from the acquisition on and changes nothing else. -/
theorem heldSince_grant (indexed : manager.Indexed)
    (fresh : manager.leases.lookup manager.nextId = none) (jobId : JobId) (runnerId : RunnerId)
    (acquiredAtNs nowNs : UInt64) (pair : JobId × RunnerId) :
    (manager.grant jobId runnerId acquiredAtNs).heldSince nowNs pair =
      if pair = (jobId, runnerId) then
        if nowNs < saturatingAdd acquiredAtNs manager.defaultTtlNs then some acquiredAtNs
        else none
      else manager.heldSince nowNs pair := by
  simp only [heldSince, grant, Table.lookup_insert_eq]
  by_cases own : pair = (jobId, runnerId)
  · by_cases unexpired : nowNs < saturatingAdd acquiredAtNs manager.defaultTtlNs
    · simp [own, Lease.expiresAtNs, unexpired]
    · simp [own, Lease.expiresAtNs, unexpired]
  · simp only [own, ↓reduceIte]
    congr 2
    cases listed : manager.activeByPair.lookup pair with
    | none => rfl
    | some id =>
        have older : id ≠ manager.nextId := by
          rintro rfl
          rcases (indexed pair _).mp listed with ⟨lease, found, _⟩
          rw [fresh] at found
          cases found
        simp [older]

/-! ## Whole runs -/

/-- The calls on a manager.  An acquisition reads the clock a second time; listing
the active pairs walks a second hash map. -/
inductive Request where
  | acquire (jobId : JobId) (runnerId : RunnerId) (acquiredAtNs : UInt64)
  | complete (leaseId : LeaseId)
  | isActive (leaseId : LeaseId)
  | activeLeaseFor (jobId : JobId) (runnerId : RunnerId)
  | countActiveForJob (jobId : JobId)
  | countActive
  | activePairs (order : IterationOrder (JobId × RunnerId) LeaseId)
  | stateOf (leaseId : LeaseId)

/-- One call with the sweep it starts with. -/
structure Call where
  sweep : Sweep
  request : Request

/-- What a call returns. -/
inductive Reply where
  | acquired (result : Except LeaseError LeaseId)
  | completed
  | active (answer : Bool)
  | lease (found : Option LeaseId)
  | count (number : Nat)
  | pairs (listed : List (JobId × RunnerId))
  | state (found : Option LeaseState)

/-- The identifier that a reply hands out. -/
def Reply.issued : Reply → Option LeaseId
  | .acquired (.ok id) => some id
  | _ => none

/-- The manager as a machine. -/
def machine : Machine LeaseManager Call Reply where
  step manager call :=
    match call.request with
    | .acquire jobId runnerId acquiredAtNs =>
        (manager.acquire call.sweep jobId runnerId acquiredAtNs).map .acquired id
    | .complete leaseId => (.completed, manager.complete call.sweep leaseId)
    | .isActive leaseId => (manager.isActive call.sweep leaseId).map .active id
    | .activeLeaseFor jobId runnerId =>
        (manager.activeLeaseFor call.sweep jobId runnerId).map .lease id
    | .countActiveForJob jobId => (manager.countActiveForJob call.sweep jobId).map .count id
    | .countActive => (manager.countActive call.sweep).map .count id
    | .activePairs order => (manager.activePairs call.sweep order).map .pairs id
    | .stateOf leaseId => (manager.stateOf call.sweep leaseId).map .state id

/-- The identifiers handed out by a run, in order. -/
def issuedIds (manager : LeaseManager) (calls : List Call) : List LeaseId :=
  machine.observe (fun _ reply => reply.issued) manager calls

/-- What a call can do once the sweep is over. -/
inductive Effect (swept : LeaseManager) : Option LeaseId → LeaseManager → Prop
  | unchanged : Effect swept none swept
  | completed {id : LeaseId} {lease : Lease} (found : swept.leases.lookup id = some lease)
      (active : lease.state = .active) : Effect swept none (swept.close id lease .completed)
  | granted {jobId : JobId} {runnerId : RunnerId} (acquiredAtNs : UInt64)
      (free : (jobId, runnerId) ∉ swept.activeByPair) :
      Effect swept (some swept.nextId) (swept.grant jobId runnerId acquiredAtNs)

/-- Every call sweeps first and then has one of three effects. -/
theorem effect_step (manager : LeaseManager) (call : Call) :
    Effect (manager.tick call.sweep) (machine.step manager call).1.issued
      (machine.step manager call).2 := by
  rcases call with ⟨sweep, request⟩
  cases request with
  | acquire jobId runnerId acquiredAtNs =>
      simp only [machine, acquire]
      split
      · exact .unchanged
      · next free => exact .granted acquiredAtNs free
  | complete leaseId =>
      simp only [machine, complete]
      split
      · next lease found =>
          split
          · next active => exact .completed found active
          · exact .unchanged
      · exact .unchanged
  | isActive leaseId => exact .unchanged
  | activeLeaseFor jobId runnerId => exact .unchanged
  | countActiveForJob jobId => exact .unchanged
  | countActive => exact .unchanged
  | activePairs order => exact .unchanged
  | stateOf leaseId => exact .unchanged

/-- No lease is forgotten or moved to another pair, and none becomes active again. -/
def Continues (earlier later : LeaseManager) : Prop :=
  ∀ id lease, earlier.leases.lookup id = some lease →
    ∃ current, later.leases.lookup id = some current ∧ current.pair = lease.pair ∧
      (current.state = .active → lease.state = .active)

theorem Continues.refl (manager : LeaseManager) : manager.Continues manager :=
  fun _ lease found => ⟨lease, found, rfl, id⟩

theorem Continues.trans {first second third : LeaseManager} (left : first.Continues second)
    (right : second.Continues third) : first.Continues third := by
  intro id lease found
  rcases left id lease found with ⟨middle, foundMiddle, samePair, keeps⟩
  rcases right id middle foundMiddle with ⟨current, foundCurrent, samePair', keeps'⟩
  exact ⟨current, foundCurrent, samePair'.trans samePair, keeps ∘ keeps'⟩

theorem continues_tick (manager : LeaseManager) (sweep : Sweep) :
    manager.Continues (manager.tick sweep) := by
  intro id lease found
  refine ⟨lease.sweptAt sweep.nowNs, by rw [lookup_leases_tick, found, Option.map_some], ?_⟩
  unfold Lease.sweptAt
  split
  · exact ⟨rfl, by simp⟩
  · exact ⟨rfl, by simp⟩

theorem continues_close {id : LeaseId} (found : manager.leases.lookup id = some lease)
    (closed : state ≠ .active) : manager.Continues (manager.close id lease state) := by
  intro query other foundOther
  rw [lookup_leases_close]
  by_cases same : query = id
  · subst query
    rw [found] at foundOther
    cases foundOther
    exact ⟨_, if_pos rfl, rfl, fun active => absurd active closed⟩
  · rw [if_neg same]
    exact ⟨other, foundOther, rfl, fun active => active⟩

theorem continues_grant (fresh : manager.leases.lookup manager.nextId = none) (jobId : JobId)
    (runnerId : RunnerId) (acquiredAtNs : UInt64) :
    manager.Continues (manager.grant jobId runnerId acquiredAtNs) := by
  intro query other foundOther
  have older : query ≠ manager.nextId := by
    rintro rfl
    rw [fresh] at foundOther
    cases foundOther
  exact ⟨other, (AList.lookup_insert_ne older).trans foundOther, rfl, fun active => active⟩

/-- The identifier of the acquisition with the given number, counted from zero. -/
def nthId (number : Nat) : LeaseId :=
  UInt64.ofNat (number + 1)

theorem nthId_inj {first second : Nat} (left : first < 2 ^ 64) (right : second < 2 ^ 64)
    (same : nthId first = nthId second) : first = second := by
  have equal := congrArg UInt64.toNat same
  simp only [nthId, UInt64.toNat_ofNat'] at equal
  omega

/-- The state after a number of acquisitions: the index is exact, and the leases are
those of the acquisitions. -/
structure Sound (manager : LeaseManager) (acquisitions : Nat) : Prop where
  indexed : manager.Indexed
  counter : manager.nextId = nthId acquisitions
  known : ∀ id ∈ manager.leases, ∃ number < acquisitions, id = nthId number

theorem sound_new (defaultTtlNs : UInt64) : (new defaultTtlNs).Sound 0 where
  indexed := indexed_new defaultTtlNs
  counter := rfl
  known id member := absurd member (AList.notMem_empty id)

theorem Sound.fresh (sound : manager.Sound acquisitions) (room : acquisitions < 2 ^ 64) :
    manager.leases.lookup manager.nextId = none := by
  rw [AList.lookup_eq_none]
  intro member
  rcases sound.known _ member with ⟨number, earlier, same⟩
  rw [sound.counter] at same
  have equal := nthId_inj room (earlier.trans room) same
  omega

theorem Sound.tick (sound : manager.Sound acquisitions) (sweep : Sweep) :
    (manager.tick sweep).Sound acquisitions where
  indexed := sound.indexed.tick sweep
  counter := by rw [nextId_tick, sound.counter]
  known id member := by
    apply sound.known id
    rw [← AList.lookup_isSome, lookup_leases_tick, Option.isSome_map] at member
    exact AList.lookup_isSome.mp member

theorem Sound.close (sound : manager.Sound acquisitions) {id : LeaseId}
    (found : manager.leases.lookup id = some lease) (active : lease.state = .active)
    (closed : state ≠ .active) :
    (manager.close id lease state).Sound acquisitions where
  indexed := sound.indexed.close found active closed
  counter := sound.counter
  known query member := by
    rcases (AList.mem_insert _).mp member with rfl | member
    · exact sound.known query (AList.lookup_isSome.mp (Option.isSome_of_mem found))
    · exact sound.known query member

theorem Sound.grant (sound : manager.Sound acquisitions) (room : acquisitions < 2 ^ 64)
    (free : (jobId, runnerId) ∉ manager.activeByPair) (acquiredAtNs : UInt64) :
    (manager.grant jobId runnerId acquiredAtNs).Sound (acquisitions + 1) where
  indexed := sound.indexed.grant free (sound.fresh room) acquiredAtNs
  counter := by
    show manager.nextId + 1 = nthId (acquisitions + 1)
    rw [sound.counter, nthId, nthId, UInt64.ofNat_add (acquisitions + 1) 1]
    rfl
  known query member := by
    rcases (AList.mem_insert _).mp member with rfl | member
    · exact ⟨acquisitions, Nat.lt_succ_self _, sound.counter⟩
    · rcases sound.known query member with ⟨number, earlier, same⟩
      exact ⟨number, Nat.lt_succ_of_lt earlier, same⟩

/-- An acquisition is refused while the pair holds a lease. -/
theorem Indexed.acquire_of_held (indexed : manager.Indexed)
    (held : (manager.heldSince sweep.nowNs (jobId, runnerId)).isSome) (acquiredAtNs : UInt64) :
    manager.acquire sweep jobId runnerId acquiredAtNs =
      (.error .alreadyLeased, manager.tick sweep) :=
  if_pos ((indexed.mem_activeByPair_tick sweep _).mpr held)

/-- A pair that holds no lease is granted one. -/
theorem Indexed.acquire_of_idle (indexed : manager.Indexed)
    (idle : ¬(manager.heldSince sweep.nowNs (jobId, runnerId)).isSome) (acquiredAtNs : UInt64) :
    manager.acquire sweep jobId runnerId acquiredAtNs =
      (.ok (manager.tick sweep).nextId,
        (manager.tick sweep).grant jobId runnerId acquiredAtNs) :=
  if_neg fun listed => idle ((indexed.mem_activeByPair_tick sweep _).mp listed)

theorem Sound.acquire (sound : manager.Sound acquisitions) (room : acquisitions < 2 ^ 64)
    (sweep : Sweep) (jobId : JobId) (runnerId : RunnerId) (acquiredAtNs : UInt64) :
    ∃ total ≤ acquisitions + 1,
      (manager.acquire sweep jobId runnerId acquiredAtNs).2.Sound total := by
  by_cases held : (manager.heldSince sweep.nowNs (jobId, runnerId)).isSome
  · rw [sound.indexed.acquire_of_held held]
    exact ⟨acquisitions, Nat.le_succ _, sound.tick sweep⟩
  · rw [sound.indexed.acquire_of_idle held]
    have free := fun listed => held ((sound.indexed.mem_activeByPair_tick sweep _).mp listed)
    exact ⟨acquisitions + 1, le_rfl, (sound.tick sweep).grant room free _⟩

theorem Indexed.defaultTtlNs_acquire (indexed : manager.Indexed) (sweep : Sweep) (jobId : JobId)
    (runnerId : RunnerId) (acquiredAtNs : UInt64) :
    (manager.acquire sweep jobId runnerId acquiredAtNs).2.defaultTtlNs =
      manager.defaultTtlNs := by
  by_cases held : (manager.heldSince sweep.nowNs (jobId, runnerId)).isSome
  · rw [indexed.acquire_of_held held, defaultTtlNs_tick]
  · rw [indexed.acquire_of_idle held]
    exact defaultTtlNs_tick manager sweep

/-- What is held after an acquisition, at any reading from the acquisition on. -/
theorem Sound.heldSince_acquire (sound : manager.Sound acquisitions) (room : acquisitions < 2 ^ 64)
    {later : UInt64} (ordered : sweep.nowNs ≤ later) (jobId : JobId) (runnerId : RunnerId)
    (acquiredAtNs : UInt64) (pair : JobId × RunnerId) :
    (manager.acquire sweep jobId runnerId acquiredAtNs).2.heldSince later pair =
      if pair = (jobId, runnerId) ∧
          ¬(manager.heldSince sweep.nowNs (jobId, runnerId)).isSome then
        if later < saturatingAdd acquiredAtNs manager.defaultTtlNs then some acquiredAtNs
        else none
      else manager.heldSince later pair := by
  by_cases held : (manager.heldSince sweep.nowNs (jobId, runnerId)).isSome
  · rw [sound.indexed.acquire_of_held held, if_neg (fun both => both.2 held),
      sound.indexed.heldSince_tick ordered]
  · have swept := sound.tick sweep
    rw [sound.indexed.acquire_of_idle held,
      heldSince_grant swept.indexed (swept.fresh room), defaultTtlNs_tick,
      sound.indexed.heldSince_tick ordered]
    simp only [held, Bool.false_eq_true, not_false_eq_true, and_true]

/-- One call: the identifier it hands out is the next one, and the state stays
sound. -/
theorem Sound.step (sound : manager.Sound acquisitions) (call : Call)
    (room : acquisitions + (machine.step manager call).1.issued.toList.length ≤ 2 ^ 64) :
    (machine.step manager call).1.issued.toList = ((List.range'
        acquisitions (machine.step manager call).1.issued.toList.length).map nthId) ∧
      (machine.step manager call).2.Sound
        (acquisitions + (machine.step manager call).1.issued.toList.length) ∧
      manager.Continues (machine.step manager call).2 := by
  have effect := effect_step manager call
  have sound := sound.tick call.sweep
  have continues := manager.continues_tick call.sweep
  revert room effect
  generalize (machine.step manager call).1.issued = issued
  generalize (machine.step manager call).2 = next
  intro room effect
  cases effect with
  | unchanged => exact ⟨rfl, sound, continues⟩
  | @completed id lease found active =>
      have closed : LeaseState.completed ≠ .active := by decide
      exact ⟨rfl, sound.close found active closed,
        continues.trans (continues_close found closed)⟩
  | @granted jobId runnerId acquiredAtNs free =>
      have room : acquisitions < 2 ^ 64 := room
      exact ⟨congrArg ([·]) sound.counter, sound.grant room free acquiredAtNs,
        continues.trans (continues_grant (sound.fresh room) jobId runnerId acquiredAtNs)⟩

/-- A run hands out consecutive identifiers and keeps the state sound. -/
theorem Sound.run (sound : manager.Sound acquisitions) (calls : List Call)
    (room : acquisitions + (manager.issuedIds calls).length ≤ 2 ^ 64) :
    manager.issuedIds calls =
        (List.range' acquisitions (manager.issuedIds calls).length).map nthId ∧
      (machine.final manager calls).Sound
        (acquisitions + (manager.issuedIds calls).length) ∧
      manager.Continues (machine.final manager calls) := by
  induction calls generalizing manager acquisitions with
  | nil => exact ⟨rfl, sound, .refl manager⟩
  | cons call rest ih =>
      have split : manager.issuedIds (call :: rest) =
          (machine.step manager call).1.issued.toList ++
            (machine.step manager call).2.issuedIds rest := machine.observe_cons _ _ _ _
      rw [split, List.length_append] at room ⊢
      rcases sound.step call (by omega) with ⟨first, sound, continues⟩
      rcases ih sound (by omega) with ⟨later, sound, continues'⟩
      refine ⟨?_, ?_, continues.trans continues'⟩
      · rw [← List.range'_append_1, List.map_append, ← first, ← later]
      · rw [← Nat.add_assoc]
        exact sound

/-- Under any clock, as long as the identifiers do not wrap around: the index maps a
pair to a lease exactly when that lease is active for the pair, no pair has two
active leases, a lease that is no longer active never becomes active again, and no
identifier is handed out twice. -/
theorem run_index_exact (defaultTtlNs : UInt64) (calls : List Call)
    (few : ((new defaultTtlNs).issuedIds calls).length < 2 ^ 64) :
    (∀ jobId runnerId id,
        (machine.final (new defaultTtlNs) calls).activeByPair.lookup (jobId, runnerId) =
            some id ↔
          ∃ lease, (machine.final (new defaultTtlNs) calls).leases.lookup id = some lease ∧
            lease.state = .active ∧ lease.jobId = jobId ∧ lease.runnerId = runnerId) ∧
      (∀ first second left right,
        (machine.final (new defaultTtlNs) calls).leases.lookup first = some left →
        (machine.final (new defaultTtlNs) calls).leases.lookup second = some right →
        left.state = .active → right.state = .active → left.jobId = right.jobId →
        left.runnerId = right.runnerId → first = second) ∧
      (∀ earlier later id lease, calls = earlier ++ later →
        (machine.final (new defaultTtlNs) earlier).leases.lookup id = some lease →
        lease.state ≠ .active →
        ∃ current, (machine.final (new defaultTtlNs) calls).leases.lookup id = some current ∧
          current.state ≠ .active) ∧
      ((new defaultTtlNs).issuedIds calls).Nodup := by
  rcases (sound_new defaultTtlNs).run calls (by omega) with ⟨ids, sound, _⟩
  refine ⟨?_, ?_, ?_, ?_⟩
  · intro jobId runnerId id
    rw [sound.indexed]
    simp [ActiveAs, Lease.pair]
  · intro first second left right foundLeft foundRight activeLeft activeRight job runner
    have samePair : left.pair = right.pair := Prod.ext job runner
    exact sound.indexed.unique ⟨left, foundLeft, activeLeft, samePair⟩
      ⟨right, foundRight, activeRight, rfl⟩
  · rintro earlier later id lease rfl found inactive
    have total : ((new defaultTtlNs).issuedIds (earlier ++ later)).length =
        ((new defaultTtlNs).issuedIds earlier).length +
          ((machine.final (new defaultTtlNs) earlier).issuedIds later).length := by
      rw [issuedIds, machine.observe_append, List.length_append]
      rfl
    rcases (sound_new defaultTtlNs).run earlier (by omega) with ⟨_, before, _⟩
    rcases before.run later (by omega) with ⟨_, _, continues⟩
    rcases continues id lease found with ⟨current, foundCurrent, _, revives⟩
    rw [machine.final_append]
    exact ⟨current, foundCurrent, fun active => inactive (revives active)⟩
  · rw [ids]
    apply List.Nodup.map_on
    · intro left inLeft right inRight same
      rw [List.mem_range'_1] at inLeft inRight
      exact nthId_inj (by omega) (by omega) same
    · exact List.nodup_range'

/-- Two acquisitions, a completion and a renewed acquisition while the clock runs
backwards. -/
def renewalCalls : List Call :=
  [⟨⟨100, .stored⟩, .acquire 1 1 100⟩, ⟨⟨90, .stored⟩, .acquire 1 2 90⟩,
    ⟨⟨80, .stored⟩, .complete 1⟩, ⟨⟨70, .stored⟩, .acquire 1 1 70⟩]

theorem run_index_exact_renewal :
    ((new 50).issuedIds renewalCalls).length < 2 ^ 64 ∧
      (∃ lease, (machine.final (new 50) renewalCalls).leases.lookup 3 = some lease ∧
        lease.state = .active ∧ lease.jobId = 1 ∧ lease.runnerId = 1) ∧
      ((new 50).issuedIds renewalCalls).Nodup := by
  have issued : (new 50).issuedIds renewalCalls = [1, 2, 3] := by decide +kernel
  have few : ((new 50).issuedIds renewalCalls).length < 2 ^ 64 := by
    rw [issued]
    decide
  rcases run_index_exact 50 renewalCalls few with ⟨indexed, _, _, distinct⟩
  exact ⟨few, (indexed 1 1 3).mp (by decide +kernel), distinct⟩

end LeaseManager

end Cosaci.State
