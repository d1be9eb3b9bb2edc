import Cosaci.State.Lease

/-!
# A cluster of two lease replicas

While the replicas are connected, an acquisition on one side is repeated on the
other.  A partition stops that.  Healing keeps the replica of the majority and
replaces the other one by an empty manager; the leases of the majority are not
copied over, so the replicas agree after healing exactly when the majority holds
no lease at that moment.

The clock changes only between operations: all readings of one operation agree.
-/

namespace Cosaci.State

open Cosaci.Foundation
open Cosaci.Core (JobId RunnerId)

/-- One of the two replicas. -/
inductive Side where
  | a
  | b
  deriving DecidableEq, Repr

/-- The opposite side. -/
def Side.other : Side → Side
  | .a => .b
  | .b => .a

theorem Side.other_ne (side : Side) : side.other ≠ side := by
  cases side <;> decide

theorem Side.eq_or_eq_other (side query : Side) : query = side ∨ query = side.other := by
  cases side <;> cases query <;> simp [Side.other]

/-- Why an operation of the cluster fails. -/
inductive ClusterError where
  | alreadyLeased
  deriving DecidableEq, Repr

/-- The error of a replica as an error of the cluster. -/
def ClusterError.ofLeaseError : LeaseError → ClusterError
  | .alreadyLeased => .alreadyLeased

/-- What an operation depends on besides the cluster: its clock reading and the
order in which each replica walks its leases. -/
structure Moment where
  nowNs : UInt64
  order : Side → IterationOrder LeaseId Lease

/-- The sweep of one replica. -/
def Moment.sweep (moment : Moment) (side : Side) : Sweep where
  nowNs := moment.nowNs
  order := moment.order side

/-- A moment at which both replicas walk their leases in stored order. -/
def Moment.stored (nowNs : UInt64) : Moment where
  nowNs := nowNs
  order _ := .stored

/-- Two lease replicas, connected or partitioned. -/
structure TwoReplicaCluster where
  replicaA : LeaseManager
  replicaB : LeaseManager
  partitioned : Bool
  majority : Side
  ttlNs : UInt64

namespace TwoReplicaCluster

/-- A connected cluster with empty replicas. -/
def new (ttlNs : UInt64) : TwoReplicaCluster where
  replicaA := LeaseManager.new ttlNs
  replicaB := LeaseManager.new ttlNs
  partitioned := false
  majority := .a
  ttlNs := ttlNs

/-- The replica of one side. -/
def replica (cluster : TwoReplicaCluster) : Side → LeaseManager
  | .a => cluster.replicaA
  | .b => cluster.replicaB

/-- Replace the replica of one side. -/
def setReplica (cluster : TwoReplicaCluster) (side : Side) (manager : LeaseManager) :
    TwoReplicaCluster :=
  match side with
  | .a => { cluster with replicaA := manager }
  | .b => { cluster with replicaB := manager }

/-- Acquire on one side and, while connected, repeat it on the other side if it
succeeded.  The result of the repetition is ignored. -/
def acquire (cluster : TwoReplicaCluster) (moment : Moment) (side : Side) (job : JobId)
    (runner : RunnerId) : Except ClusterError Unit × TwoReplicaCluster :=
  let outcome := (cluster.replica side).acquire (moment.sweep side) job runner moment.nowNs
  let written := cluster.setReplica side outcome.2
  match outcome.1 with
  | .ok _ =>
      if cluster.partitioned then (.ok (), written)
      else
        let repeated := (written.replica side.other).acquire (moment.sweep side.other) job
          runner moment.nowNs
        (.ok (), written.setReplica side.other repeated.2)
  | .error error => (.error (.ofLeaseError error), written)

/-- Start a partition; the majority wins when it is healed. -/
def partition (cluster : TwoReplicaCluster) (majority : Side) : TwoReplicaCluster :=
  { cluster with partitioned := true, majority := majority }

/-- End a partition: the replica of the minority is reset. -/
def heal (cluster : TwoReplicaCluster) : TwoReplicaCluster :=
  if cluster.partitioned then
    { cluster.setReplica cluster.majority.other (LeaseManager.new cluster.ttlNs) with
      partitioned := false }
  else { cluster with partitioned := false }

/-- Whether a side has an active lease for a pair. -/
def sideHasActive (cluster : TwoReplicaCluster) (moment : Moment) (side : Side) (job : JobId)
    (runner : RunnerId) : Bool × TwoReplicaCluster :=
  let outcome := (cluster.replica side).activeLeaseFor (moment.sweep side) job runner
  (outcome.1.isSome, cluster.setReplica side outcome.2)

/-! ## Single operations -/

@[simp] theorem replica_setReplica (cluster : TwoReplicaCluster) (side query : Side)
    (manager : LeaseManager) :
    (cluster.setReplica side manager).replica query =
      if query = side then manager else cluster.replica query := by
  cases side <;> cases query <;> rfl

variable {cluster : TwoReplicaCluster} {side : Side} {job : JobId} {moment : Moment}
  {runner : RunnerId} {nowNs : UInt64} {operations : Nat}

/-- What holds of the new replica and of the old ones holds of all replicas. -/
theorem forall_replica_setReplica {manager : LeaseManager} (holds : Side → LeaseManager → Prop)
    (here : holds side manager) (before : ∀ query, holds query (cluster.replica query))
    (query : Side) : holds query ((cluster.setReplica side manager).replica query) := by
  rw [replica_setReplica]
  by_cases same : query = side
  · subst query
    rwa [if_pos rfl]
  · rw [if_neg same]
    exact before query

@[simp] theorem partitioned_setReplica (cluster : TwoReplicaCluster) (side : Side)
    (manager : LeaseManager) :
    (cluster.setReplica side manager).partitioned = cluster.partitioned := by
  cases side <;> rfl

@[simp] theorem majority_setReplica (cluster : TwoReplicaCluster) (side : Side)
    (manager : LeaseManager) :
    (cluster.setReplica side manager).majority = cluster.majority := by
  cases side <;> rfl

@[simp] theorem ttlNs_setReplica (cluster : TwoReplicaCluster) (side : Side)
    (manager : LeaseManager) :
    (cluster.setReplica side manager).ttlNs = cluster.ttlNs := by
  cases side <;> rfl

/-- What a side answers is what its replica holds at the reading. -/
theorem sideHasActive_fst (indexed : (cluster.replica side).Indexed) (moment : Moment) (job : JobId)
    (runner : RunnerId) :
    (cluster.sideHasActive moment side job runner).1 =
      ((cluster.replica side).heldSince moment.nowNs (job, runner)).isSome := by
  have listed := indexed.mem_activeByPair_tick (moment.sweep side) (job, runner)
  rw [← AList.lookup_isSome] at listed
  exact Bool.eq_iff_iff.mpr listed

/-- A side refuses an acquisition while its replica holds a lease for the pair. -/
theorem acquire_of_held (indexed : (cluster.replica side).Indexed)
    (held : ((cluster.replica side).heldSince moment.nowNs (job, runner)).isSome) :
    cluster.acquire moment side job runner =
      (.error .alreadyLeased,
        cluster.setReplica side ((cluster.replica side).tick (moment.sweep side))) := by
  have refused : (cluster.replica side).acquire (moment.sweep side) job runner moment.nowNs = _ :=
    indexed.acquire_of_held held moment.nowNs
  rw [acquire, refused]

/-- Otherwise the replica records a lease, and so does the other one while connected. -/
theorem acquire_of_idle (indexed : (cluster.replica side).Indexed)
    (idle : ¬((cluster.replica side).heldSince moment.nowNs (job, runner)).isSome) :
    cluster.acquire moment side job runner =
      (.ok (),
        let outcome := (cluster.replica side).acquire (moment.sweep side) job runner
          moment.nowNs
        let written := cluster.setReplica side outcome.2
        if cluster.partitioned then written
        else written.setReplica side.other ((cluster.replica side.other).acquire
          (moment.sweep side.other) job runner moment.nowNs).2) := by
  have granted : (cluster.replica side).acquire (moment.sweep side) job runner moment.nowNs = _ :=
    indexed.acquire_of_idle idle moment.nowNs
  have untouched : ∀ manager,
      (cluster.setReplica side manager).replica side.other = cluster.replica side.other := by
    intro manager
    rw [replica_setReplica, if_neg (side.other_ne)]
  simp only [acquire, granted, untouched]
  split
  · rfl
  · rfl

/-! ## Agreement of the replicas -/

/-- One operation of the cluster. -/
inductive Operation where
  | acquire (side : Side) (job : JobId) (runner : RunnerId)
  | partition (majority : Side)
  | heal

/-- An operation at a moment. -/
structure Event where
  moment : Moment
  operation : Operation

/-- The cluster as a machine; only acquisitions can fail. -/
def machine : Machine TwoReplicaCluster Event (Except ClusterError Unit) where
  step cluster event :=
    match event.operation with
    | .acquire side job runner => cluster.acquire event.moment side job runner
    | .partition majority => (.ok (), cluster.partition majority)
    | .heal => (.ok (), cluster.heal)

/-- The invariant after a number of operations, the last one at the given reading.
Connected replicas hold the same leases now and at every later reading. -/
structure Consistent (cluster : TwoReplicaCluster) (nowNs : UInt64) (operations : Nat) :
    Prop where
  sound : ∀ side, ∃ acquisitions ≤ operations, (cluster.replica side).Sound acquisitions
  ttl : ∀ side, (cluster.replica side).defaultTtlNs = cluster.ttlNs
  agree : cluster.partitioned = false → ∀ later, nowNs ≤ later → ∀ side pair,
    (cluster.replica side.other).heldSince later pair =
      (cluster.replica side).heldSince later pair

theorem Consistent.indexed (consistent : cluster.Consistent nowNs operations) (side : Side) :
    (cluster.replica side).Indexed := by
  rcases consistent.sound side with ⟨_, _, sound⟩
  exact sound.indexed

/-- One more operation leaves room for the acquisitions made so far. -/
theorem Consistent.sound_succ (consistent : cluster.Consistent nowNs operations) (side : Side) :
    ∃ acquisitions ≤ operations + 1, (cluster.replica side).Sound acquisitions := by
  rcases consistent.sound side with ⟨acquisitions, few, sound⟩
  exact ⟨acquisitions, Nat.le_succ_of_le few, sound⟩

/-- Nothing happens to a cluster that is left alone. -/
theorem Consistent.later {nowNs later : UInt64} (consistent : cluster.Consistent nowNs operations)
    (ordered : nowNs ≤ later) : cluster.Consistent later (operations + 1) where
  sound := consistent.sound_succ
  ttl := consistent.ttl
  agree connected reading reached :=
    consistent.agree connected reading (UInt64.le_trans ordered reached)

theorem consistent_new (ttlNs : UInt64) : (new ttlNs).Consistent 0 0 where
  sound side := by
    cases side with
    | a => exact ⟨0, le_rfl, LeaseManager.sound_new ttlNs⟩
    | b => exact ⟨0, le_rfl, LeaseManager.sound_new ttlNs⟩
  ttl side := by cases side <;> rfl
  agree _ _ _ side _ := by cases side <;> rfl

/-- A refused acquisition sweeps one replica, which cannot be noticed. -/
theorem Consistent.acquire_of_held (consistent : cluster.Consistent nowNs operations)
    (ordered : nowNs ≤ moment.nowNs)
    (held : ((cluster.replica side).heldSince moment.nowNs (job, runner)).isSome) :
    (cluster.acquire moment side job runner).2.Consistent moment.nowNs (operations + 1) := by
  rw [TwoReplicaCluster.acquire_of_held (consistent.indexed side) held]
  have sameHeld : ∀ query later, moment.nowNs ≤ later → ∀ pair,
      ((cluster.setReplica side ((cluster.replica side).tick (moment.sweep side))).replica
        query).heldSince later pair = (cluster.replica query).heldSince later pair := by
    refine forall_replica_setReplica (fun query manager => ∀ later, moment.nowNs ≤ later →
      ∀ pair, manager.heldSince later pair = (cluster.replica query).heldSince later pair) ?_ ?_
    · intro later after pair
      exact (consistent.indexed side).heldSince_tick after pair
    · intro query later after pair
      rfl
  constructor
  · refine forall_replica_setReplica (fun _ manager => ∃ acquisitions ≤ operations + 1,
      manager.Sound acquisitions) ?_ consistent.sound_succ
    rcases consistent.sound_succ side with ⟨acquisitions, few, sound⟩
    exact ⟨acquisitions, few, sound.tick _⟩
  · rw [ttlNs_setReplica]
    refine forall_replica_setReplica (fun _ manager => manager.defaultTtlNs = cluster.ttlNs) ?_
      consistent.ttl
    exact (LeaseManager.defaultTtlNs_tick _ _).trans (consistent.ttl side)
  · intro connected later after query pair
    rw [partitioned_setReplica] at connected
    rw [sameHeld query.other later after, sameHeld query later after]
    exact consistent.agree connected later (UInt64.le_trans ordered after) query pair

/-- The replicas after a granted acquisition: both have acquired unless partitioned. -/
theorem replica_acquire_of_idle (indexed : (cluster.replica side).Indexed)
    (idle : ¬((cluster.replica side).heldSince moment.nowNs (job, runner)).isSome) (query : Side) :
    (cluster.acquire moment side job runner).2.replica query =
      if cluster.partitioned = true ∧ query ≠ side then cluster.replica query
      else ((cluster.replica query).acquire (moment.sweep query) job runner
        moment.nowNs).2 := by
  rw [acquire_of_idle indexed idle]
  rcases side.eq_or_eq_other query with rfl | rfl
  · cases cluster.partitioned with
    | true => simp
    | false => simp [Ne.symm query.other_ne]
  · cases cluster.partitioned with
    | true => simp [side.other_ne]
    | false => simp

theorem acquire_frame (cluster : TwoReplicaCluster) (moment : Moment) (side : Side)
    (job : JobId) (runner : RunnerId) :
    (cluster.acquire moment side job runner).2.partitioned = cluster.partitioned ∧
      (cluster.acquire moment side job runner).2.majority = cluster.majority ∧
      (cluster.acquire moment side job runner).2.ttlNs = cluster.ttlNs := by
  simp only [acquire]
  split
  · split
    · simp
    · simp
  · simp

/-- A granted acquisition records the same lease on both connected replicas. -/
theorem Consistent.acquire_of_idle (consistent : cluster.Consistent nowNs operations)
    (room : operations < 2 ^ 64) (ordered : nowNs ≤ moment.nowNs)
    (idle : ¬((cluster.replica side).heldSince moment.nowNs (job, runner)).isSome) :
    (cluster.acquire moment side job runner).2.Consistent moment.nowNs (operations + 1) := by
  have after := replica_acquire_of_idle (consistent.indexed side) idle
  rcases cluster.acquire_frame moment side job runner with ⟨samePartition, _, sameTtl⟩
  constructor
  · intro query
    rw [after]
    split
    · exact consistent.sound_succ query
    · rcases consistent.sound query with ⟨acquisitions, few, sound⟩
      rcases sound.acquire (few.trans_lt room) (moment.sweep query) job runner
        moment.nowNs with ⟨total, bound, sound⟩
      exact ⟨total, bound.trans (Nat.succ_le_succ few), sound⟩
  · intro query
    rw [after, sameTtl, ← consistent.ttl query]
    split
    · rfl
    · exact (consistent.indexed query).defaultTtlNs_acquire _ _ _ _
  · intro connected later reached query pair
    rw [samePartition] at connected
    have heldNow :
        (cluster.replica query.other).heldSince (moment.sweep query.other).nowNs
            (job, runner) =
          (cluster.replica query).heldSince (moment.sweep query).nowNs (job, runner) :=
      consistent.agree connected moment.nowNs ordered query (job, runner)
    have heldLater := consistent.agree connected later (UInt64.le_trans ordered reached) query
    rcases consistent.sound query with ⟨_, few, sound⟩
    rcases consistent.sound query.other with ⟨_, fewOther, soundOther⟩
    simp only [after, connected, Bool.false_eq_true, false_and, ↓reduceIte]
    rw [sound.heldSince_acquire (few.trans_lt room) reached,
      soundOther.heldSince_acquire (fewOther.trans_lt room) reached,
      consistent.ttl, consistent.ttl, heldNow, heldLater]

theorem Consistent.acquire (consistent : cluster.Consistent nowNs operations)
    (room : operations < 2 ^ 64) (ordered : nowNs ≤ moment.nowNs) (side : Side) (job : JobId)
    (runner : RunnerId) :
    (cluster.acquire moment side job runner).2.Consistent moment.nowNs (operations + 1) := by
  by_cases held : ((cluster.replica side).heldSince moment.nowNs (job, runner)).isSome
  · exact consistent.acquire_of_held ordered held
  · exact consistent.acquire_of_idle room ordered held

theorem Consistent.partition (consistent : cluster.Consistent nowNs operations) (later : UInt64)
    (majority : Side) :
    (cluster.partition majority).Consistent later (operations + 1) where
  sound side := by
    cases side with
    | a => exact consistent.sound_succ .a
    | b => exact consistent.sound_succ .b
  ttl side := by
    cases side with
    | a => exact consistent.ttl .a
    | b => exact consistent.ttl .b
  agree connected := by cases connected

theorem replica_heal (partitioned : cluster.partitioned = true) (side : Side) :
    cluster.heal.replica side =
      if side = cluster.majority then cluster.replica side
      else LeaseManager.new cluster.ttlNs := by
  rw [heal, if_pos partitioned]
  cases winner : cluster.majority <;> cases side <;> rfl

/-- After a heal the majority answers as before and the minority has no lease. -/
theorem sideHasActive_heal (partitioned : cluster.partitioned = true) (moment : Moment)
    (side : Side) (job : JobId) (runner : RunnerId) :
    (cluster.heal.sideHasActive moment side job runner).1 =
      if side = cluster.majority then (cluster.sideHasActive moment side job runner).1
      else false := by
  have replicas := replica_heal partitioned side
  split
  · next winner =>
      rw [if_pos winner] at replicas
      rw [sideHasActive, sideHasActive, replicas]
  · next loser =>
      rw [if_neg loser] at replicas
      rw [sideHasActive_fst (by rw [replicas]; exact LeaseManager.indexed_new _), replicas,
        LeaseManager.heldSince_new]
      rfl

theorem heal_of_connected (connected : cluster.partitioned = false) : cluster.heal = cluster := by
  rw [heal, connected]
  cases cluster
  cases connected
  rfl

/-- If the majority holds no lease, no side does after a heal, then or later. -/
theorem heldSince_heal (partitioned : cluster.partitioned = true) {later reading : UInt64}
    (reached : later ≤ reading)
    (empty : ∀ pair, (cluster.replica cluster.majority).heldSince later pair = none) (side : Side)
    (pair : JobId × RunnerId) : (cluster.heal.replica side).heldSince reading pair = none := by
  rw [replica_heal partitioned]
  split
  · next winner =>
      rw [winner, ← Option.not_isSome_iff_eq_none]
      intro held
      have earlier := LeaseManager.heldSince_isSome_of_le reached held
      rw [empty] at earlier
      cases earlier
  · exact LeaseManager.heldSince_new _ _ _

/-- Healing keeps the replicas in agreement if the majority holds no lease. -/
theorem Consistent.heal (consistent : cluster.Consistent nowNs operations) {later : UInt64}
    (ordered : nowNs ≤ later) (empty : cluster.partitioned = true →
      ∀ pair, (cluster.replica cluster.majority).heldSince later pair = none) :
    cluster.heal.Consistent later (operations + 1) := by
  cases partitioned : cluster.partitioned with
  | false =>
      rw [heal_of_connected partitioned]
      exact consistent.later ordered
  | true =>
      have after := replica_heal partitioned
      have sameTtl : cluster.heal.ttlNs = cluster.ttlNs := by
        rw [TwoReplicaCluster.heal, if_pos partitioned]
        exact ttlNs_setReplica _ _ _
      constructor
      · intro side
        rw [after]
        split
        · exact consistent.sound_succ side
        · exact ⟨0, Nat.zero_le _, LeaseManager.sound_new _⟩
      · intro side
        rw [after, sameTtl]
        split
        · exact consistent.ttl side
        · rfl
      · intro _ reading reached side pair
        rw [heldSince_heal partitioned reached (empty partitioned),
          heldSince_heal partitioned reached (empty partitioned)]

/-! ## Whole runs -/

theorem Consistent.step (consistent : cluster.Consistent nowNs operations)
    (room : operations < 2 ^ 64) {event : Event} (ordered : nowNs ≤ event.moment.nowNs)
    (empty : event.operation = .heal → cluster.partitioned = true → ∀ pair,
      (cluster.replica cluster.majority).heldSince event.moment.nowNs pair = none) :
    (machine.step cluster event).2.Consistent event.moment.nowNs (operations + 1) := by
  rcases event with ⟨moment, operation⟩
  cases operation with
  | acquire side job runner => exact consistent.acquire room ordered side job runner
  | partition majority => exact consistent.partition moment.nowNs majority
  | heal => exact consistent.heal ordered (empty rfl)

/-- The clock readings of an event. -/
def readings (event : Event) : List UInt64 :=
  [event.moment.nowNs]

/-- The reading of the last event. -/
def reading (events : List Event) : UInt64 :=
  (events.flatMap readings).getLastD 0

theorem reading_append_singleton (events : List Event) (event : Event) :
    reading (events ++ [event]) = event.moment.nowNs := by
  simp [reading, readings]

theorem reading_le {done rest : List Event} {event : Event}
    (monotone : Machine.Monotone readings 0 (done ++ event :: rest)) :
    reading done ≤ event.moment.nowNs := by
  rw [Machine.Monotone, List.flatMap_append, ← List.cons_append] at monotone
  have between := (List.pairwise_append.mp monotone).2.2
  apply between
  · unfold reading
    cases done.flatMap readings with
    | nil => simp
    | cons first rest => simp [List.getLastD]
  · simp [readings]

/-- The cluster after a run. -/
def after (ttlNs : UInt64) (events : List Event) : TwoReplicaCluster :=
  machine.final (new ttlNs) events

theorem after_append_singleton (ttlNs : UInt64) (events : List Event) (event : Event) :
    after ttlNs (events ++ [event]) = (machine.step (after ttlNs events) event).2 :=
  machine.final_append _ _ _

/-- Every effective heal of the run finds the majority without an active lease. -/
def HealsEmpty (ttlNs : UInt64) (events : List Event) : Prop :=
  ∀ done event rest, events = done ++ event :: rest → event.operation = .heal →
    (after ttlNs done).partitioned = true → ∀ job runner,
      ((after ttlNs done).sideHasActive event.moment (after ttlNs done).majority job
        runner).1 = false

/-- Run lemma: the invariant holds after every initial part of the run. -/
theorem consistent_after {ttlNs : UInt64} {events : List Event}
    (monotone : Machine.Monotone readings 0 events) (few : events.length < 2 ^ 64)
    (healsEmpty : HealsEmpty ttlNs events) {done rest : List Event}
    (split : events = done ++ rest) :
    (after ttlNs done).Consistent (reading done) done.length := by
  induction done using List.reverseRecOn generalizing rest with
  | nil => exact consistent_new ttlNs
  | append_singleton done event ih =>
      rw [List.append_assoc, List.singleton_append] at split
      have consistent := ih split
      subst split
      have room : done.length < 2 ^ 64 := by
        rw [List.length_append] at few
        omega
      rw [after_append_singleton, reading_append_singleton, List.length_append]
      apply consistent.step room (reading_le monotone)
      intro heals partitioned pair
      have idle := healsEmpty done event rest rfl heals partitioned pair.1 pair.2
      rw [sideHasActive_fst (consistent.indexed _)] at idle
      exact Option.isSome_eq_false_iff.mp idle |> Option.isNone_iff_eq_none.mp

/-- Under a monotone clock that changes only between operations: in every state that
is not partitioned the replicas have the same active pairs, and a pair that is active
on the winner is refused on both sides, if and only if every heal finds the winner
without an active lease. -/
theorem connected_agreement_iff (ttlNs : UInt64) (events : List Event)
    (monotone : Machine.Monotone readings 0 events) (few : events.length < 2 ^ 64) :
    (∀ done rest, events = done ++ rest → (after ttlNs done).partitioned = false →
      ∀ moment : Moment, reading done ≤ moment.nowNs →
        (∀ job runner, ((after ttlNs done).sideHasActive moment .a job runner).1 =
          ((after ttlNs done).sideHasActive moment .b job runner).1) ∧
        ∀ side job runner, ((after ttlNs done).sideHasActive moment
            (after ttlNs done).majority job runner).1 = true →
          ((after ttlNs done).acquire moment side job runner).1 = .error .alreadyLeased) ↔
      HealsEmpty ttlNs events := by
  constructor
  · intro agreement done event rest split heals partitioned job runner
    have healed : after ttlNs (done ++ [event]) = (after ttlNs done).heal := by
      simp only [after_append_singleton, machine, heals]
    have connected : (after ttlNs (done ++ [event])).partitioned = false := by
      rw [healed, heal, if_pos partitioned]
    have reached : reading (done ++ [event]) ≤ event.moment.nowNs := by
      rw [reading_append_singleton]
      exact UInt64.le_refl _
    have split : events = (done ++ [event]) ++ rest := by
      rw [split, List.append_assoc, List.singleton_append]
    have same := (agreement _ rest split connected event.moment reached).1 job runner
    rw [healed, sideHasActive_heal partitioned, sideHasActive_heal partitioned] at same
    cases winner : (after ttlNs done).majority with
    | a => simpa [winner] using same
    | b => simpa [winner] using same.symm
  · intro healsEmpty done rest split connected moment reached
    have consistent := consistent_after monotone few healsEmpty split
    have agree := consistent.agree connected moment.nowNs reached
    constructor
    · intro job runner
      rw [sideHasActive_fst (consistent.indexed _), sideHasActive_fst (consistent.indexed _)]
      exact congrArg Option.isSome (agree .b (job, runner))
    · intro side job runner active
      rw [sideHasActive_fst (consistent.indexed _)] at active
      have held : (((after ttlNs done).replica side).heldSince moment.nowNs
          (job, runner)).isSome := by
        rcases (after ttlNs done).majority.eq_or_eq_other side with rfl | rfl
        · exact active
        · rw [agree]
          exact active
      rw [acquire_of_held (consistent.indexed side) held]

/-- The majority acquires a lease during a partition that is then healed. -/
def splitAndHealed : List Event :=
  [⟨.stored 0, .partition .a⟩, ⟨.stored 0, .acquire .a 1 1⟩, ⟨.stored 0, .heal⟩]

/-- The healed replicas disagree, and the other side grants the pair a second lease. -/
theorem splitAndHealed_disagree :
    (after 10 splitAndHealed).partitioned = false ∧
      ((after 10 splitAndHealed).sideHasActive (.stored 0) .a 1 1).1 = true ∧
      ((after 10 splitAndHealed).sideHasActive (.stored 0) .b 1 1).1 = false ∧
      ((after 10 splitAndHealed).acquire (.stored 0) .b 1 1).1 = .ok () := by
  refine ⟨?_, ?_, ?_, ?_⟩
  · decide +kernel
  · decide +kernel
  · decide +kernel
  · rfl

/-- A partition that is healed once the lease of the majority has expired. -/
def healedAfterExpiry : List Event :=
  [⟨.stored 0, .acquire .a 1 1⟩, ⟨.stored 2, .partition .b⟩, ⟨.stored 4, .acquire .a 2 2⟩,
    ⟨.stored 20, .heal⟩]

theorem connected_agreement_iff_expired :
    Machine.Monotone readings 0 healedAfterExpiry ∧ healedAfterExpiry.length < 2 ^ 64 ∧
      HealsEmpty 10 healedAfterExpiry ∧
      ∀ job runner,
        ((after 10 healedAfterExpiry).sideHasActive (.stored 20) .a job runner).1 =
          ((after 10 healedAfterExpiry).sideHasActive (.stored 20) .b job runner).1 := by
  have monotone : Machine.Monotone readings 0 healedAfterExpiry := by decide +kernel
  have few : healedAfterExpiry.length < 2 ^ 64 := by decide
  have healsEmpty : HealsEmpty 10 healedAfterExpiry := by
    intro done event rest split heals partitioned job runner
    rcases done with _ | ⟨first, _ | ⟨second, _ | ⟨third, _ | ⟨fourth, more⟩⟩⟩⟩
    · cases split
      cases heals
    · cases split
      cases heals
    · cases split
      cases heals
    · cases split
      have swept : (((after 10 (healedAfterExpiry.take 3)).replica .b).tick
          (Moment.sweep (.stored 20) .b)).activeByPair = ∅ := rfl
      exact congrArg (fun index => (AList.lookup (job, runner) index).isSome) swept
    · simp [healedAfterExpiry] at split
  have agreement := (connected_agreement_iff 10 healedAfterExpiry monotone few).mpr healsEmpty
  refine ⟨monotone, few, healsEmpty, ?_⟩
  exact (agreement healedAfterExpiry [] (List.append_nil _).symm rfl (.stored 20)
    (UInt64.le_refl _)).1

end TwoReplicaCluster

end Cosaci.State
