import Cosaci.State.Sharding

/-!
# The sharded store

The store of `cosaci-state` that rebalances in one call: all shards are drained, a new
vector of shards is made, and every entry is written again under its new routing.  A
shard is a hash map, so a rebalance comes with the order in which the shards are walked.
The store refines a single map on which a rebalance does nothing.
-/

namespace Cosaci.State

open Cosaci.Foundation

/-- A key/value store over one set of shards. -/
structure ShardedStore where
  shards : ShardSet

namespace ShardedStore

def new (nShards : Nat) (positive : 0 < nShards) : ShardedStore :=
  ⟨Shards.fresh shardRouter Value nShards positive⟩

def nShards (store : ShardedStore) : Nat :=
  store.shards.tables.length

/-- The number of entries of all shards. -/
def len (store : ShardedStore) : Nat :=
  store.shards.size

def put (store : ShardedStore) (key : Key) (value : Value) : ShardedStore :=
  ⟨store.shards.insert key value⟩

def get (store : ShardedStore) (key : Key) : Option Value :=
  store.shards.lookup key

/-- Remove a key and return its value. -/
def remove (store : ShardedStore) (key : Key) : Option Value × ShardedStore :=
  (store.shards.lookup key, ⟨store.shards.erase key⟩)

def containsKey (store : ShardedStore) (key : Key) : Bool :=
  (store.get key).isSome

/-- Drain every shard and write all entries into new shards.  There is no result on a
shard count of zero, where the source panics. -/
def rebalance (store : ShardedStore) (order : IterationOrder Key Value) (newN : Nat) :
    Option ShardedStore :=
  if positive : 0 < newN then
    let collected := store.shards.drain order
    some ⟨(Shards.fresh shardRouter Value newN positive).insertAll collected⟩
  else none

/-- A call on the store. -/
inductive Operation where
  | put (key : Key) (value : Value)
  | get (key : Key)
  | remove (key : Key)
  | containsKey (key : Key)
  | rebalance (order : IterationOrder Key Value) (newN : Nat)

/-- What a call returns. -/
inductive Reply where
  | done
  | value (value : Option Value)
  | held (held : Bool)
  deriving DecidableEq

/-- Perform one call, unless it panics. -/
def step (store : ShardedStore) : Operation → Option (Reply × ShardedStore)
  | .put key value => some (.done, store.put key value)
  | .get key => some (.value (store.get key), store)
  | .remove key =>
      let (value, next) := store.remove key
      some (.value value, next)
  | .containsKey key => some (.held (store.containsKey key), store)
  | .rebalance order newN => (store.rebalance order newN).map fun next => (.done, next)

/-- The replies to a sequence of calls and the store after it, unless a call panics. -/
def run (store : ShardedStore) : List Operation → Option (List Reply × ShardedStore)
  | [] => some ([], store)
  | operation :: rest => do
      let (reply, next) ← store.step operation
      let (replies, last) ← next.run rest
      return (reply :: replies, last)

/-! ## The single map -/

/-- The map that the store stands for. -/
def plainMap : Machine (Table Key Value) Operation Reply where
  step map
    | .put key value => (.done, map.insert key value)
    | .get key => (.value (map.lookup key), map)
    | .remove key => (.value (map.lookup key), map.erase key)
    | .containsKey key => (.held (decide (key ∈ map)), map)
    | .rebalance _ _ => (.done, map)

/-- Every rebalance asks for at least one shard. -/
def Operation.Sized : Operation → Prop
  | .rebalance _ newN => 0 < newN
  | _ => True

/-- The shard count after a call. -/
def Operation.shardsAfter (count : Nat) : Operation → Nat
  | .rebalance _ newN => newN
  | _ => count

/-- The store answers as the map does. -/
def Represents (store : ShardedStore) (map : Table Key Value) : Prop :=
  ∀ key, store.get key = map.lookup key

theorem represents_new (nShards : Nat) (positive : 0 < nShards) :
    (new nShards positive).Represents ∅ := by
  intro key
  rw [get, new, Shards.lookup_fresh, AList.lookup_empty]

theorem nShards_new (nShards : Nat) (positive : 0 < nShards) :
    (new nShards positive).nShards = nShards :=
  List.length_replicate

-- Stated of the functions: with their arguments, the kernel would evaluate the hash.
theorem route_shardRouter : shardRouter.route = shardOf :=
  rfl

theorem home_shards (store : ShardedStore) (key : Key) :
    store.shards.home key = shardOf key store.nShards := by
  rw [Shards.home, route_shardRouter, nShards]

section Step

variable {store : ShardedStore} {map : Table Key Value} (represents : store.Represents map)

include represents in
theorem Represents.put (key : Key) (value : Value) :
    (store.put key value).Represents (map.insert key value) := by
  intro query
  rw [get, ShardedStore.put, Shards.lookup_insert, Table.lookup_insert_eq, ← represents query]
  rfl

include represents in
theorem Represents.remove (key : Key) :
    (store.remove key).2.Represents (map.erase key) := by
  intro query
  rw [get, ShardedStore.remove, Shards.lookup_erase]
  by_cases same : query = key
  · rw [if_pos same, same, AList.lookup_erase]
  · rw [if_neg same, AList.lookup_erase_ne same, ← represents query]
    rfl

include represents in
theorem Represents.containsKey (key : Key) : store.containsKey key = decide (key ∈ map) := by
  rw [ShardedStore.containsKey, represents key, ← Bool.coe_iff_coe, decide_eq_true_eq,
    AList.lookup_isSome]

include represents in
/-- Every entry is found again under the new routing. -/
theorem Represents.rebalance (order : IterationOrder Key Value) {newN : Nat}
    (positive : 0 < newN) :
    ∃ next, store.rebalance order newN = some next ∧ next.nShards = newN ∧
      next.Represents map := by
  refine ⟨_, dif_pos positive, ?_, ?_⟩
  · rw [nShards, Shards.length_insertAll]
    exact List.length_replicate
  · intro key
    rw [get, Shards.lookup_insertAll_drain, Shards.lookup_fresh, Option.or_none,
      ← represents key]
    rfl

include represents in
/-- One call: it does not panic, replies as the map does, and keeps the representation. -/
theorem Represents.step {operation : Operation} (sized : operation.Sized) :
    ∃ next, store.step operation = some ((plainMap.step map operation).1, next) ∧
      next.nShards = operation.shardsAfter store.nShards ∧
      next.Represents (plainMap.step map operation).2 := by
  cases operation with
  | put key value =>
      exact ⟨_, rfl, List.length_modify .., represents.put key value⟩
  | get key =>
      refine ⟨store, ?_, rfl, represents⟩
      rw [ShardedStore.step, represents key]
      rfl
  | remove key =>
      refine ⟨(store.remove key).2, ?_, List.length_modify .., represents.remove key⟩
      simp only [plainMap, ← represents key]
      rfl
  | containsKey key =>
      refine ⟨store, ?_, rfl, represents⟩
      rw [ShardedStore.step, represents.containsKey key]
      rfl
  | rebalance order newN =>
      rcases represents.rebalance order sized with ⟨next, moved, count, represents⟩
      refine ⟨next, ?_, count, represents⟩
      rw [ShardedStore.step, moved]
      rfl

end Step

/-! ## Whole runs -/

/-- Every run goes through and replies as the map does. -/
theorem Represents.run {store : ShardedStore} {map : Table Key Value}
    (represents : store.Represents map) {operations : List Operation}
    (sized : ∀ operation ∈ operations, operation.Sized) :
    ∃ last, store.run operations = some (plainMap.run map operations, last) ∧
      last.nShards = operations.foldl Operation.shardsAfter store.nShards ∧
      last.Represents (plainMap.final map operations) := by
  induction operations generalizing store map with
  | nil => exact ⟨store, rfl, rfl, represents⟩
  | cons operation rest ih =>
      rcases represents.step (sized operation List.mem_cons_self) with
        ⟨next, stepped, count, represents⟩
      have later : ∀ operation ∈ rest, operation.Sized := by
        intro operation member
        exact sized operation (List.mem_cons_of_mem _ member)
      rcases ih represents later with ⟨last, ran, lastCount, represents⟩
      refine ⟨last, ?_, ?_, represents⟩
      · simp only [ShardedStore.run, stepped, ran, Option.bind_eq_bind, Option.bind_some]
        rfl
      · rw [lastCount, count, List.foldl_cons]

/-- A sequence of rebalances. -/
def rebalances (sizes : List (IterationOrder Key Value × Nat)) : List Operation :=
  sizes.map fun size => .rebalance size.1 size.2

theorem run_rebalances (map : Table Key Value)
    (sizes : List (IterationOrder Key Value × Nat)) :
    plainMap.run map (rebalances sizes) = sizes.map fun _ => .done := by
  induction sizes generalizing map with
  | nil => rfl
  | cons size rest ih => exact congrArg (Reply.done :: ·) (ih map)

/-- A sequence of rebalances does nothing to the map. -/
theorem final_rebalances (map : Table Key Value)
    (sizes : List (IterationOrder Key Value × Nat)) :
    plainMap.final map (rebalances sizes) = map := by
  induction sizes generalizing map with
  | nil => rfl
  | cons size rest ih => exact ih map

/-- A sharded store is a map under every sequence of calls: it replies as the map does,
holds each key of the map in the one shard that the current shard count routes it to,
counts the keys, and no sequence of further rebalances changes what it holds. -/
theorem run_agrees_with_map (nShards : Nat) (positive : 0 < nShards)
    (operations : List Operation) (sized : ∀ operation ∈ operations, operation.Sized) :
    ∃ last, (new nShards positive).run operations = some (plainMap.run ∅ operations, last) ∧
      last.nShards = operations.foldl Operation.shardsAfter nShards ∧
      (∀ key, last.get key = (plainMap.final ∅ operations).lookup key) ∧
      (∀ index shard key, last.shards.tables[index]? = some shard →
        (key ∈ shard ↔
          key ∈ plainMap.final ∅ operations ∧ shardOf key last.nShards = index)) ∧
      last.len = (plainMap.final ∅ operations).keys.length ∧
      ∀ sizes : List (IterationOrder Key Value × Nat), (∀ size ∈ sizes, 0 < size.2) →
        ∃ moved, last.run (rebalances sizes) = some (sizes.map fun _ => .done, moved) ∧
          ∀ key, moved.get key = last.get key := by
  rcases (represents_new nShards positive).run sized with ⟨last, ran, count, represents⟩
  rw [nShards_new] at count
  refine ⟨last, ran, count, represents, ?_, ?_, ?_⟩
  · intro index shard key found
    rw [last.shards.mem_getElem?_iff found, ← AList.lookup_isSome, ← represents key, home_shards,
      get]
  · exact last.shards.size_eq_of_lookup _ represents
  · intro sizes positives
    have sizedMoves : ∀ operation ∈ rebalances sizes, operation.Sized := by
      intro operation member
      rcases List.mem_map.mp member with ⟨size, listed, rfl⟩
      exact positives size listed
    rcases represents.run sizedMoves with ⟨moved, moves, -, after⟩
    rw [run_rebalances] at moves
    rw [final_rebalances] at after
    refine ⟨moved, moves, ?_⟩
    intro key
    rw [after key, represents key]

/-- Two rebalances, the second of which walks the shards in another order, with a removal
between them. -/
def resizedRun : List Operation :=
  [.put 1 10, .put 2 20, .rebalance .stored 3, .remove 1, .containsKey 2,
    .rebalance (.lastly 2) 1, .get 2]

theorem run_agrees_with_map_resized :
    (0 < 2 ∧ ∀ operation ∈ resizedRun, operation.Sized) ∧
      ∃ last, (new 2 (by decide)).run resizedRun =
          some ([.done, .done, .done, .value (some 10), .held true, .done,
            .value (some 20)], last) ∧
        last.nShards = 1 ∧ last.len = 1 := by
  have positive : 0 < 2 := by decide
  have sized : ∀ operation ∈ resizedRun, operation.Sized := by
    intro operation member
    simp only [resizedRun, List.mem_cons, List.not_mem_nil, or_false] at member
    rcases member with rfl | rfl | rfl | rfl | rfl | rfl | rfl <;> simp [Operation.Sized]
  rcases run_agrees_with_map 2 positive resizedRun sized with ⟨last, ran, count, -, -, size, -⟩
  exact ⟨⟨positive, sized⟩, last, ran, count, size⟩

end ShardedStore

end Cosaci.State
