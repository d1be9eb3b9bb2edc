import Cosaci.Foundation.Machine
import Cosaci.Foundation.Shards

/-!
# Sharded stores and incremental handoff

Keys are routed to shards by a mixing hash.  While a handoff store is being
rebalanced it keeps two sets of shards with different shard counts: writes go to
the new set, reads fall back to the old one, and keys move over one at a time.
The store refines a single map: the phases of a rebalance cannot be observed.
-/

namespace Cosaci.State

open Cosaci.Foundation

/-- A key of the store. -/
abbrev Key := UInt64

/-- A payload of the store. -/
abbrev Value := UInt64

/-- The shard of a key: an FNV-like mix and the finaliser of splitmix64, reduced
modulo the number of shards. -/
def shardOf (key : Key) (nShards : Nat) : Nat :=
  let h := (0xcbf29ce484222325 ^^^ key) * 0x00000100000001b3
  let h := h ^^^ (h >>> 33)
  let h := h * 0xff51afd7ed558ccd
  let h := h ^^^ (h >>> 33)
  h.toNat % nShards

/-- Routing by `shardOf`. -/
def shardRouter : Router Key where
  route := shardOf
  route_lt _ _ positive := Nat.mod_lt _ positive

/-- One set of shards. -/
abbrev ShardSet := Shards shardRouter Value

/-- A store that can be rebalanced in phases.  The old shards are kept while a
migration is in progress. -/
structure HandoffStore where
  newShards : ShardSet
  oldShards : Option ShardSet

namespace HandoffStore

/-- A stable store with empty shards. -/
def new (nShards : Nat) (positive : 0 < nShards) : HandoffStore where
  newShards := Shards.fresh shardRouter Value nShards positive
  oldShards := none

/-- Whether a rebalance is in progress. -/
def isMigrating (store : HandoffStore) : Bool :=
  store.oldShards.isSome

/-- Write to the new shards and drop a copy that has not migrated yet. -/
def put (store : HandoffStore) (key : Key) (value : Value) : HandoffStore where
  newShards := store.newShards.insert key value
  oldShards := store.oldShards.map fun old => old.erase key

/-- Read the new shards first and fall back to the old ones. -/
def get (store : HandoffStore) (key : Key) : Option Value :=
  match store.newShards.lookup key with
  | some value => some value
  | none =>
      match store.oldShards with
      | some old => old.lookup key
      | none => none

/-- Remove a key from both shard sets and return its value. -/
def remove (store : HandoffStore) (key : Key) : Option Value × HandoffStore :=
  let fromNew := store.newShards.lookup key
  let fromOld := store.oldShards.bind fun old => old.lookup key
  (fromNew.or fromOld,
    { newShards := store.newShards.erase key
      oldShards := store.oldShards.map fun old => old.erase key })

/-- Start a rebalance.  There is no result where the source panics: on a shard
count of zero and while a rebalance is in progress. -/
def beginRebalance (store : HandoffStore) (newN : Nat) : Option HandoffStore :=
  if positive : 0 < newN then
    match store.oldShards with
    | some _ => none
    | none => some
        { newShards := Shards.fresh shardRouter Value newN positive
          oldShards := some store.newShards }
  else none

/-- Move one key from the old to the new shards, if the old ones hold it. -/
def migrateStep (store : HandoffStore) (key : Key) : Bool × HandoffStore :=
  match store.oldShards with
  | none => (false, store)
  | some old =>
      match old.lookup key with
      | none => (false, store)
      | some value => (true,
          { newShards := store.newShards.insert key value
            oldShards := some (old.erase key) })

/-- Drain the old shards into the new ones and drop them. -/
def completeRebalance (order : IterationOrder Key Value) (store : HandoffStore) :
    HandoffStore :=
  match store.oldShards with
  | none => store
  | some old =>
      { newShards := store.newShards.insertAll (old.drain order)
        oldShards := none }

/-- The number of entries of both shard sets. -/
def len (store : HandoffStore) : Nat :=
  store.newShards.size + (store.oldShards.map Shards.size).getD 0

/-! ## Refinement of a single map -/

/-- What the old shards hold for a key. -/
def getOld (store : HandoffStore) (key : Key) : Option Value :=
  store.oldShards.bind fun old => old.lookup key

variable {store : HandoffStore} {map : Table Key Value}

theorem getOld_of_migrating {old : ShardSet} (migrating : store.oldShards = some old) (key : Key) :
    store.getOld key = old.lookup key := by
  rw [getOld, migrating, Option.bind_some]

theorem get_eq (store : HandoffStore) (key : Key) :
    store.get key = (store.newShards.lookup key).or (store.getOld key) := by
  unfold get getOld
  cases store.newShards.lookup key with
  | some value => rfl
  | none =>
      cases store.oldShards with
      | some old => rfl
      | none => rfl

/-- No key is present in both shard sets. -/
def Separate (store : HandoffStore) : Prop :=
  ∀ key, store.newShards.lookup key = none ∨ store.getOld key = none

/-- The store answers as the map does, and holds no key twice. -/
structure Represents (store : HandoffStore) (map : Table Key Value) : Prop where
  separate : store.Separate
  agrees : ∀ key, store.get key = map.lookup key

/-- The keys of the old shards; none once the store is stable. -/
def oldKeys (store : HandoffStore) : List Key :=
  (store.oldShards.map Shards.keys).getD []

theorem mem_oldKeys (store : HandoffStore) (key : Key) :
    key ∈ store.oldKeys ↔ (store.getOld key).isSome := by
  unfold oldKeys getOld
  cases store.oldShards with
  | none => simp
  | some old => exact old.mem_keys key

theorem oldKeys_nodup (store : HandoffStore) : store.oldKeys.Nodup := by
  unfold oldKeys
  cases store.oldShards with
  | none => exact List.nodup_nil
  | some old => exact old.keys_nodup

theorem len_eq (store : HandoffStore) :
    store.len = (store.newShards.keys ++ store.oldKeys).length := by
  unfold len oldKeys
  cases store.oldShards with
  | none => simp [Shards.size_eq_length_keys]
  | some old => simp [Shards.size_eq_length_keys]

/-- Both shard sets together hold as many entries as the map. -/
theorem Represents.len (represents : store.Represents map) : store.len = map.entries.length := by
  have distinct : (store.newShards.keys ++ store.oldKeys).Nodup := by
    apply List.Nodup.append store.newShards.keys_nodup store.oldKeys_nodup
    intro key inNew inOld
    rw [Shards.mem_keys] at inNew
    rw [mem_oldKeys] at inOld
    rcases represents.separate key with absent | absent
    · rw [absent] at inNew
      cases inNew
    · rw [absent] at inOld
      cases inOld
  have sameKeys : (store.newShards.keys ++ store.oldKeys).Perm map.keys := by
    rw [List.perm_ext_iff_of_nodup distinct map.keys_nodup]
    intro key
    rw [List.mem_append, Shards.mem_keys, mem_oldKeys, ← AList.mem_keys,
      ← AList.lookup_isSome, ← represents.agrees, get_eq, Option.isSome_or, Bool.or_eq_true]
  rw [store.len_eq, sameKeys.length_eq]
  simp [AList.keys, List.keys]

/-- Erasing a key from the old shards affects that key only. -/
theorem bind_lookup_map_erase (old : Option ShardSet) (key query : Key) :
    (old.map fun old => old.erase key).bind (fun old => old.lookup query) =
      if query = key then none else old.bind fun old => old.lookup query := by
  cases old with
  | none => simp
  | some old => rw [Option.map_some, Option.bind_some, Option.bind_some, Shards.lookup_erase]

theorem Represents.new (nShards : Nat) (positive : 0 < nShards) :
    (new nShards positive).Represents ∅ where
  separate _ := Or.inr rfl
  agrees key := by simp [get_eq, HandoffStore.new, getOld]

theorem Represents.put (represents : store.Represents map) (key : Key) (value : Value) :
    (store.put key value).Represents (map.insert key value) where
  separate query := by
    rw [getOld, HandoffStore.put, Shards.lookup_insert, bind_lookup_map_erase]
    by_cases same : query = key
    · exact Or.inr (if_pos same)
    · rw [if_neg same, if_neg same]
      exact represents.separate query
  agrees query := by
    rw [get_eq, getOld, HandoffStore.put, Shards.lookup_insert, bind_lookup_map_erase,
      Table.lookup_insert_eq, ← represents.agrees, get_eq, getOld]
    by_cases same : query = key <;> simp [same]

/-- A removal returns the value of the map. -/
theorem Represents.remove_fst (represents : store.Represents map) (key : Key) :
    (store.remove key).1 = map.lookup key := by
  rw [← represents.agrees, get_eq]
  rfl

theorem Represents.remove_snd (represents : store.Represents map) (key : Key) :
    (store.remove key).2.Represents (map.erase key) where
  separate query := by
    rw [getOld, HandoffStore.remove, Shards.lookup_erase, bind_lookup_map_erase]
    by_cases same : query = key
    · exact Or.inr (if_pos same)
    · rw [if_neg same, if_neg same]
      exact represents.separate query
  agrees query := by
    rw [get_eq, getOld, HandoffStore.remove, Shards.lookup_erase, bind_lookup_map_erase]
    by_cases same : query = key
    · subst query
      rw [AList.lookup_erase, if_pos rfl, if_pos rfl, Option.or_none]
    · rw [AList.lookup_erase_ne same, ← represents.agrees, get_eq, getOld]
      simp [same]

/-- A stable store can be rebalanced to any positive number of shards. -/
theorem Represents.beginRebalance (represents : store.Represents map)
    (stable : store.isMigrating = false) {newN : Nat} (positive : 0 < newN) :
    ∃ next, store.beginRebalance newN = some next ∧ next.isMigrating = true ∧
      next.Represents map := by
  have noOld : store.oldShards = none := Option.not_isSome_iff_eq_none.mp (by
    rw [isMigrating] at stable
    simp [stable])
  have started : store.beginRebalance newN = some
      { newShards := Shards.fresh shardRouter Value newN positive
        oldShards := some store.newShards } := by
    rw [HandoffStore.beginRebalance, dif_pos positive, noOld]
  refine ⟨_, started, by simp [isMigrating], ?_, ?_⟩
  · intro key
    left
    rw [Shards.lookup_fresh]
  · intro key
    rw [← represents.agrees, get_eq, get_eq, getOld, getOld, noOld, Shards.lookup_fresh,
      Option.bind_some, Option.bind_none, Option.or_none, Option.none_or]

theorem Represents.migrateStep (represents : store.Represents map) (key : Key) :
    (store.migrateStep key).2.Represents map := by
  unfold HandoffStore.migrateStep
  split
  · exact represents
  · next old migrating =>
      split
      · exact represents
      · next value present =>
          have absent : store.newShards.lookup key = none := by
            rcases represents.separate key with absent | absent
            · exact absent
            · rw [getOld_of_migrating migrating, present] at absent
              cases absent
          constructor
          · intro query
            rw [getOld_of_migrating rfl, Shards.lookup_insert, Shards.lookup_erase]
            by_cases same : query = key
            · exact Or.inr (if_pos same)
            · rw [if_neg same, if_neg same, ← getOld_of_migrating migrating]
              exact represents.separate query
          · intro query
            rw [← represents.agrees, get_eq, get_eq, getOld_of_migrating rfl,
              getOld_of_migrating migrating, Shards.lookup_insert, Shards.lookup_erase]
            by_cases same : query = key
            · simp [same, absent, present]
            · simp [same]

/-- Draining puts every key that had not migrated into the new shards. -/
theorem Represents.completeRebalance (represents : store.Represents map)
    (order : IterationOrder Key Value) : (store.completeRebalance order).Represents map := by
  unfold HandoffStore.completeRebalance
  split
  · exact represents
  · next old migrating =>
      constructor
      · intro query
        exact Or.inr rfl
      · intro query
        rw [← represents.agrees, get_eq, get_eq, Shards.lookup_insertAll_drain,
          getOld_of_migrating migrating, getOld, Option.bind_none, Option.or_none]
        -- The two sources are read in the opposite order; no key is in both.
        rcases represents.separate query with absent | absent
        · simp [absent]
        · rw [getOld_of_migrating migrating] at absent
          simp [absent]

/-! ## Whole runs -/

/-- One call on the store.  Draining the old shards walks hash maps, so each
completion comes with the order in which they are walked. -/
inductive Operation where
  | put (key : Key) (value : Value)
  | get (key : Key)
  | remove (key : Key)
  | beginRebalance (newN : Nat)
  | migrateStep (key : Key)
  | completeRebalance (order : IterationOrder Key Value)

/-- Perform one call and give the value it reads, if it reads one. -/
def step (store : HandoffStore) : Operation → Option (Option Value × HandoffStore)
  | .put key value => some (none, store.put key value)
  | .get key => some (store.get key, store)
  | .remove key => some (store.remove key)
  | .beginRebalance newN => (store.beginRebalance newN).map fun next => (none, next)
  | .migrateStep key => some (none, (store.migrateStep key).2)
  | .completeRebalance order => some (none, store.completeRebalance order)

/-- The values read by a sequence of calls and the store after it, unless a call
panics. -/
def run (store : HandoffStore) : List Operation → Option (List (Option Value) × HandoffStore)
  | [] => some ([], store)
  | operation :: rest => do
      let (reply, next) ← store.step operation
      let (replies, last) ← next.run rest
      return (reply :: replies, last)

/-- The single map that the store stands for: only writes and removals change it. -/
def plainMap : Machine (Table Key Value) Operation (Option Value) where
  step map
    | .put key value => (none, map.insert key value)
    | .get key => (map.lookup key, map)
    | .remove key => (map.lookup key, map.erase key)
    | .beginRebalance _ => (none, map)
    | .migrateStep _ => (none, map)
    | .completeRebalance _ => (none, map)

/-- Whether a migration is in progress after a call. -/
def phaseAfter (migrating : Bool) : Operation → Bool
  | .beginRebalance _ => true
  | .completeRebalance _ => false
  | _ => migrating

/-- A rebalance starts with a positive shard count and only in a stable store. -/
def Allowed (migrating : Bool) : Operation → Prop
  | .beginRebalance newN => migrating = false ∧ 0 < newN
  | _ => True

/-- Every rebalance of the sequence is allowed where it starts. -/
def WellTimed : Bool → List Operation → Prop
  | _, [] => True
  | migrating, operation :: rest =>
      Allowed migrating operation ∧ WellTimed (phaseAfter migrating operation) rest

theorem isMigrating_migrateStep (store : HandoffStore) (key : Key) :
    (store.migrateStep key).2.isMigrating = store.isMigrating := by
  unfold HandoffStore.migrateStep
  split
  · rfl
  · next migrating =>
      split
      · rfl
      · simp [isMigrating, migrating]

theorem isMigrating_completeRebalance (store : HandoffStore)
    (order : IterationOrder Key Value) :
    (store.completeRebalance order).isMigrating = false := by
  unfold HandoffStore.completeRebalance
  split
  · next stable => simp [isMigrating, stable]
  · rfl

/-- One call: it does not panic, reads what the map reads, and keeps the
representation. -/
theorem Represents.step (represents : store.Represents map) {operation : Operation}
    (allowed : Allowed store.isMigrating operation) :
    ∃ next, store.step operation = some ((plainMap.step map operation).1, next) ∧
      next.isMigrating = phaseAfter store.isMigrating operation ∧
      next.Represents (plainMap.step map operation).2 := by
  cases operation with
  | put key value =>
      refine ⟨_, rfl, ?_, represents.put key value⟩
      simp [isMigrating, HandoffStore.put, phaseAfter]
  | get key =>
      refine ⟨store, ?_, rfl, represents⟩
      rw [HandoffStore.step, represents.agrees]
      rfl
  | remove key =>
      refine ⟨(store.remove key).2, ?_, ?_, represents.remove_snd key⟩
      · rw [HandoffStore.step]
        simp only [plainMap, ← represents.remove_fst key]
      · simp [isMigrating, HandoffStore.remove, phaseAfter]
  | beginRebalance newN =>
      rcases represents.beginRebalance allowed.1 allowed.2 with
        ⟨next, started, migrating, represents⟩
      refine ⟨next, ?_, migrating, represents⟩
      rw [HandoffStore.step, started]
      rfl
  | migrateStep key =>
      exact ⟨_, rfl, store.isMigrating_migrateStep key, represents.migrateStep key⟩
  | completeRebalance order =>
      exact ⟨_, rfl, store.isMigrating_completeRebalance order,
        represents.completeRebalance order⟩

/-- Every well-timed run goes through and reads what the map reads. -/
theorem Represents.run (represents : store.Represents map) {operations : List Operation}
    (wellTimed : WellTimed store.isMigrating operations) :
    ∃ last, store.run operations = some (plainMap.run map operations, last) ∧
      last.Represents (plainMap.final map operations) := by
  induction operations generalizing store map with
  | nil => exact ⟨store, rfl, represents⟩
  | cons operation rest ih =>
      rcases represents.step wellTimed.1 with ⟨next, stepped, phase, represents⟩
      have wellTimed := wellTimed.2
      rw [← phase] at wellTimed
      rcases ih represents wellTimed with ⟨last, ran, represents⟩
      refine ⟨last, ?_, represents⟩
      simp only [HandoffStore.run, stepped, ran, Option.bind_eq_bind, Option.bind_some]
      rfl

/-- A handoff store is a map under every sequence of calls: it reads and removes
the values of the map, counts its keys, and never holds a key in both shard sets. -/
theorem run_refines_map (nShards : Nat) (positive : 0 < nShards)
    (operations : List Operation) (wellTimed : WellTimed false operations) :
    ∃ last, (new nShards positive).run operations = some (plainMap.run ∅ operations, last) ∧
      (∀ key, last.get key = (plainMap.final ∅ operations).lookup key) ∧
      last.len = (plainMap.final ∅ operations).entries.length ∧
      ∀ key, last.newShards.lookup key = none ∨ last.getOld key = none := by
  rcases (Represents.new nShards positive).run wellTimed with ⟨last, ran, represents⟩
  exact ⟨last, ran, represents.agrees, represents.len, represents.separate⟩

/-- A rebalance from two to three shards with a write, a migrated key and a removal
between its start and its end. -/
def rebalancedRun : List Operation :=
  [.put 1 10, .put 2 20, .beginRebalance 3, .put 2 21, .migrateStep 1, .remove 1,
    .completeRebalance .stored, .get 2]

theorem run_refines_map_rebalanced :
    (0 < 2 ∧ WellTimed false rebalancedRun) ∧
      ∃ last, (new 2 (by decide)).run rebalancedRun =
          some ([none, none, none, none, none, some 10, none, some 21], last) ∧
        last.get 2 = some 21 ∧ last.len = 1 := by
  have positive : 0 < 2 := by decide
  have wellTimed : WellTimed false rebalancedRun :=
    ⟨trivial, trivial, ⟨rfl, by decide⟩, trivial, trivial, trivial, trivial, trivial, trivial⟩
  rcases run_refines_map 2 positive rebalancedRun wellTimed with ⟨last, ran, agrees, size, _⟩
  refine ⟨⟨positive, wellTimed⟩, last, ran, ?_, size⟩
  rw [agrees]
  rfl

end HandoffStore

end Cosaci.State
