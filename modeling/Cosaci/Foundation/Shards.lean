import Cosaci.Foundation.Table

/-!
# Hash-partitioned maps

A router sends every key to one of the shards, for every positive number of
shards.  A sharded map is a nonempty vector of finite maps in which a key occurs
only in the shard it is routed to.  Seen through `lookup`, insertion and removal
behave as on a single map, and the sizes of the shards add up to the number of
keys found.
-/

namespace Cosaci.Foundation

/-- A choice of one shard for every key and every positive number of shards. -/
structure Router (κ : Type) where
  route : κ → Nat → Nat
  route_lt : ∀ key count, 0 < count → route key count < count

/-- A vector of maps in which every key sits in the shard it is routed to. -/
structure Shards {κ : Type} (router : Router κ) (ν : Type) where
  tables : List (Table κ ν)
  nonempty : 0 < tables.length
  routed : ∀ index table key, tables[index]? = some table → key ∈ table →
    router.route key tables.length = index

namespace Shards

variable {κ ν : Type} {router : Router κ}

/-- A vector of empty shards. -/
def fresh (router : Router κ) (ν : Type) (count : Nat) (positive : 0 < count) :
    Shards router ν where
  tables := List.replicate count ∅
  nonempty := by simpa using positive
  routed index table key found member := by
    have empty := List.eq_of_mem_replicate (List.mem_of_getElem? found)
    subst table
    exact absurd member (AList.notMem_empty key)

/-- The index of the shard a key is routed to. -/
def home (shards : Shards router ν) (key : κ) : Nat :=
  router.route key shards.tables.length

variable (shards : Shards router ν)

theorem home_lt (key : κ) : shards.home key < shards.tables.length :=
  router.route_lt key _ shards.nonempty

/-- The shard a key is routed to. -/
def shard (shards : Shards router ν) (key : κ) : Table κ ν :=
  shards.tables.get ⟨shards.home key, shards.home_lt key⟩

theorem getElem?_home (key : κ) : shards.tables[shards.home key]? = some (shards.shard key) :=
  List.getElem?_eq_getElem (shards.home_lt key)

/-- A shard that holds a key is the shard of that key. -/
theorem eq_shard_of_mem {table : Table κ ν} {key : κ} (present : table ∈ shards.tables)
    (member : key ∈ table) : table = shards.shard key := by
  rcases List.mem_iff_getElem?.mp present with ⟨index, found⟩
  have here : shards.home key = index := shards.routed index table key found member
  have same := shards.getElem?_home key
  rw [here, found] at same
  exact Option.some.inj same

theorem shard_mem (key : κ) : shards.shard key ∈ shards.tables :=
  List.getElem_mem _

/-- The keys of all shards, in order. -/
def keys (shards : Shards router ν) : List κ :=
  shards.tables.flatMap AList.keys

/-- The number of entries of all shards. -/
def size (shards : Shards router ν) : Nat :=
  (shards.tables.map fun table => table.entries.length).sum

/-- No key is counted twice. -/
theorem keys_nodup : shards.keys.Nodup := by
  rw [keys, List.nodup_flatMap]
  constructor
  · intro table _
    exact table.keys_nodup
  · rw [List.pairwise_iff_getElem]
    intro first second firstBound secondBound before key inFirst inSecond
    have atFirst := shards.routed first _ key (List.getElem?_eq_getElem firstBound)
      (AList.mem_keys.mpr inFirst)
    have atSecond := shards.routed second _ key (List.getElem?_eq_getElem secondBound)
      (AList.mem_keys.mpr inSecond)
    omega

theorem size_eq_length_keys : shards.size = shards.keys.length := by
  rw [size, keys, List.length_flatMap]
  congr 1
  apply List.map_congr_left
  intro table _
  simp [AList.keys, List.keys]

/-- Change the shard of one key by an operation that brings in no other key. -/
def update (shards : Shards router ν) (key : κ) (change : Table κ ν → Table κ ν)
    (noOther : ∀ table other, other ∈ change table → other = key ∨ other ∈ table) :
    Shards router ν where
  tables := shards.tables.modify (shards.home key) change
  nonempty := by
    rw [List.length_modify]
    exact shards.nonempty
  routed index table other found member := by
    rw [List.length_modify]
    rw [List.getElem?_modify] at found
    rcases Option.map_eq_some_iff.mp found with ⟨before, present, changed⟩
    by_cases here : shards.home key = index
    · rw [if_pos here] at changed
      subst table
      rcases noOther before other member with rfl | member
      · exact here
      · exact shards.routed index before other present member
    · rw [if_neg here] at changed
      subst table
      exact shards.routed index before other present member

theorem shard_update (key query : κ) (change : Table κ ν → Table κ ν)
    (noOther : ∀ table other, other ∈ change table → other = key ∨ other ∈ table) :
    (shards.update key change noOther).shard query =
      if shards.home key = shards.home query then change (shards.shard query)
      else shards.shard query := by
  have sameHome : (shards.update key change noOther).home query = shards.home query := by
    rw [home, home, update, List.length_modify]
  have found := (shards.update key change noOther).getElem?_home query
  rw [sameHome, update, List.getElem?_modify, shards.getElem?_home query] at found
  exact (Option.some.inj found).symm

variable [DecidableEq κ]

/-- Read a key from its shard. -/
def lookup (shards : Shards router ν) (key : κ) : Option ν :=
  (shards.shard key).lookup key

theorem mem_keys (key : κ) : key ∈ shards.keys ↔ (shards.lookup key).isSome := by
  rw [lookup, AList.lookup_isSome, keys, List.mem_flatMap]
  constructor
  · rintro ⟨table, present, member⟩
    have member := AList.mem_keys.mpr member
    rw [← shards.eq_shard_of_mem present member]
    exact member
  · intro member
    exact ⟨shards.shard key, shards.shard_mem key, AList.mem_keys.mp member⟩

@[simp] theorem lookup_fresh (count : Nat) (positive : 0 < count) (key : κ) :
    (fresh router ν count positive).lookup key = none := by
  have empty : (fresh router ν count positive).shard key = ∅ :=
    List.eq_of_mem_replicate (List.getElem_mem _)
  rw [lookup, empty, AList.lookup_empty]

/-- Write an entry into the shard of its key. -/
def insert (shards : Shards router ν) (key : κ) (value : ν) : Shards router ν :=
  shards.update key (AList.insert key value) fun table _ => (AList.mem_insert table).mp

/-- Delete a key from its shard. -/
def erase (shards : Shards router ν) (key : κ) : Shards router ν :=
  shards.update key (AList.erase key) fun _ _ member => Or.inr (AList.mem_erase.mp member).2

@[simp] theorem lookup_insert (key query : κ) (value : ν) :
    (shards.insert key value).lookup query =
      if query = key then some value else shards.lookup query := by
  rw [lookup, insert, shard_update]
  by_cases same : query = key
  · subst query
    simp
  · rw [if_neg same]
    split
    · exact AList.lookup_insert_ne same
    · rfl

@[simp] theorem lookup_erase (key query : κ) :
    (shards.erase key).lookup query =
      if query = key then none else shards.lookup query := by
  rw [lookup, erase, shard_update]
  by_cases same : query = key
  · subst query
    simp
  · rw [if_neg same]
    split
    · exact AList.lookup_erase_ne same
    · rfl

/-- Write a sequence of entries from left to right. -/
def insertAll (shards : Shards router ν) (pairs : List (κ × ν)) : Shards router ν :=
  pairs.foldl (fun shards pair => shards.insert pair.1 pair.2) shards

theorem lookup_insertAll (pairs : List (κ × ν)) (key : κ) :
    (shards.insertAll pairs).lookup key =
      (Table.lastValue pairs key).or (shards.lookup key) := by
  induction pairs generalizing shards with
  | nil => simp [insertAll, Table.lastValue]
  | cons pair rest ih =>
      rw [insertAll, List.foldl_cons, ← insertAll, ih, lookup_insert, Table.lastValue_cons]
      by_cases same : key = pair.1
      · simp [same]
      · simp [same, Ne.symm same]

/-- All entries, shard by shard, each shard in the given iteration order. -/
def drain (order : IterationOrder κ ν) (shards : Shards router ν) : List (κ × ν) :=
  shards.tables.flatMap fun table => (order.visit table).map fun entry => (entry.1, entry.2)

theorem mem_drain (order : IterationOrder κ ν) (shards : Shards router ν) (key : κ)
    (value : ν) :
    (key, value) ∈ shards.drain order ↔ shards.lookup key = some value := by
  simp only [drain, List.mem_flatMap, List.mem_map, Prod.mk.injEq]
  constructor
  · rintro ⟨table, present, entry, visited, rfl, rfl⟩
    have found := order.mem_visit.mp visited
    have member : entry.1 ∈ table := AList.lookup_isSome.mp (Option.isSome_of_mem found)
    rw [lookup, ← shards.eq_shard_of_mem present member, found]
  · intro found
    exact ⟨shards.shard key, shards.shard_mem key, ⟨key, value⟩,
      order.mem_visit.mpr found, rfl, rfl⟩

/-- Draining one set of shards into another overlays it on what was there. -/
theorem lookup_insertAll_drain (order : IterationOrder κ ν) (source target : Shards router ν)
    (key : κ) :
    (target.insertAll (source.drain order)).lookup key =
      (source.lookup key).or (target.lookup key) := by
  rw [lookup_insertAll, Table.lastValue_eq_of_graph (source.mem_drain order)]

theorem length_insertAll (pairs : List (κ × ν)) :
    (shards.insertAll pairs).tables.length = shards.tables.length := by
  induction pairs generalizing shards with
  | nil => rfl
  | cons pair rest ih =>
      rw [insertAll, List.foldl_cons, ← insertAll, ih, insert, update, List.length_modify]

/-- A key sits in the shard it is routed to, and nowhere else. -/
theorem mem_getElem?_iff {index : Nat} {table : Table κ ν}
    (found : shards.tables[index]? = some table) (key : κ) :
    key ∈ table ↔ (shards.lookup key).isSome ∧ shards.home key = index := by
  constructor
  · intro member
    have here := shards.routed index table key found member
    rw [lookup, ← shards.eq_shard_of_mem (List.mem_of_getElem? found) member,
      AList.lookup_isSome]
    exact ⟨member, here⟩
  · rintro ⟨held, rfl⟩
    rw [shards.getElem?_home key] at found
    cases found
    exact AList.lookup_isSome.mp held

/-- Shards that answer as a single map hold as many entries. -/
theorem size_eq_of_lookup (map : Table κ ν) (agrees : ∀ key, shards.lookup key = map.lookup key) :
    shards.size = map.keys.length := by
  have sameKeys : shards.keys.Perm map.keys := by
    rw [List.perm_ext_iff_of_nodup shards.keys_nodup map.keys_nodup]
    intro key
    rw [mem_keys, ← AList.mem_keys, ← AList.lookup_isSome, agrees]
  rw [size_eq_length_keys, sameKeys.length_eq]

end Shards

end Cosaci.Foundation
