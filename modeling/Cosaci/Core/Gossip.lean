import Cosaci.Foundation.Replication
import Cosaci.Foundation.Table
import Mathlib.Data.Prod.Lex
import Mathlib.Order.WithBot

/-!
# Anti-entropy gossip

`cosaci-core/src/gossip.rs`: last-writer-wins registers, one per key.  A node's
register for a key is the largest write, by timestamp and then by value, among the
writes that have reached the node, however writes and merges are interleaved,
repeated and delayed.
-/

namespace Cosaci.Core.Gossip

open Cosaci.Foundation

abbrev Key := UInt64
abbrev Value := UInt64
abbrev Timestamp := UInt64

@[ext] structure Entry where
  value : Value
  timestamp : Timestamp
  deriving DecidableEq, Repr

structure NodeState where
  entries : Table Key Entry

/-- `entry_dominates` -/
def entryDominates (a b : Entry) : Bool :=
  if a.timestamp = b.timestamp then decide (a.value ≥ b.value)
  else decide (a.timestamp > b.timestamp)

namespace NodeState

def new : NodeState := ⟨∅⟩

def get (state : NodeState) (key : Key) : Option Entry :=
  state.entries.lookup key

def write (state : NodeState) (key : Key) (value : Value) (timestamp : Timestamp) :
    NodeState :=
  let incoming : Entry := ⟨value, timestamp⟩
  let keepExisting :=
    match state.get key with
    | some existing => entryDominates existing incoming
    | none => false
  if keepExisting then state else ⟨state.entries.insert key incoming⟩

/-- The body of the loop of `merge`. -/
def absorb (out : NodeState) (entry : Sigma fun _ : Key => Entry) : NodeState :=
  let winner :=
    match out.get entry.1 with
    | some own => if entryDominates own entry.2 then own else entry.2
    | none => entry.2
  ⟨out.entries.insert entry.1 winner⟩

/-- `merge`, with the order in which the second map is walked. -/
def merge (order : IterationOrder Key Entry) (a b : NodeState) : NodeState :=
  (order.visit b.entries).foldl absorb a

end NodeState

/-! ## The order of the entries -/

/-- Entries compare by timestamp, then by value. -/
def Entry.rank (entry : Entry) : ℕ ×ₗ ℕ :=
  toLex (entry.timestamp.toNat, entry.value.toNat)

theorem Entry.rank_injective : Function.Injective Entry.rank := by
  intro a b same
  have parts := Prod.mk.inj (toLex.injective same)
  exact Entry.ext (UInt64.toNat_inj.mp parts.2) (UInt64.toNat_inj.mp parts.1)

instance : LinearOrder Entry :=
  LinearOrder.lift' Entry.rank Entry.rank_injective

theorem entryDominates_iff (a b : Entry) : entryDominates a b = true ↔ b ≤ a := by
  have order : b ≤ a ↔ b.timestamp.toNat < a.timestamp.toNat ∨
      b.timestamp.toNat = a.timestamp.toNat ∧ b.value.toNat ≤ a.value.toNat :=
    Prod.Lex.toLex_le_toLex
  rw [order, entryDominates]
  split
  · next same => simp [same, UInt64.le_iff_toNat_le]
  · next differ =>
      have apart : b.timestamp.toNat ≠ a.timestamp.toNat :=
        fun equal => differ (UInt64.toNat_inj.mp equal).symm
      simp [apart, UInt64.lt_iff_toNat_lt]

/-- The entry that `write` and `merge` keep. -/
theorem winner_eq_max (own incoming : Entry) :
    (if entryDominates own incoming then own else incoming) = max own incoming := by
  rw [max_comm, max_def]
  simp only [entryDominates_iff]

/-! ## Replicas as elements of a semilattice -/

namespace NodeState

/-- A register as an element of a lattice whose bottom is the missing entry. -/
def register : Option Entry → WithBot Entry
  | none => ⊥
  | some entry => entry

theorem register_injective : Function.Injective register := by
  intro first second same
  cases first <;> cases second <;> simp_all [register]

/-- What a state says about every key. -/
def view (state : NodeState) : Key → WithBot Entry :=
  fun key => register (state.get key)

/-- A view that knows a single entry. -/
def single (key : Key) (entry : Entry) : Key → WithBot Entry :=
  fun query => if query = key then (entry : WithBot Entry) else ⊥

theorem get_insert (state : NodeState) (key query : Key) (entry : Entry) :
    get ⟨state.entries.insert key entry⟩ query =
      if query = key then some entry else state.get query :=
  Table.lookup_insert_eq state.entries key query entry

theorem view_absorb (out : NodeState) (key : Key) (entry : Entry) :
    (out.absorb ⟨key, entry⟩).view = out.view ⊔ single key entry := by
  funext query
  simp only [view, absorb, get_insert, Pi.sup_apply, single]
  by_cases same : query = key
  · subst same
    rw [if_pos rfl, if_pos rfl]
    cases out.get query with
    | none => simp [register]
    | some own =>
        simp only [winner_eq_max, register]
        exact WithBot.coe_sup own entry
  · rw [if_neg same, if_neg same, sup_bot_eq]

/-- A local write does to the registers what a merge of the single entry would do. -/
theorem view_write (state : NodeState) (key : Key) (value : Value) (timestamp : Timestamp) :
    (state.write key value timestamp).view = state.view ⊔ single key ⟨value, timestamp⟩ := by
  rw [← view_absorb]
  funext query
  simp only [view, write, absorb]
  cases found : state.get key with
  | none => rfl
  | some existing =>
      by_cases dominated : entryDominates existing ⟨value, timestamp⟩
      · simp only [dominated, if_true, get_insert]
        by_cases same : query = key
        · rw [if_pos same, same, found]
        · rw [if_neg same]
      · simp [dominated]

/-- A loop over entries with distinct keys joins what a lookup in them finds. -/
theorem view_foldl_absorb (entries : List (Sigma fun _ : Key => Entry))
    (distinct : entries.NodupKeys) (out : NodeState) :
    (entries.foldl absorb out).view =
      out.view ⊔ fun key => register (entries.dlookup key) := by
  induction entries generalizing out with
  | nil =>
      funext key
      simp [register]
  | cons entry rest ih =>
      obtain ⟨key, entry⟩ := entry
      have absent : rest.dlookup key = none :=
        List.dlookup_eq_none.mpr (List.nodupKeys_cons.mp distinct).1
      rw [List.foldl_cons, ih (List.nodupKeys_cons.mp distinct).2, view_absorb, sup_assoc]
      congr 1
      funext query
      by_cases same : query = key
      · subst same
        simp [single, absent, register]
      · rw [Pi.sup_apply, List.dlookup_cons_ne rest ⟨key, entry⟩ same, single, if_neg same,
          bot_sup_eq]

theorem view_merge (order : IterationOrder Key Entry) (a b : NodeState) :
    (merge order a b).view = a.view ⊔ b.view := by
  have visited := order.perm b.entries
  have distinct : (order.visit b.entries).NodupKeys :=
    (List.perm_nodupKeys visited).mpr b.entries.nodupKeys
  rw [merge, view_foldl_absorb _ distinct]
  congr 1
  funext key
  rw [List.perm_dlookup key distinct visited]
  rfl

end NodeState

/-! ## Runs -/

/-- One call of `write`. -/
structure Write where
  key : Key
  entry : Entry
  deriving DecidableEq, Repr

/-- The replicated object of a gossiping fleet. -/
def replica (order : IterationOrder Key Entry) : Replica NodeState Write where
  initial := .new
  update state write := state.write write.key write.entry.value write.entry.timestamp
  merge := .merge order

theorem replica_joins (order : IterationOrder Key Entry) :
    (replica order).Joins NodeState.view
      fun write => NodeState.single write.key write.entry where
  initial := rfl
  update state write := state.view_write write.key write.entry.value write.entry.timestamp
  merge := NodeState.view_merge order

/-- What is left of a set of writes at a key: the largest of them, by timestamp and
then by value. -/
def Latest (writes : Finset Write) (key : Key) : Option Entry → Prop
  | none => ∀ write ∈ writes, write.key ≠ key
  | some entry => ⟨key, entry⟩ ∈ writes ∧
      ∀ write ∈ writes, write.key = key → write.entry.rank ≤ entry.rank

theorem latest_of_eq_sup {writes : Finset Write} {key : Key} {found : Option Entry}
    (equal : NodeState.register found =
      writes.sup fun write => NodeState.single write.key write.entry key) :
    Latest writes key found := by
  have bounded : ∀ write ∈ writes, write.key = key →
      (write.entry : WithBot Entry) ≤ NodeState.register found := by
    intro write member same
    have below := Finset.le_sup (f := fun write => NodeState.single write.key write.entry key)
      member
    rwa [← equal, NodeState.single, if_pos same.symm] at below
  cases found with
  | none =>
      intro write member same
      exact WithBot.not_coe_le_bot write.entry (bounded write member same)
  | some entry =>
      have largest : ∀ write ∈ writes, write.key = key → write.entry ≤ entry :=
        fun write member same => WithBot.coe_le_coe.mp (bounded write member same)
      refine ⟨?_, largest⟩
      have nonempty : writes.Nonempty := by
        rw [Finset.nonempty_iff_ne_empty]
        rintro rfl
        exact WithBot.coe_ne_bot equal
      -- the entries are linearly ordered, so a join of finitely many is one of them
      obtain ⟨write, member, attained⟩ := Finset.exists_mem_eq_sup writes nonempty
        fun write => NodeState.single write.key write.entry key
      rw [← equal, NodeState.single] at attained
      by_cases same : key = write.key
      · rw [if_pos same] at attained
        have kept : write = ⟨key, entry⟩ := by
          rw [same, WithBot.coe_injective attained]
        exact kept ▸ member
      · rw [if_neg same] at attained
        exact False.elim (WithBot.coe_ne_bot attained)

/-- Every node holds, for every key, the largest of the writes that have reached it;
nodes reached by the same writes hold equal maps. -/
theorem strong_eventual_consistency {ν : Type} [DecidableEq ν]
    (order : IterationOrder Key Entry) (events : List (NetworkEvent ν Write)) :
    (∀ node key, Latest (Replica.reached events node) key
      ((((replica order).run events).nodes node).get key)) ∧
    ∀ node other, Replica.reached events node = Replica.reached events other →
      ∀ key, (((replica order).run events).nodes node).get key =
        (((replica order).run events).nodes other).get key := by
  have denoted := (replica_joins order).denote_run events
  constructor
  · intro node key
    have atKey := congrFun (denoted node) key
    rw [Finset.sup_apply] at atKey
    exact latest_of_eq_sup atKey
  · intro node other same key
    have equal := (denoted node).trans (same ▸ (denoted other).symm)
    exact NodeState.register_injective (congrFun equal key)

end Cosaci.Core.Gossip
