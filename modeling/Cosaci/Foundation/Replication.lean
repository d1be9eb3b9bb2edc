import Mathlib.Data.Finset.Lattice.Fold
import Mathlib.Tactic

/-!
# State-based replication

Nodes hold replicas of one object.  A node updates its own replica and merges the
replicas of others, which reach it directly or as messages that may be delayed,
reordered and delivered any number of times.

The updates that have reached a node are a replica of a special kind: a set that
grows by insertion and union.  An object whose replicas denote elements of a join
semilattice is compared with it.  Its replicas then are the joins of the updates
that have reached them, so that nodes reached by the same updates agree.
-/

namespace Cosaci.Foundation

/-- A replicated object: how a replica starts, and what updates and merges do to it. -/
structure Replica (σ ω : Type) where
  initial : σ
  update : σ → ω → σ
  merge : σ → σ → σ

/-- The replicas of all nodes and the messages sent so far. -/
structure Network (ν σ : Type) where
  nodes : ν → σ
  sent : List σ

inductive NetworkEvent (ν ω : Type) where
  | update (node : ν) (update : ω)
  /-- Two nodes merge their replicas and both keep the result. -/
  | exchange (first second : ν)
  /-- A node sends its replica. -/
  | send (node : ν)
  /-- A node merges a message, whenever and to whomever it was sent. -/
  | deliver (node : ν) (message : Nat)

namespace Replica

variable {ν σ τ ω : Type} [DecidableEq ν]

def start (replica : Replica σ ω) : Network ν σ where
  nodes _ := replica.initial
  sent := []

def step (replica : Replica σ ω) (network : Network ν σ) : NetworkEvent ν ω → Network ν σ
  | .update node update =>
      { network with
        nodes := Function.update network.nodes node
          (replica.update (network.nodes node) update) }
  | .exchange first second =>
      let merged := replica.merge (network.nodes first) (network.nodes second)
      { network with
        nodes := Function.update (Function.update network.nodes first merged) second merged }
  | .send node => { network with sent := network.sent ++ [network.nodes node] }
  | .deliver node message =>
      match network.sent[message]? with
      | none => network
      | some received =>
          { network with
            nodes := Function.update network.nodes node
              (replica.merge (network.nodes node) received) }

/-- The network after a sequence of events. -/
def run (replica : Replica σ ω) (events : List (NetworkEvent ν ω)) : Network ν σ :=
  events.foldl replica.step replica.start

/-! ## Simulation -/

/-- A relation between the replicas of two objects that both operations keep. -/
structure Simulates (left : Replica σ ω) (right : Replica τ ω) (related : σ → τ → Prop) :
    Prop where
  initial : related left.initial right.initial
  update : ∀ first second update, related first second →
    related (left.update first update) (right.update second update)
  merge : ∀ first second first' second', related first second → related first' second' →
    related (left.merge first first') (right.merge second second')

/-- Networks that are related node by node and message by message. -/
structure Alike (related : σ → τ → Prop) (left : Network ν σ) (right : Network ν τ) :
    Prop where
  nodes : ∀ node, related (left.nodes node) (right.nodes node)
  sent : List.Forall₂ related left.sent right.sent

variable {left : Replica σ ω} {right : Replica τ ω} {related : σ → τ → Prop}

private theorem related_update {first : ν → σ} {second : ν → τ} {own : σ} {other : τ}
    (nodes : ∀ node, related (first node) (second node)) (new : related own other)
    (changed node : ν) :
    related (Function.update first changed own node)
      (Function.update second changed other node) := by
  by_cases same : node = changed
  · subst same
    rwa [Function.update_self, Function.update_self]
  · rw [Function.update_of_ne same, Function.update_of_ne same]
    exact nodes node

theorem Alike.step (simulates : Simulates left right related) {first : Network ν σ}
    {second : Network ν τ} (alike : Alike related first second) (event : NetworkEvent ν ω) :
    Alike related (left.step first event) (right.step second event) := by
  cases event with
  | update node update =>
      exact ⟨related_update alike.nodes (simulates.update _ _ update (alike.nodes node)) node,
        alike.sent⟩
  | exchange one another =>
      have merged := simulates.merge _ _ _ _ (alike.nodes one) (alike.nodes another)
      exact ⟨related_update (related_update alike.nodes merged one) merged another, alike.sent⟩
  | send node =>
      exact ⟨alike.nodes, List.rel_append alike.sent (.cons (alike.nodes node) .nil)⟩
  | deliver node message =>
      have found := List.forall₂_iff_get.mp alike.sent
      simp only [Replica.step]
      by_cases known : message < first.sent.length
      · have listed : message < second.sent.length := found.1 ▸ known
        rw [List.getElem?_eq_getElem known, List.getElem?_eq_getElem listed]
        have received := found.2 message known listed
        exact ⟨related_update alike.nodes
          (simulates.merge _ _ _ _ (alike.nodes node) received) node, alike.sent⟩
      · have missing : ¬message < second.sent.length := found.1 ▸ known
        rw [List.getElem?_eq_none (not_lt.mp known), List.getElem?_eq_none (not_lt.mp missing)]
        exact alike

/-- Related objects stay related at every node, whatever happens in the network. -/
theorem Simulates.run (simulates : Simulates left right related)
    (events : List (NetworkEvent ν ω)) : Alike related (left.run events) (right.run events) := by
  induction events using List.reverseRecOn with
  | nil => exact ⟨fun _ => simulates.initial, .nil⟩
  | append_singleton events event ih =>
      simp only [Replica.run, List.foldl_append, List.foldl_cons, List.foldl_nil]
      exact ih.step simulates event

/-! ## The updates that have reached a node -/

variable [DecidableEq ω]

/-- The object that remembers all updates. -/
def causal : Replica (Finset ω) ω where
  initial := ∅
  update known update := insert update known
  merge := (· ∪ ·)

/-- The updates made at a node or received by it, directly or through others. -/
def reached (events : List (NetworkEvent ν ω)) (node : ν) : Finset ω :=
  (causal.run events).nodes node

variable {α : Type} [SemilatticeSup α] [OrderBot α]

/-- Updates and merges are joins of what the replicas denote. -/
structure Joins (replica : Replica σ ω) (denote : σ → α) (effect : ω → α) : Prop where
  initial : denote replica.initial = ⊥
  update : ∀ state update, denote (replica.update state update) = denote state ⊔ effect update
  merge : ∀ first second, denote (replica.merge first second) = denote first ⊔ denote second

theorem Joins.simulates {replica : Replica σ ω} {denote : σ → α} {effect : ω → α}
    (joins : Joins replica denote effect) :
    Simulates replica causal fun state known => denote state = known.sup effect where
  initial := joins.initial
  update state known update same := by
    rw [joins.update, same, causal, Finset.sup_insert, sup_comm]
  merge first known second known' same same' := by
    rw [joins.merge, same, same', causal, Finset.sup_union]

/-- A replica is the join of the updates that have reached it. -/
theorem Joins.denote_run {replica : Replica σ ω} {denote : σ → α} {effect : ω → α}
    (joins : Joins replica denote effect) (events : List (NetworkEvent ν ω)) (node : ν) :
    denote ((replica.run events).nodes node) = (reached events node).sup effect :=
  (joins.simulates.run events).nodes node

end Replica

end Cosaci.Foundation
