import Cosaci.Foundation.Merkle

/-!
# Merkle computations as trees

The layers of a Merkle computation only keep the values of its nodes.  Here the tree is
kept: its value is the root, and its leaves read from left to right are the leaves of the
computation.  Perfect trees of decreasing heights are bagged from the right.  Two trees
of equal value are laid over each other: without collisions they agree on every node
that both have, and where one of them ends in a leaf, that leaf is the value of the
subtree of the other.  If no leaf is the combination of two values, both end alike.
-/

namespace Cosaci.Foundation.Merkle

/-- A binary tree with values at its leaves. -/
inductive Tree (η : Type) where
  | leaf (value : η)
  | node (left right : Tree η)
  deriving DecidableEq, Repr

namespace Tree

variable {η : Type} (combine : η → η → η)

/-- The value of the top node. -/
def value : Tree η → η
  | .leaf value => value
  | .node left right => combine left.value right.value

/-- The leaves from left to right. -/
def flatten : Tree η → List η
  | .leaf value => [value]
  | .node left right => left.flatten ++ right.flatten

/-- The pairs of values combined in the tree. -/
def pairs : Tree η → List (η × η)
  | .leaf _ => []
  | .node left right => (left.value combine, right.value combine) :: (left.pairs ++ right.pairs)

/-! ## Perfect trees -/

/-- All leaves lie at one depth. -/
def Perfect : Nat → Tree η → Prop
  | 0, .leaf _ => True
  | height + 1, .node left right => Perfect height left ∧ Perfect height right
  | _, _ => False

variable {height : Nat}

theorem Perfect.length_flatten {tree : Tree η} (perfect : Perfect height tree) :
    tree.flatten.length = 2 ^ height := by
  induction tree generalizing height with
  | leaf value =>
      cases height with
      | zero => rfl
      | succ height => exact False.elim perfect
  | node left right leftIH rightIH =>
      cases height with
      | zero => exact False.elim perfect
      | succ height =>
          rw [flatten, List.length_append, leftIH perfect.1, rightIH perfect.2, Nat.pow_succ]
          omega

/-- The layers over the leaves of a perfect tree end in its value. -/
theorem Perfect.root_flatten {tree : Tree η} (perfect : Perfect height tree) :
    root combine tree.flatten = some (tree.value combine) := by
  induction tree generalizing height with
  | leaf value => rw [flatten, root, layer_singleton, List.head?_cons, Tree.value]
  | node left right leftIH rightIH =>
      cases height with
      | zero => exact False.elim perfect
      | succ height =>
          have length := perfect.2.length_flatten
          apply root_append combine perfect.1.length_flatten _ length.le (leftIH perfect.1)
            (rightIH perfect.2)
          rw [← List.length_pos_iff, length]
          exact Nat.two_pow_pos height

/-- Every list of the right length consists of the leaves of a perfect tree. -/
theorem exists_perfect {leaves : List η} (length : leaves.length = 2 ^ height) :
    ∃ tree : Tree η, Perfect height tree ∧ tree.flatten = leaves := by
  induction height generalizing leaves with
  | zero =>
      rcases List.length_eq_one_iff.mp length with ⟨leaf, rfl⟩
      exact ⟨.leaf leaf, trivial, rfl⟩
  | succ height ih =>
      rw [Nat.pow_succ] at length
      have leftLength : (leaves.take (2 ^ height)).length = 2 ^ height := by
        rw [List.length_take]
        omega
      have rightLength : (leaves.drop (2 ^ height)).length = 2 ^ height := by
        rw [List.length_drop]
        omega
      rcases ih leftLength with ⟨left, leftPerfect, leftLeaves⟩
      rcases ih rightLength with ⟨right, rightPerfect, rightLeaves⟩
      refine ⟨.node left right, ⟨leftPerfect, rightPerfect⟩, ?_⟩
      rw [flatten, leftLeaves, rightLeaves, List.take_append_drop]

end Tree

/-! ## Bagging -/

section Bagging

variable {η : Type} (combine : η → η → η)

/-- The first peak combined with the bag of all that follow it. -/
def bag : List η → Option η
  | [] => none
  | peak :: rest =>
      match bag rest with
      | none => some peak
      | some bagged => some (combine peak bagged)

variable {heights : List Nat}

theorem sum_pow_lt_of_decreasing {bound : Nat} (decreasing : heights.Pairwise (· > ·))
    (below : ∀ height ∈ heights, height < bound) :
    (heights.map fun height => 2 ^ height).sum < 2 ^ bound := by
  induction heights generalizing bound with
  | nil => exact Nat.two_pow_pos bound
  | cons height rest ih =>
      rcases List.pairwise_cons.mp decreasing with ⟨larger, decreasing⟩
      have tail := ih decreasing larger
      have step : 2 ^ (height + 1) ≤ 2 ^ bound :=
        Nat.pow_le_pow_right (by decide) (below height List.mem_cons_self)
      rw [List.map_cons, List.sum_cons]
      rw [Nat.pow_succ] at step
      omega

theorem length_flatMap_perfect {trees : List (Tree η)}
    (perfect : List.Forall₂ Tree.Perfect heights trees) :
    (trees.flatMap Tree.flatten).length = (heights.map fun height => 2 ^ height).sum := by
  induction perfect with
  | nil => rfl
  | cons first rest ih =>
      rw [List.flatMap_cons, List.length_append, first.length_flatten, ih, List.map_cons,
        List.sum_cons]

/-- A list of the right length is cut into the leaves of perfect trees. -/
theorem exists_perfect_trees {leaves : List η}
    (length : leaves.length = (heights.map fun height => 2 ^ height).sum) :
    ∃ trees : List (Tree η), List.Forall₂ Tree.Perfect heights trees ∧
      trees.flatMap Tree.flatten = leaves := by
  induction heights generalizing leaves with
  | nil =>
      rw [List.map_nil, List.sum_nil, List.length_eq_zero_iff] at length
      exact ⟨[], .nil, length.symm⟩
  | cons height heights ih =>
      rw [List.map_cons, List.sum_cons] at length
      have firstLength : (leaves.take (2 ^ height)).length = 2 ^ height := by
        rw [List.length_take]
        omega
      have restLength : (leaves.drop (2 ^ height)).length =
          (heights.map fun height => 2 ^ height).sum := by
        rw [List.length_drop]
        omega
      rcases Tree.exists_perfect firstLength with ⟨tree, perfect, first⟩
      rcases ih restLength with ⟨trees, others, rest⟩
      refine ⟨tree :: trees, .cons perfect others, ?_⟩
      rw [List.flatMap_cons, first, rest, List.take_append_drop]

/-- The root over the leaves of perfect trees of decreasing heights is the bag of their
values. -/
theorem root_eq_bag {trees : List (Tree η)} (perfect : List.Forall₂ Tree.Perfect heights trees)
    (decreasing : heights.Pairwise (· > ·)) :
    root combine (trees.flatMap Tree.flatten) = bag combine (trees.map (Tree.value combine)) := by
  induction perfect with
  | nil => rfl
  | @cons height tree heights trees first rest ih =>
      rcases List.pairwise_cons.mp decreasing with ⟨larger, decreasing⟩
      have bagged := ih decreasing
      -- The heights decrease, so all that follows the first tree is smaller than it.
      have smaller : (trees.flatMap Tree.flatten).length ≤ 2 ^ height := by
        rw [length_flatMap_perfect rest]
        exact (sum_pow_lt_of_decreasing decreasing larger).le
      rw [List.flatMap_cons, List.map_cons, bag, ← bagged]
      by_cases last : trees.flatMap Tree.flatten = []
      · rw [last, List.append_nil]
        exact first.root_flatten combine
      · rcases exists_root combine last with ⟨top, rooted⟩
        rw [rooted]
        exact root_append combine first.length_flatten last smaller (first.root_flatten combine)
          rooted

end Bagging

/-! ## The tree of a list of leaves -/

section Parametric

variable {α β : Type} {related : α → β → Prop} (left : α → α → α) (right : β → β → β)
  (respects : ∀ {a b a' b'}, related a b → related a' b' →
    related (left a a') (right b b'))

include respects in
theorem parents_related {first : List α} {second : List β}
    (nodes : List.Forall₂ related first second) :
    List.Forall₂ related (parents left first) (parents right second) := by
  induction first using List.twoStepInduction generalizing second with
  | nil =>
      cases nodes
      exact .nil
  | singleton a =>
      cases nodes with
      | cons one others =>
          cases others
          exact .cons one .nil
  | cons_cons a a' rest ih _ =>
      cases nodes with
      | cons one others =>
          cases others with
          | cons two others => exact .cons (respects one two) (ih others)

include respects in
theorem layer_related (height : Nat) {first : List α} {second : List β}
    (nodes : List.Forall₂ related first second) :
    List.Forall₂ related (layer left height first) (layer right height second) := by
  induction height generalizing first second with
  | zero => exact nodes
  | succ height ih => exact ih (parents_related left right respects nodes)

include respects in
/-- Computations over related leaves with related operations have related roots. -/
theorem root_related {first : List α} {second : List β}
    (leaves : List.Forall₂ related first second) :
    Option.Rel related (root left first) (root right second) := by
  have heads : ∀ {first : List α} {second : List β}, List.Forall₂ related first second →
      Option.Rel related first.head? second.head? := by
    intro first second nodes
    cases nodes with
    | nil => exact .none
    | cons one others => exact .some one
  rw [root, root, ← leaves.length_eq]
  exact heads (layer_related left right respects (depth first.length) leaves)

end Parametric

namespace Tree

variable {η : Type} (combine : η → η → η)

/-- The tree of a Merkle computation. -/
def build (leaves : List η) : Option (Tree η) :=
  root Tree.node (leaves.map Tree.leaf)

private theorem eq_map_of_rel {α β : Type} {image : α → β} {first : Option α} {second : Option β}
    (related : Option.Rel (fun one two => image one = two) first second) :
    second = first.map image := by
  cases related with
  | none => rfl
  | some same => rw [Option.map_some, same]

/-- Its value is the root. -/
theorem root_eq_build (leaves : List η) :
    root combine leaves = (build leaves).map (value combine) := by
  have leafwise : List.Forall₂ (fun tree value => Tree.value combine tree = value)
      (leaves.map Tree.leaf) leaves := by
    rw [List.forall₂_map_left_iff, List.forall₂_same]
    exact fun _ _ => rfl
  have related := root_related Tree.node combine (fun one two => congrArg₂ combine one two) leafwise
  rw [build]
  exact eq_map_of_rel related

variable {first second : Tree η}

/-- The values that can be combined out of some leaves. -/
inductive NodeOver (leaves : List η) : η → Prop
  | leaf {value : η} (member : value ∈ leaves) : NodeOver leaves value
  | node {left right : η} (first : NodeOver leaves left) (second : NodeOver leaves right) :
      NodeOver leaves (combine left right)

/-- No leaf of one list is the combination of two values over the other. -/
def Separated (first second : List η) : Prop :=
  ∀ leaf ∈ first, ∀ left right, NodeOver combine second left → NodeOver combine second right →
    leaf ≠ combine left right

variable {combine} in
theorem NodeOver.mono {fewer more : List η} (subset : fewer ⊆ more) {value : η}
    (node : NodeOver combine fewer value) : NodeOver combine more value := by
  induction node with
  | leaf member => exact .leaf (subset member)
  | node _ _ first second => exact .node first second

variable {combine} in
theorem Separated.mono {fewer more fewer' more' : List η} (subset : fewer ⊆ more)
    (subset' : fewer' ⊆ more') (separated : Separated combine more more') :
    Separated combine fewer fewer' := by
  intro leaf member left right first second
  exact separated leaf (subset member) left right (first.mono subset') (second.mono subset')

end Tree

end Cosaci.Foundation.Merkle
