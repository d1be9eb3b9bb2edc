import Mathlib.Data.Nat.Log
import Mathlib.Data.List.Basic
import Mathlib.Tactic

/-!
# Binary Merkle trees with carried nodes

A tree is built layer by layer: neighbours are combined from left to right, and
an unpaired last node moves up unchanged.  Leaves and inner nodes are combined
alike, so the shape of the tree is known only from its number of leaves.

An inclusion proof is checked by climbing: at every layer the node is combined
with the next hash of the proof, on the side given by its index, unless it is the
unpaired last node of its layer.
-/

namespace Cosaci.Foundation.Merkle

variable {η : Type} (combine : η → η → η)

/-- The layer above a layer of nodes. -/
def parents : List η → List η
  | left :: right :: rest => combine left right :: parents rest
  | rest => rest

/-- The pairs combined to build the layer above. -/
def pairs : List η → List (η × η)
  | left :: right :: rest => (left, right) :: pairs rest
  | _ => []

/-- The layer a number of steps above the given one. -/
def layer : Nat → List η → List η
  | 0, nodes => nodes
  | height + 1, nodes => layer height (parents combine nodes)

/-- All pairs combined on the way there. -/
def treePairs : Nat → List η → List (η × η)
  | 0, _ => []
  | height + 1, nodes => pairs nodes ++ treePairs height (parents combine nodes)

/-- The number of layers built above a number of leaves; a single leaf is carried
up once. -/
def depth (width : Nat) : Nat :=
  if width = 1 then 1 else Nat.clog 2 width

def root (leaves : List η) : Option η :=
  (layer combine (depth leaves.length) leaves).head?

/-- A node and its sibling, in the order in which they are combined. -/
def ordered (index : Nat) (node sibling : η) : η × η :=
  if index % 2 = 0 then (node, sibling) else (sibling, node)

/-- Recompute the node above a leaf from its index and the hashes of a proof.
The climb fails when the proof runs out of hashes; hashes left over are not
looked at. -/
def climb : (height width index : Nat) → η → List η → Option η
  | 0, _, _, node, _ => some node
  | height + 1, width, index, node, hashes =>
      -- Only the last node of an odd layer has no sibling.
      if width % 2 = 1 ∧ index + 1 = width then
        climb height ((width + 1) / 2) (index / 2) node hashes
      else
        match hashes with
        | [] => none
        | sibling :: rest =>
            let pair := ordered index node sibling
            climb height ((width + 1) / 2) (index / 2) (combine pair.1 pair.2) rest

/-- The pairs combined by a climb. -/
def climbPairs : (height width index : Nat) → η → List η → List (η × η)
  | 0, _, _, _, _ => []
  | height + 1, width, index, node, hashes =>
      if width % 2 = 1 ∧ index + 1 = width then
        climbPairs height ((width + 1) / 2) (index / 2) node hashes
      else
        match hashes with
        | [] => []
        | sibling :: rest =>
            let pair := ordered index node sibling
            pair :: climbPairs height ((width + 1) / 2) (index / 2)
              (combine pair.1 pair.2) rest

/-- The index of the node with which the node at an index is combined. -/
def siblingIndex (index : Nat) : Nat :=
  if index % 2 = 0 then index + 1 else index - 1

/-- The hashes that a climb from an index needs: on every layer the sibling, if there
is one. -/
def proofHashes : (height : Nat) → List η → (index : Nat) → List η
  | 0, _, _ => []
  | height + 1, nodes, index =>
      nodes[siblingIndex index]?.toList ++
        proofHashes height (parents combine nodes) (index / 2)

/-- The inclusion proof of a leaf. -/
def proof (leaves : List η) (index : Nat) : List η :=
  proofHashes combine (depth leaves.length) leaves index

/-- The root that a proof leads to in a tree of the given width. -/
def proofRoot (width index : Nat) (node : η) (hashes : List η) : Option η :=
  if width = 0 then none else climb combine (depth width) width index node hashes

/-! ## Layers -/

@[simp] theorem length_parents (nodes : List η) :
    (parents combine nodes).length = (nodes.length + 1) / 2 := by
  induction nodes using List.twoStepInduction with
  | nil => simp [parents]
  | singleton node => simp [parents]
  | cons_cons left right rest ih _ =>
      simp only [parents, List.length_cons, ih]
      omega

variable {index : Nat} {nodes : List η} {leaves : List η} {height : Nat}

/-- A node with a right neighbour is combined with it. -/
theorem getElem?_parents_of_pair {left right : η} (leftNode : nodes[2 * index]? = some left)
    (rightNode : nodes[2 * index + 1]? = some right) :
    (parents combine nodes)[index]? = some (combine left right) ∧
      (left, right) ∈ pairs nodes := by
  induction index generalizing nodes with
  | zero =>
      match nodes with
      | [] => cases leftNode
      | [node] => cases rightNode
      | first :: second :: rest =>
          cases leftNode
          cases rightNode
          exact ⟨rfl, List.mem_cons_self⟩
  | succ index ih =>
      match nodes with
      | [] => cases leftNode
      | [node] => cases rightNode
      | first :: second :: rest =>
          obtain ⟨parent, member⟩ : (parents combine rest)[index]? = some (combine left right) ∧
              (left, right) ∈ pairs rest := ih leftNode rightNode
          exact ⟨parent, List.mem_cons_of_mem _ member⟩

/-- The unpaired last node of a layer is carried up. -/
theorem getElem?_parents_of_last (last : 2 * index + 1 = nodes.length) :
    (parents combine nodes)[index]? = nodes[2 * index]? := by
  induction index generalizing nodes with
  | zero =>
      match nodes with
      | [node] => rfl
  | succ index ih =>
      match nodes with
      | first :: second :: rest =>
          have shorter : 2 * index + 1 = rest.length := by
            simp only [List.length_cons] at last
            omega
          exact ih shorter

/-- Every leaf of a tree lies below its only top node. -/
theorem index_div_depth {width index : Nat} (inside : index < width) :
    index / 2 ^ depth width = 0 := by
  apply Nat.div_eq_of_lt
  unfold depth
  split
  · omega
  · exact Nat.lt_of_lt_of_le inside (Nat.le_pow_clog (by decide) width)

theorem layer_ne_nil (nonempty : nodes ≠ []) (height : Nat) : layer combine height nodes ≠ [] := by
  induction height generalizing nodes with
  | zero => exact nonempty
  | succ height ih =>
      apply ih
      rw [← List.length_pos_iff] at nonempty ⊢
      rw [length_parents]
      omega

/-- Every nonempty list of leaves has a root. -/
theorem exists_root (nonempty : leaves ≠ []) : ∃ top, root combine leaves = some top :=
  ⟨_, List.head?_eq_some_head (layer_ne_nil combine nonempty (depth leaves.length))⟩

/-! ## Layers of parts -/

/-- Nodes left of an even cut are combined among themselves. -/
theorem parents_append {left : List η} (even : left.length % 2 = 0) (right : List η) :
    parents combine (left ++ right) = parents combine left ++ parents combine right := by
  induction left using List.twoStepInduction with
  | nil => rfl
  | singleton node => cases even
  | cons_cons first second rest ih _ =>
      have restEven : rest.length % 2 = 0 := by
        simp only [List.length_cons] at even
        omega
      rw [List.cons_append, List.cons_append, parents, ih restEven, parents, List.cons_append]

/-- So are the nodes left of a cut between two perfect subtrees, layer by layer. -/
theorem layer_append {left : List η} (whole : 2 ^ height ∣ left.length) (right : List η) :
    layer combine height (left ++ right) =
      layer combine height left ++ layer combine height right := by
  induction height generalizing left right with
  | zero => rfl
  | succ height ih =>
      rcases whole with ⟨count, length⟩
      rw [Nat.pow_succ', Nat.mul_assoc] at length
      rw [layer, layer, layer, parents_append combine (by omega)]
      apply ih
      rw [length_parents, length]
      exact ⟨count, by omega⟩

theorem layer_add (first second : Nat) (nodes : List η) :
    layer combine (first + second) nodes = layer combine second (layer combine first nodes) := by
  induction first generalizing nodes with
  | zero => rw [Nat.zero_add, layer]
  | succ first ih =>
      rw [Nat.succ_add, layer, ih, layer]

theorem layer_singleton (height : Nat) (node : η) : layer combine height [node] = [node] := by
  induction height with
  | zero => rfl
  | succ height ih => exact ih

/-- A single node is left once the layers suffice for the number of nodes. -/
theorem exists_layer_eq_singleton (nonempty : nodes ≠ []) (fits : nodes.length ≤ 2 ^ height) :
    ∃ top, layer combine height nodes = [top] := by
  induction height generalizing nodes with
  | zero =>
      match nodes with
      | [] => exact False.elim (nonempty rfl)
      | [node] => exact ⟨node, rfl⟩
      | first :: second :: rest => simp at fits
  | succ height ih =>
      rw [Nat.pow_succ] at fits
      apply ih
      · exact layer_ne_nil combine nonempty 1
      · rw [length_parents]
        omega

/-- It is the root, since further layers do not change it. -/
theorem layer_eq_root (nonempty : leaves ≠ []) (fits : leaves.length ≤ 2 ^ height) :
    ∃ top, layer combine height leaves = [top] ∧ root combine leaves = some top := by
  by_cases single : leaves.length = 1
  · rcases List.length_eq_one_iff.mp single with ⟨leaf, rfl⟩
    refine ⟨leaf, layer_singleton combine height leaf, ?_⟩
    rw [root, layer_singleton, List.head?_cons]
  · have enough : Nat.clog 2 leaves.length ≤ height :=
      (Nat.clog_le_iff_le_pow (by decide)).mpr fits
    rcases exists_layer_eq_singleton combine nonempty (Nat.le_pow_clog (by decide) leaves.length)
      with ⟨top, reached⟩
    refine ⟨top, ?_, ?_⟩
    · rw [← Nat.add_sub_cancel' enough, layer_add, reached, layer_singleton]
    · rw [root, depth, if_neg single, reached, List.head?_cons]

/-- The root over a perfect left part and a right part that is no larger combines the
roots of the two parts. -/
theorem root_append {left right : List η} {leftRoot rightRoot : η}
    (perfect : left.length = 2 ^ height) (nonempty : right ≠ [])
    (smaller : right.length ≤ 2 ^ height) (leftRooted : root combine left = some leftRoot)
    (rightRooted : root combine right = some rightRoot) :
    root combine (left ++ right) = some (combine leftRoot rightRoot) := by
  have leftNonempty : left ≠ [] := by
    rw [← List.length_pos_iff, perfect]
    exact Nat.two_pow_pos height
  have wholeNonempty : left ++ right ≠ [] := List.append_ne_nil_of_left_ne_nil leftNonempty right
  have fits : (left ++ right).length ≤ 2 ^ (height + 1) := by
    rw [List.length_append, Nat.pow_succ]
    omega
  rcases layer_eq_root combine leftNonempty perfect.le with ⟨leftTop, leftLayer, leftTopRoot⟩
  rcases layer_eq_root combine nonempty smaller with ⟨rightTop, rightLayer, rightTopRoot⟩
  rcases layer_eq_root combine wholeNonempty fits with ⟨top, topLayer, topRoot⟩
  have together : layer combine (height + 1) (left ++ right) = [combine leftTop rightTop] := by
    rw [layer_add, layer_append combine (dvd_of_eq perfect.symm), leftLayer, rightLayer]
    rfl
  rw [leftRooted] at leftTopRoot
  rw [rightRooted] at rightTopRoot
  rw [together] at topLayer
  cases leftTopRoot
  cases rightTopRoot
  cases topLayer
  exact topRoot

/-! ## Completeness of a climb -/

/-- A node that is not carried up has a sibling, and is combined with it. -/
theorem getElem?_parents_of_sibling {node : η} (found : nodes[index]? = some node)
    (paired : ¬(nodes.length % 2 = 1 ∧ index + 1 = nodes.length)) :
    ∃ sibling, nodes[siblingIndex index]? = some sibling ∧
      (parents combine nodes)[index / 2]? =
        some (combine (ordered index node sibling).1 (ordered index node sibling).2) := by
  have inside : index < nodes.length := (List.getElem?_eq_some_iff.mp found).1
  by_cases even : index % 2 = 0
  · have here : index + 1 < nodes.length := by omega
    have half : 2 * (index / 2) = index := by omega
    refine ⟨nodes[index + 1], ?_, ?_⟩
    · rw [siblingIndex, if_pos even, List.getElem?_eq_getElem here]
    · simp only [ordered, if_pos even]
      apply (getElem?_parents_of_pair combine _ _).1
      · rw [half, found]
      · rw [half, List.getElem?_eq_getElem here]
  · have here : index - 1 < nodes.length := by omega
    have half : 2 * (index / 2) = index - 1 := by omega
    refine ⟨nodes[index - 1], ?_, ?_⟩
    · rw [siblingIndex, if_neg even, List.getElem?_eq_getElem here]
    · simp only [ordered, if_neg even]
      apply (getElem?_parents_of_pair combine _ _).1
      · rw [half, List.getElem?_eq_getElem here]
      · rw [half, show index - 1 + 1 = index by omega, found]

/-- A climb with the hashes of the layers ends in the node above its starting point. -/
theorem climb_proofHashes {height index : Nat} {node : η} (found : nodes[index]? = some node) :
    climb combine height nodes.length index node (proofHashes combine height nodes index) =
      (layer combine height nodes)[index / 2 ^ height]? := by
  induction height generalizing nodes index node with
  | zero =>
      rw [Nat.pow_zero, Nat.div_one]
      exact found.symm
  | succ height ih =>
      have above : (layer combine (height + 1) nodes)[index / 2 ^ (height + 1)]? =
          (layer combine height (parents combine nodes))[index / 2 / 2 ^ height]? := by
        rw [Nat.div_div_eq_div_mul, ← Nat.pow_succ']
        rfl
      rw [above]
      by_cases carried : nodes.length % 2 = 1 ∧ index + 1 = nodes.length
      · have even : index % 2 = 0 := by omega
        have alone : nodes[siblingIndex index]? = none := by
          rw [siblingIndex, if_pos even, carried.2]
          exact List.getElem?_eq_none (Nat.le_refl _)
        have parent : (parents combine nodes)[index / 2]? = some node := by
          rw [getElem?_parents_of_last combine (by omega),
            show 2 * (index / 2) = index by omega, found]
        simp only [climb, if_pos carried, proofHashes, alone, Option.toList_none,
          List.nil_append, ← length_parents combine nodes]
        exact ih parent
      · rcases getElem?_parents_of_sibling combine found carried with ⟨sibling, next, parent⟩
        simp only [climb, if_neg carried, proofHashes, next, Option.toList_some,
          List.singleton_append, ← length_parents combine nodes]
        exact ih parent

/-- The proof of a leaf leads to the root of its tree. -/
theorem proofRoot_proof {leaf : η} (found : leaves[index]? = some leaf) :
    proofRoot combine leaves.length index leaf (proof combine leaves index) =
      root combine leaves := by
  have inside : index < leaves.length := (List.getElem?_eq_some_iff.mp found).1
  rw [proofRoot, if_neg (by omega), proof, climb_proofHashes combine found,
    index_div_depth inside, root, List.head?_eq_getElem?]

/-! ## Soundness of a climb -/

/-- The node of a pair that stands at the given index. -/
private theorem getElem?_of_ordered {left right node sibling : η}
    (leftNode : nodes[2 * (index / 2)]? = some left)
    (rightNode : nodes[2 * (index / 2) + 1]? = some right)
    (same : (left, right) = ordered index node sibling) : nodes[index]? = some node := by
  unfold ordered at same
  split at same
  · next even =>
      cases same
      rwa [show 2 * (index / 2) = index by omega] at leftNode
  · next odd =>
      cases same
      rwa [show 2 * (index / 2) + 1 = index by omega] at rightNode

/-- A climb that ends in the node above its starting point started from the node
that is really there, unless one of the pairs it combines collides with a
different pair combined by the tree. -/
theorem climb_sound {height index : Nat} {nodes hashes : List η} {node top : η}
    (inside : index < nodes.length)
    (climbed : climb combine height nodes.length index node hashes = some top)
    (above : (layer combine height nodes)[index / 2 ^ height]? = some top)
    (collisionFree : ∀ built ∈ treePairs combine height nodes,
      ∀ used ∈ climbPairs combine height nodes.length index node hashes,
        combine built.1 built.2 = combine used.1 used.2 → built = used) :
    nodes[index]? = some node := by
  induction height generalizing nodes index node hashes with
  | zero =>
      simp only [layer, Nat.pow_zero, Nat.div_one] at above
      rw [above]
      exact climbed.symm
  | succ height ih =>
      have upInside : index / 2 < (parents combine nodes).length := by
        rw [length_parents]
        omega
      have upAbove : (layer combine height (parents combine nodes))[index / 2 / 2 ^ height]? =
          some top := by
        rw [Nat.div_div_eq_div_mul, ← Nat.pow_succ']
        exact above
      simp only [treePairs, List.mem_append, or_imp, forall_and] at collisionFree
      rcases collisionFree with ⟨bottomFree, upFree⟩
      by_cases carried : nodes.length % 2 = 1 ∧ index + 1 = nodes.length
      · simp only [climb, climbPairs, if_pos carried, ← length_parents combine nodes]
          at climbed upFree
        have parent := ih upInside climbed upAbove upFree
        have even : 2 * (index / 2) = index := by omega
        rw [getElem?_parents_of_last combine (by omega), even] at parent
        exact parent
      · cases hashes with
        | nil => simp [climb, carried] at climbed
        | cons sibling rest =>
            simp only [climb, climbPairs, if_neg carried, ← length_parents combine nodes,
              List.mem_cons, forall_eq_or_imp] at climbed upFree bottomFree
            have parent := ih upInside climbed upAbove fun built member => (upFree built member).2
            obtain ⟨left, leftNode⟩ : ∃ left, nodes[2 * (index / 2)]? = some left :=
              ⟨_, List.getElem?_eq_getElem (by omega)⟩
            obtain ⟨right, rightNode⟩ : ∃ right, nodes[2 * (index / 2) + 1]? = some right :=
              ⟨_, List.getElem?_eq_getElem (by omega)⟩
            rcases getElem?_parents_of_pair combine leftNode rightNode with ⟨real, member⟩
            rw [real, Option.some.injEq] at parent
            have same := (bottomFree (left, right) member).1 parent
            exact getElem?_of_ordered leftNode rightNode same

/-- A proof for the right number of leaves and an index among them that leads to
the root of a tree is about a leaf of that tree. -/
theorem proofRoot_sound {leaves hashes : List η} {node top : η} (inside : index < leaves.length)
    (rooted : root combine leaves = some top)
    (proved : proofRoot combine leaves.length index node hashes = some top)
    (collisionFree : ∀ built ∈ treePairs combine (depth leaves.length) leaves,
      ∀ used ∈ climbPairs combine (depth leaves.length) leaves.length index node hashes,
        combine built.1 built.2 = combine used.1 used.2 → built = used) :
    leaves[index]? = some node := by
  have nonempty : leaves.length ≠ 0 := by omega
  rw [proofRoot, if_neg nonempty] at proved
  apply climb_sound combine inside proved ?_ collisionFree
  rw [index_div_depth inside, ← List.head?_eq_getElem?]
  exact rooted

end Cosaci.Foundation.Merkle
