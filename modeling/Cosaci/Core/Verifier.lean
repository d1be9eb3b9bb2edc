import Cosaci.Core.MerkleLog
import Cosaci.Foundation.MerkleTree
import Cosaci.Foundation.PrefixCode
import Cosaci.Foundation.Ranking

/-!
# The verifier's root

The `verifier` module of `cosaci-core` sorts a list of leaf hashes and takes the root of
the Merkle tree over them.  Leaves and inner nodes are not told apart: a leaf may be the
hash of two others, and the tree over these two then has the root of the tree over that
leaf.  Lists of equally many leaves are bound by their root, and so are lists in which no
leaf is such a hash.

Inclusion proofs are about the sorted list as well, so a proof made from one order of the
leaves is good for the root computed from any other.
-/

namespace Cosaci.Core.Verifier

open Foundation

/-- A leaf of the verifier's tree. -/
abbrev LeafHash := Hash

/-- Leaves are compared byte by byte. -/
def leafBefore (first second : LeafHash) : Prop :=
  first.toList ≤ second.toList

instance : DecidableRel leafBefore := fun first second =>
  inferInstanceAs (Decidable (first.toList ≤ second.toList))

/-- The sorted leaves.  Leaves that compare equal are equal, so an unstable sort has no
other result. -/
def canonical (leaves : List LeafHash) : List LeafHash :=
  leaves.insertionSort leafBefore

/-- The canonical Merkle root over a list of leaves. -/
def computeRoot (crypto : Crypto) (leaves : List LeafHash) : Option LeafHash :=
  if leaves.isEmpty then none else Merkle.root (concatAndHash crypto) (canonical leaves)

/-- The tree over the sorted leaves. -/
def treeOf (leaves : List LeafHash) : Option (Merkle.Tree LeafHash) :=
  Merkle.Tree.build (canonical leaves)

/-- The messages hashed to compute the root. -/
def rootMessages (crypto : Crypto) (leaves : List LeafHash) : List (List UInt8) :=
  ((treeOf leaves).map fun tree => (tree.pairs (concatAndHash crypto)).map
    fun pair => nodeMessage pair.1 pair.2).getD []

/-- The root is the value of the tree. -/
theorem computeRoot_eq (crypto : Crypto) (leaves : List LeafHash) :
    computeRoot crypto leaves =
      (treeOf leaves).map (Merkle.Tree.value (concatAndHash crypto)) := by
  rw [treeOf, ← Merkle.Tree.root_eq_build, computeRoot]
  cases leaves with
  | nil => rfl
  | cons leaf rest => rfl

variable {crypto : Crypto} {leaves : List LeafHash} {leaf : LeafHash}

/-- Values that can be hashed out of some leaves, pair by pair. -/
abbrev NodeOver (crypto : Crypto) : List LeafHash → LeafHash → Prop :=
  Merkle.Tree.NodeOver (concatAndHash crypto)

/-- A Merkle inclusion proof bundle. -/
structure InclusionProof where
  leaf : LeafHash
  /-- Position of the leaf in the sorted list. -/
  index : Nat
  proofHashes : List LeafHash
  totalLeaves : Nat
  deriving DecidableEq

/-- Produce an inclusion proof for a leaf; of equal leaves the first one is proved. -/
def inclusionProof (crypto : Crypto) (leaves : List LeafHash) (leaf : LeafHash) :
    Option InclusionProof :=
  if leaves.isEmpty then
    none
  else
    let sorted := canonical leaves
    (sorted.idxOf? leaf).map fun index =>
      ⟨leaf, index, Merkle.proof (concatAndHash crypto) sorted index, sorted.length⟩

def verifyInclusion (crypto : Crypto) (proof : InclusionProof) (root : LeafHash) : Bool :=
  Merkle.proofRoot (concatAndHash crypto) proof.totalLeaves proof.index proof.leaf
    proof.proofHashes == some root

instance : Std.Total leafBefore :=
  ⟨fun first second => List.le_total first.toList second.toList⟩

instance : IsTrans LeafHash leafBefore :=
  ⟨fun _ _ _ => List.le_trans⟩

/-- Leaves that compare equal are equal, so every order of the leaves is sorted alike. -/
theorem canonical_eq_of_perm {leaves permuted : List LeafHash} (perm : leaves.Perm permuted) :
    canonical leaves = canonical permuted := by
  apply ranked_eq_of_perm leafBefore perm
  intro left _ right _ before after
  exact List.Vector.toList_injective (List.le_antisymm before after)

theorem mem_canonical : leaf ∈ canonical leaves ↔ leaf ∈ leaves :=
  List.mem_insertionSort leafBefore

theorem computeRoot_eq_of_perm (crypto : Crypto) {leaves permuted : List LeafHash}
    (perm : leaves.Perm permuted) : computeRoot crypto permuted = computeRoot crypto leaves := by
  rw [computeRoot_eq, computeRoot_eq, treeOf, treeOf, canonical_eq_of_perm perm]

/-- The empty list needs no separate treatment: it has no leaf to be proved. -/
theorem inclusionProof_eq (crypto : Crypto) (leaves : List LeafHash) (leaf : LeafHash) :
    inclusionProof crypto leaves leaf = ((canonical leaves).idxOf? leaf).map fun index =>
      ⟨leaf, index, Merkle.proof (concatAndHash crypto) (canonical leaves) index,
        (canonical leaves).length⟩ := by
  rw [inclusionProof]
  cases leaves with
  | nil => rfl
  | cons first rest => rfl

theorem inclusionProof_isSome_iff : (inclusionProof crypto leaves leaf).isSome ↔ leaf ∈ leaves := by
  rw [inclusionProof_eq, Option.isSome_map, List.isSome_idxOf?, mem_canonical]

/-- A proof leads to the root of the list that it was made from. -/
theorem verifyInclusion_inclusionProof {proof : InclusionProof}
    (proved : inclusionProof crypto leaves leaf = some proof) :
    proof.leaf = leaf ∧ ∃ root, computeRoot crypto leaves = some root ∧
      verifyInclusion crypto proof root = true := by
  rw [inclusionProof_eq, Option.map_eq_some_iff] at proved
  obtain ⟨index, position, rfl⟩ := proved
  obtain ⟨inside, here, -⟩ := List.idxOf?_eq_some_iff.mp position
  have found : (canonical leaves)[index]? = some leaf := by
    rw [List.getElem?_eq_getElem inside, here]
  have nonempty : canonical leaves ≠ [] := List.ne_nil_of_length_pos (Nat.zero_lt_of_lt inside)
  obtain ⟨root, rooted⟩ := Merkle.exists_root (concatAndHash crypto) nonempty
  refine ⟨rfl, root, ?_, ?_⟩
  · rw [computeRoot_eq, treeOf, ← Merkle.Tree.root_eq_build, rooted]
  · rw [verifyInclusion, Merkle.proofRoot_proof (concatAndHash crypto) found, rooted]
    exact beq_self_eq_true _

/-- The order of the leaves matters neither for the root nor for the proofs: a leaf has a
proof exactly when it occurs, and the proof is accepted against the root computed from
any order. -/
theorem membership_order_insensitive (crypto : Crypto) (leaves permuted : List LeafHash)
    (leaf : LeafHash) (perm : leaves.Perm permuted) :
    computeRoot crypto permuted = computeRoot crypto leaves ∧
      ((inclusionProof crypto leaves leaf).isSome ↔ leaf ∈ leaves) ∧
      ∀ proof, inclusionProof crypto leaves leaf = some proof →
        proof.leaf = leaf ∧ ∃ root, computeRoot crypto permuted = some root ∧
          verifyInclusion crypto proof root = true := by
  refine ⟨computeRoot_eq_of_perm crypto perm, inclusionProof_isSome_iff, ?_⟩
  intro proof proved
  rw [computeRoot_eq_of_perm crypto perm]
  exact verifyInclusion_inclusionProof proved

/-- Three leaves, two of them equal, in another order. -/
theorem membership_order_insensitive_repeated :
    [sampleEntry 2, sampleEntry 1, sampleEntry 2].Perm
        [sampleEntry 2, sampleEntry 2, sampleEntry 1] ∧
      ∃ proof root,
        inclusionProof modelCrypto [sampleEntry 2, sampleEntry 1, sampleEntry 2]
            (sampleEntry 2) = some proof ∧
          computeRoot modelCrypto [sampleEntry 2, sampleEntry 2, sampleEntry 1] = some root ∧
          verifyInclusion modelCrypto proof root = true := by
  have perm : [sampleEntry 2, sampleEntry 1, sampleEntry 2].Perm
      [sampleEntry 2, sampleEntry 2, sampleEntry 1] := by decide
  obtain ⟨-, occurs, accepted⟩ := membership_order_insensitive modelCrypto _ _ (sampleEntry 2) perm
  obtain ⟨proof, proved⟩ := Option.isSome_iff_exists.mp (occurs.mpr List.mem_cons_self)
  obtain ⟨-, root, rooted, verified⟩ := accepted proof proved
  exact ⟨perm, proof, root, proved, rooted, verified⟩

end Cosaci.Core.Verifier
