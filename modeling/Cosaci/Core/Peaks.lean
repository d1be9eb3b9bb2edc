import Cosaci.Core.MerkleLog
import Cosaci.Foundation.MerkleTree

/-!
# The peaks of the log

`peak_hashes` cuts the first entries of a log along the binary digits of their number,
and `root_at` builds one tree over all of them, layer by layer.  The cuts are perfect
subtrees of that tree, and its root is their bag: the first peak combined with the bag of
the ones after it.
-/

namespace Cosaci.Core

open Foundation

namespace MerkleLog

/-! ## Heights -/

/-- The heights run from the highest binary digit to the lowest. -/
theorem peakHeights_decreasing (length : Nat) : (peakHeights length).Pairwise (· > ·) := by
  apply List.Pairwise.filter
  rw [List.pairwise_reverse]
  exact List.pairwise_lt_range

theorem shiftRight_and_one_eq_testBit (length h : Nat) :
    ((length >>> h) &&& 1 == 1) = length.testBit h := by
  rw [Nat.testBit, Nat.and_comm, Nat.one_and_eq_mod_two]
  rcases Nat.mod_two_eq_zero_or_one (length >>> h) with even | odd
  · rw [even]
    rfl
  · rw [odd]
    rfl

/-- Binary digits below a position add up to the remainder there. -/
theorem sum_digits (length width : Nat) :
    (((List.range width).filter fun h => length.testBit h).map fun h => 2 ^ h).sum =
      length % 2 ^ width := by
  induction width with
  | zero => simp [Nat.mod_one]
  | succ width ih =>
      rw [List.range_succ, List.filter_append, List.map_append, List.sum_append, ih,
        Nat.mod_pow_succ, ← Nat.toNat_testBit]
      cases digit : length.testBit width <;> simp [digit]

/-- The digits of a word add up to it. -/
theorem sum_peakHeights {length : Nat} (word : length < 2 ^ 64) :
    ((peakHeights length).map fun h => 2 ^ h).sum = length := by
  have digits := sum_digits length 64
  rw [Nat.mod_eq_of_lt word] at digits
  rw [peakHeights, List.filter_reverse, List.map_reverse, List.sum_reverse]
  simp only [shiftRight_and_one_eq_testBit]
  exact digits

/-! ## Peaks -/

variable {σ : Type} (crypto : Crypto)

/-- Peaks over the leaves of perfect trees are the values of these trees. -/
theorem peaksFrom_flatMap {heights : List Nat} {subtrees : List (Merkle.Tree Hash)}
    (perfect : List.Forall₂ Merkle.Tree.Perfect heights subtrees) (before after : List Hash) :
    peaksFrom crypto (before ++ (subtrees.flatMap Merkle.Tree.flatten ++ after)) before.length
        heights =
      some (subtrees.map (Merkle.Tree.value (concatAndHash crypto))) := by
  induction perfect generalizing before with
  | nil => rfl
  | @cons h tree heights subtrees first rest ih =>
      have length := first.length_flatten
      have slice : ((before ++ (tree.flatten ++ (subtrees.flatMap Merkle.Tree.flatten ++
          after))).drop before.length).take (1 <<< h) = tree.flatten := by
        rw [List.drop_left, Nat.one_shiftLeft, ← length, List.take_left]
      have later := ih (before ++ tree.flatten)
      rw [List.length_append, length, ← Nat.one_shiftLeft, List.append_assoc] at later
      have inside : ¬(before ++ (tree.flatten ++ (subtrees.flatMap Merkle.Tree.flatten ++
          after))).length < before.length + 1 <<< h := by
        simp only [List.length_append, length, Nat.one_shiftLeft]
        omega
      rw [List.flatMap_cons, List.append_assoc, peaksFrom, if_neg inside, slice,
        first.root_flatten (concatAndHash crypto), later]
      rfl

/-- The peaks of the first entries are the roots of consecutive perfect subtrees over
them, of the heights of the binary digits of their number, and the root over the entries
is the bag of the peaks. -/
theorem rootAt_eq_bag_peaks (log : MerkleLog σ) (n : UInt64) (positive : 1 ≤ n.toNat)
    (bounded : n.toNat ≤ log.len) :
    (peakHeights n.toNat).Pairwise (· > ·) ∧
    ((peakHeights n.toNat).map fun h => 2 ^ h).sum = n.toNat ∧
    ∃ subtrees : List (Merkle.Tree Hash),
      List.Forall₂ Merkle.Tree.Perfect (peakHeights n.toNat) subtrees ∧
      subtrees.flatMap Merkle.Tree.flatten = log.entries.take n.toNat ∧
      log.peakHashes crypto n.toNat =
        some (subtrees.map (Merkle.Tree.value (concatAndHash crypto))) ∧
      log.rootAt crypto n.toNat =
        Merkle.bag (concatAndHash crypto)
          (subtrees.map (Merkle.Tree.value (concatAndHash crypto))) := by
  have decreasing := peakHeights_decreasing n.toNat
  have sum := sum_peakHeights n.toNat_lt
  have valid : ¬(n.toNat = 0 ∨ log.len < n.toNat) := by omega
  have length : (log.entries.take n.toNat).length =
      ((peakHeights n.toNat).map fun h => 2 ^ h).sum := by
    rw [sum]
    exact List.length_take_of_le bounded
  rcases Merkle.exists_perfect_trees length with ⟨subtrees, perfect, leaves⟩
  refine ⟨decreasing, sum, subtrees, perfect, leaves, ?_, ?_⟩
  · have peaks := peaksFrom_flatMap crypto perfect [] (log.entries.drop n.toNat)
    rw [leaves, List.take_append_drop] at peaks
    rw [peakHashes, if_neg valid]
    exact peaks
  · rw [rootAt, if_neg valid, ← leaves]
    exact Merkle.root_eq_bag (concatAndHash crypto) perfect decreasing

/-- Three entries have a peak over the first two and one over the last. -/
theorem rootAt_eq_bag_peaks_sample :
    (1 ≤ (3 : UInt64).toNat ∧ (3 : UInt64).toNat ≤ sampleLog.len) ∧
      peakHeights 3 = [1, 0] ∧
      ∃ peaks, sampleLog.peakHashes modelCrypto 3 = some peaks ∧
        sampleLog.rootAt modelCrypto 3 = Merkle.bag (concatAndHash modelCrypto) peaks := by
  have positive : 1 ≤ (3 : UInt64).toNat := by decide
  have bounded : (3 : UInt64).toNat ≤ sampleLog.len := by decide
  rcases (rootAt_eq_bag_peaks modelCrypto sampleLog 3 positive bounded).2.2 with
    ⟨subtrees, -, -, peaks, bagged⟩
  exact ⟨⟨positive, bounded⟩, by decide, _, peaks, bagged⟩

end MerkleLog

end Cosaci.Core
