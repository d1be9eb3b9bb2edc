import Mathlib.Data.UInt
import Mathlib.Tactic

/-!
# Unsigned 64-bit arithmetic

The release build of the modelled code uses wrapping, saturating and truncating
operations side by side.  Each is defined here on `UInt64` together with the
natural number it denotes, so that later proofs argue about numbers and never
about the machine representation.
-/

namespace Cosaci.Foundation

/-- The largest unsigned 64-bit value. -/
def maxWord : Nat := 2 ^ 64 - 1

theorem toNat_le_maxWord (value : UInt64) : value.toNat ≤ maxWord := by
  have bound := value.toNat_lt
  simp only [maxWord]
  omega

/-- Addition that stops at the largest representable value. -/
def saturatingAdd (left right : UInt64) : UInt64 :=
  UInt64.ofNat (min (left.toNat + right.toNat) maxWord)

@[simp] theorem toNat_saturatingAdd (left right : UInt64) :
    (saturatingAdd left right).toNat = min (left.toNat + right.toNat) maxWord := by
  simp only [saturatingAdd, UInt64.toNat_ofNat']
  apply Nat.mod_eq_of_lt
  simp only [maxWord]
  omega

/-- Subtraction that stops at zero. -/
def saturatingSub (left right : UInt64) : UInt64 :=
  UInt64.ofNat (left.toNat - right.toNat)

@[simp] theorem toNat_saturatingSub (left right : UInt64) :
    (saturatingSub left right).toNat = left.toNat - right.toNat := by
  simp only [saturatingSub, UInt64.toNat_ofNat']
  apply Nat.mod_eq_of_lt
  have bound := left.toNat_lt
  omega

@[simp] theorem toNat_min (left right : UInt64) :
    (min left right).toNat = min left.toNat right.toNat := by
  change (if left ≤ right then left else right).toNat = _
  split
  · next smaller => exact (Nat.min_eq_left (UInt64.le_iff_toNat_le.mp smaller)).symm
  · next larger =>
      have below := UInt64.lt_iff_toNat_lt.mp (UInt64.not_le.mp larger)
      exact (Nat.min_eq_right (Nat.le_of_lt below)).symm

/-- Distance between two values, in either direction. -/
def absDiff (left right : UInt64) : UInt64 :=
  UInt64.ofNat ((left.toNat - right.toNat) + (right.toNat - left.toNat))

@[simp] theorem toNat_absDiff (left right : UInt64) :
    (absDiff left right).toNat =
      (left.toNat - right.toNat) + (right.toNat - left.toNat) := by
  simp only [absDiff, UInt64.toNat_ofNat']
  apply Nat.mod_eq_of_lt
  have leftBound := left.toNat_lt
  have rightBound := right.toNat_lt
  omega

/-- Division rounded towards positive infinity. -/
def divCeil (value divisor : UInt64) : UInt64 :=
  UInt64.ofNat ((value.toNat + divisor.toNat - 1) / divisor.toNat)

/-- Conversion from a wider integer, which keeps only the low 64 bits. -/
def truncate (value : Nat) : UInt64 :=
  UInt64.ofNat value

theorem toNat_truncate (value : Nat) : (truncate value).toNat = value % 2 ^ 64 :=
  UInt64.toNat_ofNat'

/-- A wrapping sum denotes the exact sum modulo the word size. -/
theorem toNat_sum (values : List UInt64) :
    values.sum.toNat = (values.map UInt64.toNat).sum % 2 ^ 64 := by
  induction values with
  | nil => rfl
  | cons value rest ih =>
      rw [List.sum_cons, List.map_cons, List.sum_cons, UInt64.toNat_add, ih, Nat.add_mod_mod]

/-- A saturating accumulation denotes the exact sum cut off at the maximum. -/
theorem toNat_foldl_saturatingAdd (values : List UInt64) (start : UInt64) :
    (values.foldl saturatingAdd start).toNat =
      min (start.toNat + (values.map UInt64.toNat).sum) maxWord := by
  induction values generalizing start with
  | nil =>
      have bound := toNat_le_maxWord start
      simp only [List.foldl_nil, List.map_nil, List.sum_nil]
      omega
  | cons value rest ih =>
      rw [List.foldl_cons, ih, toNat_saturatingAdd]
      simp only [List.map_cons, List.sum_cons]
      omega

/-- Two runs of consecutive words share no word exactly when one of them is empty, or each
ends before the first word of the other. -/
theorem consecutive_disjoint_iff {width : Nat} (left right : BitVec width) (lefts rights : Nat) :
    (∀ i < lefts, ∀ j < rights, left + BitVec.ofNat width i ≠ right + BitVec.ofNat width j) ↔
      lefts = 0 ∨ rights = 0 ∨
        (lefts ≤ (right - left).toNat ∧ rights ≤ (left - right).toNat) := by
  constructor
  · intro disjoint
    rcases Nat.eq_zero_or_pos lefts with none | someLeft
    · exact Or.inl none
    rcases Nat.eq_zero_or_pos rights with none | someRight
    · exact Or.inr (Or.inl none)
    refine Or.inr (Or.inr ⟨?_, ?_⟩)
    · by_contra reaches
      apply disjoint (right - left).toNat (Nat.not_le.mp reaches) 0 someRight
      rw [BitVec.ofNat_toNat, BitVec.setWidth_eq, BitVec.add_comm, BitVec.sub_add_cancel]
      exact (BitVec.add_zero right).symm
    · by_contra reaches
      apply disjoint 0 someLeft (left - right).toNat (Nat.not_le.mp reaches)
      rw [BitVec.ofNat_toNat, BitVec.setWidth_eq, BitVec.add_comm right, BitVec.sub_add_cancel]
      exact BitVec.add_zero left
  · -- A shared word puts one start at most as far behind the other as the longer offset.
    have distance : ∀ (near far : BitVec width) (i j : Nat), j ≤ i →
        near + BitVec.ofNat width i = far + BitVec.ofNat width j → (far - near).toNat ≤ i := by
      intro near far i j order shared
      have offset : far - near = BitVec.ofNat width (i - j) := by
        have split : BitVec.ofNat width i = BitVec.ofNat width (i - j) + BitVec.ofNat width j := by
          rw [← BitVec.ofNat_add, Nat.sub_add_cancel order]
        rw [split, ← BitVec.add_assoc] at shared
        have start := (BitVec.add_left_inj _).mp shared
        rw [← start, BitVec.add_comm near, BitVec.add_sub_cancel]
      rw [offset, BitVec.toNat_ofNat]
      exact (Nat.mod_le _ _).trans (Nat.sub_le _ _)
    rintro (none | none | ⟨leftShort, rightShort⟩) i left_i j right_j shared
    · omega
    · omega
    · rcases Nat.le_total j i with order | order
      · have reached := distance left right i j order shared
        omega
      · have reached := distance right left j i order shared.symm
        omega

end Cosaci.Foundation
