import Mathlib.Algebra.BigOperators.Group.Finset.Basic
import Mathlib.Algebra.Order.BigOperators.Group.Finset
import Mathlib.Tactic

/-!
# Weighted coalitions

Counting facts about finite sets of weighted members.  A coalition may contain
members outside the known population; they weigh nothing.
-/

namespace Cosaci.Foundation

variable {κ : Type}

/-- The total weight of a finite set of members. -/
def weightOn (weight : κ → Nat) (members : Finset κ) : Nat :=
  ∑ member ∈ members, weight member

theorem weightOn_mono {weight : κ → Nat} {small large : Finset κ} (subset : small ⊆ large) :
    weightOn weight small ≤ weightOn weight large :=
  Finset.sum_le_sum_of_subset subset

variable [DecidableEq κ]

/-- Changing the weight of one member changes the total by as much. -/
theorem weightOn_add_of_eq_off (before after : κ → Nat) {members : Finset κ} {member : κ}
    (listed : member ∈ members)
    (same : ∀ other, other ≠ member → after other = before other) :
    weightOn after members + before member = weightOn before members + after member := by
  have others : weightOn after (members.erase member) =
      weightOn before (members.erase member) :=
    Finset.sum_congr rfl fun other listed => same other (Finset.ne_of_mem_erase listed)
  have total := Finset.add_sum_erase members before listed
  have changed := Finset.add_sum_erase members after listed
  simp only [weightOn] at others ⊢
  omega

/-- A coalition weighs at most the population that carries all the weight. -/
theorem weightOn_le_population {weight : κ → Nat} {population : Finset κ}
    (supported : ∀ member, member ∉ population → weight member = 0)
    (members : Finset κ) : weightOn weight members ≤ weightOn weight population := by
  have inside : weightOn weight (members ∩ population) = weightOn weight members := by
    apply Finset.sum_subset Finset.inter_subset_left
    intro member _ outside
    apply supported
    intro known
    exact outside (Finset.mem_inter.mpr ⟨‹_›, known⟩)
  rw [← inside]
  exact weightOn_mono Finset.inter_subset_right

/-- Two coalitions that meet only in `shared` weigh together at most the
population plus `shared`. -/
theorem weightOn_add_le {weight : κ → Nat} {population left right shared : Finset κ}
    (supported : ∀ member, member ∉ population → weight member = 0)
    (meets : left ∩ right ⊆ shared) :
    weightOn weight left + weightOn weight right ≤
      weightOn weight population + weightOn weight shared := by
  have counted : weightOn weight (left ∪ right) + weightOn weight (left ∩ right) =
      weightOn weight left + weightOn weight right := Finset.sum_union_inter
  have unionBound := weightOn_le_population supported (left ∪ right)
  have sharedBound : weightOn weight (left ∩ right) ≤ weightOn weight shared :=
    weightOn_mono meets
  omega

end Cosaci.Foundation
