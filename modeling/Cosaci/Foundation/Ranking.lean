import Mathlib.Data.List.Sort

/-!
# Ranking by a total preorder

Sorting a list by a total and transitive relation that need not tell all elements
apart.  A prefix of the sorted list is a choice of least elements; the sorted list
depends on the order of the input only between elements that the relation identifies.
-/

namespace Cosaci.Foundation

variable {α : Type} (before : α → α → Prop) [DecidableRel before]

/-- A prefix of the ranked elements and what follows it are all the elements. -/
theorem ranked_parts_perm (elements : List α) (count : Nat) :
    ((elements.insertionSort before).take count ++
      (elements.insertionSort before).drop count).Perm elements := by
  rw [List.take_append_drop]
  exact List.perm_insertionSort before elements

/-- Elements of one rank stay in the order in which they were given: `same` selects only
elements that come before each other. -/
theorem filter_insertionSort (same : α → Bool)
    (alike : ∀ left right, same left = true → same right = true → before left right)
    (elements : List α) :
    (elements.insertionSort before).filter same = elements.filter same := by
  have inserted : ∀ (element : α) (sorted : List α),
      (sorted.orderedInsert before element).filter same = (element :: sorted).filter same := by
    intro element sorted
    induction sorted with
    | nil => rfl
    | cons head sorted ih =>
        rw [List.orderedInsert]
        split_ifs with first
        · rfl
        · -- The element passes only heads that are not of its rank.
          have apart : same element = false ∨ same head = false := by
            cases left : same element with
            | false => exact Or.inl rfl
            | true =>
                cases right : same head with
                | false => exact Or.inr rfl
                | true => exact absurd (alike element head left right) first
          rcases apart with left | right
          · simp only [List.filter_cons, ih, left, Bool.false_eq_true, if_false]
          · simp only [List.filter_cons, ih, right, Bool.false_eq_true, if_false]
  induction elements with
  | nil => rfl
  | cons element elements ih =>
      rw [List.insertionSort_cons, inserted, List.filter_cons, List.filter_cons, ih]

variable [Std.Total before] [IsTrans α before]

/-- Nothing outside of a prefix of the ranked elements ranks strictly before it. -/
theorem before_of_mem_ranked_parts {elements : List α} {count : Nat} {chosen other : α}
    (first : chosen ∈ (elements.insertionSort before).take count)
    (second : other ∈ (elements.insertionSort before).drop count) : before chosen other := by
  have ranked := List.pairwise_insertionSort before elements
  rw [← List.take_append_drop count (elements.insertionSort before)] at ranked
  exact (List.pairwise_append.mp ranked).2.2 chosen first other second

/-- Two arrangements of elements that the relation tells apart are ranked alike. -/
theorem ranked_eq_of_perm {first second : List α} (perm : first.Perm second)
    (apart : ∀ left ∈ second, ∀ right ∈ second,
      before left right → before right left → left = right) :
    first.insertionSort before = second.insertionSort before := by
  have same := (List.perm_insertionSort before first).trans
    (perm.trans (List.perm_insertionSort before second).symm)
  have unique : ∀ left right, left ∈ first.insertionSort before →
      right ∈ second.insertionSort before → before left right → before right left →
      left = right := by
    intro left right inFirst inSecond
    apply apart
    · exact perm.mem_iff.mp ((List.mem_insertionSort before).mp inFirst)
    · exact (List.mem_insertionSort before).mp inSecond
  exact same.eq_of_pairwise unique (List.pairwise_insertionSort before first)
    (List.pairwise_insertionSort before second)

end Cosaci.Foundation
