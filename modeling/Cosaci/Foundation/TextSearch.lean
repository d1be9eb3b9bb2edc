import Mathlib.Data.List.Infix

/-!
# Searching in texts

The first occurrence of a pattern, and a text without a leading part.
-/

namespace Cosaci.Foundation

variable {α : Type} [DecidableEq α]

/-- The text before the first occurrence of a pattern, and the text after it. -/
def splitFirst (pattern : List α) : List α → Option (List α × List α)
  | [] => if pattern.isEmpty then some ([], []) else none
  | first :: rest =>
      if pattern <+: first :: rest then
        some ([], (first :: rest).drop pattern.length)
      else
        (splitFirst pattern rest).map fun (before, after) => (first :: before, after)

def containsText (pattern text : List α) : Bool :=
  (splitFirst pattern text).isSome

/-- The text after the given beginning, if it begins so. -/
def stripFront (front text : List α) : Option (List α) :=
  if front <+: text then some (text.drop front.length) else none

variable {pattern text before after : List α}

/-- A split text is put together again with the pattern. -/
theorem splitFirst_eq_some (found : splitFirst pattern text = some (before, after)) :
    text = before ++ pattern ++ after := by
  induction text generalizing before after with
  | nil =>
      rw [splitFirst] at found
      split at found
      · next empty =>
          cases found
          rw [List.isEmpty_iff.mp empty]
          rfl
      · cases found
  | cons first rest ih =>
      rw [splitFirst] at found
      split at found
      · next here =>
          cases found
          obtain ⟨tail, whole⟩ := here
          rw [← whole, List.drop_left, List.nil_append]
      · cases later : splitFirst pattern rest with
        | none => simp [later] at found
        | some parts =>
            obtain ⟨before, after⟩ := parts
            simp only [later, Option.map_some, Option.some.injEq, Prod.mk.injEq] at found
            obtain ⟨rfl, rfl⟩ := found
            rw [ih later]
            rfl

theorem containsText_iff {pattern text : List α} :
    containsText pattern text = true ↔ pattern <:+: text := by
  constructor
  · intro found
    obtain ⟨⟨before, after⟩, split⟩ := Option.isSome_iff_exists.mp found
    exact ⟨before, after, (splitFirst_eq_some split).symm⟩
  · intro inside
    induction text with
    | nil =>
        rw [List.infix_nil] at inside
        rw [inside]
        rfl
    | cons first rest ih =>
        rw [containsText, splitFirst]
        split
        · rfl
        · next elsewhere =>
            rcases List.infix_cons_iff.mp inside with here | later
            · exact absurd here elsewhere
            · rw [Option.isSome_map]
              exact ih later

theorem splitFirst_eq_none_iff {pattern text : List α} :
    splitFirst pattern text = none ↔ ¬pattern <:+: text := by
  rw [← containsText_iff, containsText, Bool.not_eq_true, Option.isSome_eq_false_iff,
    Option.isNone_iff_eq_none]

/-- The pattern begins nowhere before the end of the text that it follows. -/
def FirstAfter (pattern before : List α) : Prop :=
  ¬pattern <:+: before ++ pattern.dropLast

instance (pattern before : List α) : Decidable (FirstAfter pattern before) :=
  decidable_of_iff (¬containsText pattern (before ++ pattern.dropLast) = true)
    (not_congr containsText_iff)

omit [DecidableEq α] in
theorem FirstAfter.tail {pattern before : List α} {first : α}
    (firstAfter : FirstAfter pattern (first :: before)) : FirstAfter pattern before :=
  fun inside => firstAfter (inside.trans (List.suffix_cons _ _).isInfix)

omit [DecidableEq α] in
theorem append_dropLast_initial (before pattern after : List α) :
    before ++ pattern.dropLast <+: before ++ pattern ++ after := by
  rw [List.append_assoc]
  apply (List.prefix_append_right_inj before).mpr
  exact (List.dropLast_prefix pattern).trans (List.prefix_append _ _)

omit [DecidableEq α] in
theorem not_prefix_of_firstAfter {pattern before after : List α} {first : α}
    (firstAfter : FirstAfter pattern (first :: before)) :
    ¬pattern <+: first :: (before ++ pattern ++ after) := by
  intro here
  have front := append_dropLast_initial (first :: before) pattern after
  refine firstAfter (List.prefix_of_prefix_length_le here front ?_).isInfix
  simp only [List.length_append, List.length_cons, List.length_dropLast]
  omega

/-- Nothing before the place where a text is split begins with the pattern. -/
theorem firstAfter_of_splitFirst (nonempty : pattern ≠ [])
    (found : splitFirst pattern text = some (before, after)) : FirstAfter pattern before := by
  induction text generalizing before with
  | nil =>
      rw [splitFirst, if_neg (by simpa using nonempty)] at found
      cases found
  | cons first rest ih =>
      rw [splitFirst] at found
      split at found
      · cases found
        intro inside
        have length := inside.length_le
        have positive := List.length_pos_iff.mpr nonempty
        rw [List.nil_append, List.length_dropLast] at length
        omega
      · next elsewhere =>
          obtain ⟨⟨middle, remainder⟩, later, same⟩ := Option.map_eq_some_iff.mp found
          cases same
          have whole := splitFirst_eq_some later
          intro inside
          rcases List.infix_cons_iff.mp inside with here | behind
          · apply elsewhere
            rw [whole]
            exact here.trans (append_dropLast_initial (first :: middle) pattern after)
          · exact ih later behind

theorem splitFirst_of_firstAfter {pattern before : List α} (nonempty : pattern ≠ [])
    (firstAfter : FirstAfter pattern before) (after : List α) :
    splitFirst pattern (before ++ pattern ++ after) = some (before, after) := by
  induction before with
  | nil =>
      cases pattern with
      | nil => exact absurd rfl nonempty
      | cons start others =>
          rw [List.nil_append, List.cons_append, splitFirst,
            if_pos (by rw [← List.cons_append]; exact List.prefix_append _ _),
            ← List.cons_append, List.drop_left]
  | cons first before ih =>
      rw [List.cons_append, List.cons_append, splitFirst,
        if_neg (not_prefix_of_firstAfter firstAfter), ih firstAfter.tail]
      rfl

/-- A text is split where the pattern begins first. -/
theorem splitFirst_eq_some_iff (nonempty : pattern ≠ []) :
    splitFirst pattern text = some (before, after) ↔
      text = before ++ pattern ++ after ∧ FirstAfter pattern before := by
  constructor
  · intro found
    exact ⟨splitFirst_eq_some found, firstAfter_of_splitFirst nonempty found⟩
  · rintro ⟨rfl, firstAfter⟩
    exact splitFirst_of_firstAfter nonempty firstAfter after

omit [DecidableEq α] in
/-- A pair lies in one of two texts, or across the place where they meet. -/
theorem pair_infix_append_iff {left right : α} {first second : List α} :
    [left, right] <:+: first ++ second ↔ [left, right] <:+: first ∨ [left, right] <:+: second ∨
      first.getLast? = some left ∧ second.head? = some right := by
  induction first with
  | nil => simp
  | cons start rest ih =>
      rw [List.cons_append, List.infix_cons_iff, ih, List.infix_cons_iff, List.cons_prefix_cons,
        List.cons_prefix_cons]
      cases rest with
      | nil =>
          cases second with
          | nil => simp
          | cons next others =>
              simp only [List.nil_append, List.cons_prefix_cons, List.nil_prefix, and_true,
                List.prefix_nil, List.cons_ne_nil, and_false, List.infix_nil, false_or,
                List.getLast?_singleton, List.head?_cons, Option.some.injEq]
              tauto
      | cons next others =>
          simp only [List.cons_append, List.cons_prefix_cons, List.nil_prefix, and_true,
            List.getLast?_cons_cons]
          tauto

end Cosaci.Foundation
