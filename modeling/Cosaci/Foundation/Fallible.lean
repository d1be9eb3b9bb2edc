import Mathlib.Data.List.Forall2

/-!
# Computations that may fail

What the success of a sequence of fallible steps says about the steps.
-/

namespace Cosaci.Foundation

variable {ε α β : Type}

theorem bind_eq_ok {result : Except ε α} {rest : α → Except ε β} {value : β} :
    result >>= rest = .ok value ↔ ∃ first, result = .ok first ∧ rest first = .ok value := by
  cases result with
  | error error => exact ⟨nofun, nofun⟩
  | ok first =>
      constructor
      · exact fun rested => ⟨first, rfl, rested⟩
      · rintro ⟨_, same, rested⟩
        cases same
        exact rested

/-- A computation whose result was converted had a result. -/
theorem map_eq_ok {convert : α → β} {computed : Except ε α} {result : β}
    (mapped : computed.map convert = .ok result) :
    ∃ value, computed = .ok value ∧ result = convert value := by
  cases computed with
  | error error => cases mapped
  | ok value =>
      cases mapped
      exact ⟨value, rfl, rfl⟩

/-- A traversal succeeds when it succeeds at every element. -/
theorem mapM_eq_ok_iff {step : α → Except ε β} {inputs : List α} {outputs : List β} :
    inputs.mapM step = .ok outputs ↔
      List.Forall₂ (fun input output => step input = .ok output) inputs outputs := by
  induction inputs generalizing outputs with
  | nil =>
      rw [List.mapM_nil, List.forall₂_nil_left_iff]
      exact ⟨fun same => (Except.ok.inj same).symm, fun same => same ▸ rfl⟩
  | cons input rest ih =>
      rw [List.mapM_cons, bind_eq_ok]
      constructor
      · rintro ⟨output, here, mapped⟩
        obtain ⟨others, later, same⟩ := bind_eq_ok.mp mapped
        cases same
        exact .cons here (ih.mp later)
      · intro related
        cases related with
        | cons here others => exact ⟨_, here, bind_eq_ok.mpr ⟨_, ih.mpr others, rfl⟩⟩

/-- A property of all results is one of all inputs, if it is so for each of them. -/
theorem forall_mem_of_mapM {step : α → Except ε β} {inputs : List α} {outputs : List β}
    (mapped : inputs.mapM step = .ok outputs) {before : α → Prop} {after : β → Prop}
    (each : ∀ input output, step input = .ok output → (after output ↔ before input)) :
    (∀ output ∈ outputs, after output) ↔ ∀ input ∈ inputs, before input := by
  have related := mapM_eq_ok_iff.mp mapped
  clear mapped
  induction related with
  | nil => simp
  | cons here others ih =>
      rw [List.forall_mem_cons, List.forall_mem_cons]
      exact and_congr (each _ _ here) ih

/-- The outcome of a computation that meets the given errors: the first one, or the value. -/
def firstError (errors : List ε) (value : α) : Except ε α :=
  match errors with
  | [] => .ok value
  | error :: _ => .error error

theorem firstError_bind (earlier later : List ε) (value : α) (rest : α → β) :
    (firstError earlier value >>= fun value => firstError later (rest value)) =
      firstError (earlier ++ later) (rest value) := by
  cases earlier with
  | nil => rfl
  | cons error earlier => rfl

end Cosaci.Foundation
