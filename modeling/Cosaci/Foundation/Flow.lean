import Cosaci.Foundation.Machine

/-!
# Machines that pass things on

A machine may take things in, hold them for a while and give them out again.  When every
step keeps them in line, a whole run neither loses, nor doubles, nor reorders any.
-/

namespace Cosaci.Foundation.Machine

variable {σ ι ο β : Type} {machine : Machine σ ι ο}

/-- What is held, followed by what comes in, is what goes out, followed by what is held
in the end. -/
theorem observe_of_flow (invariant : σ → Prop) (held : σ → List β)
    {received emitted : ι → ο → Option β}
    (preserved : ∀ state input, invariant state → invariant (machine.step state input).2)
    (flow : ∀ state input, invariant state →
      held state ++ (received input (machine.step state input).1).toList =
        (emitted input (machine.step state input).1).toList ++
          held (machine.step state input).2)
    {state : σ} (initial : invariant state) (inputs : List ι) :
    held state ++ machine.observe received state inputs =
      machine.observe emitted state inputs ++ held (machine.final state inputs) := by
  induction inputs generalizing state with
  | nil => simp [observe, run, final]
  | cons input rest ih =>
      have later := ih (preserved state input initial)
      rw [observe_cons, observe_cons, ← List.append_assoc, flow state input initial,
        List.append_assoc, later, List.append_assoc]
      rfl

theorem map_observe {γ : Type} (view : β → γ) (select : ι → ο → Option β) (state : σ)
    (inputs : List ι) :
    (machine.observe select state inputs).map view =
      machine.observe (fun input output => (select input output).map view) state inputs :=
  List.map_filterMap

end Cosaci.Foundation.Machine
