import Mathlib.Data.List.Basic
import Mathlib.Tactic

/-!
# Deterministic machines observed over whole runs

A machine consumes one input at a time and emits one output.  Its inputs may
carry the clock readings taken while they were processed; a run is monotone when
the readings of the whole run never decrease.

The main rule compares a run with the run obtained by erasing some of its
inputs: a relation between the two states that survives kept and erased inputs
makes the outputs of the kept inputs equal.  Erasing nothing gives the usual
bisimulation rule.
-/

namespace Cosaci.Foundation

/-- A deterministic machine with states `σ`, inputs `ι` and outputs `ο`. -/
structure Machine (σ ι ο : Type) where
  step : σ → ι → ο × σ

namespace Machine

variable {σ ι ο : Type} (machine : Machine σ ι ο)

/-- The outputs of a run, in order. -/
def run (state : σ) : List ι → List ο
  | [] => []
  | input :: rest =>
      (machine.step state input).1 :: run (machine.step state input).2 rest

/-- The state reached by a run. -/
def final (state : σ) : List ι → σ
  | [] => state
  | input :: rest => final (machine.step state input).2 rest

/-- What an observer extracts from the inputs and outputs of a run, in order. -/
def observe {β : Type} (select : ι → ο → Option β) (state : σ) (inputs : List ι) : List β :=
  (inputs.zip (machine.run state inputs)).filterMap fun pair => select pair.1 pair.2

variable {β : Type} {inputs : List ι} {left right : σ}

theorem observe_cons (select : ι → ο → Option β) (state : σ) (input : ι) (rest : List ι) :
    machine.observe select state (input :: rest) =
      (select input (machine.step state input).1).toList ++
        machine.observe select (machine.step state input).2 rest := by
  simp only [observe, run, List.zip_cons_cons, List.filterMap_cons]
  cases select input (machine.step state input).1 <;> simp

theorem final_append (state : σ) (first second : List ι) :
    machine.final state (first ++ second) =
      machine.final (machine.final state first) second := by
  induction first generalizing state with
  | nil => rfl
  | cons input rest ih => exact ih (machine.step state input).2

theorem final_concat (state : σ) (inputs : List ι) (input : ι) :
    machine.final state (inputs ++ [input]) =
      (machine.step (machine.final state inputs) input).2 :=
  machine.final_append state inputs [input]

/-- What every step preserves holds after every run. -/
theorem final_of_step (invariant : σ → Prop)
    (preserved : ∀ state input, invariant state → invariant (machine.step state input).2)
    {state : σ} (initial : invariant state) (inputs : List ι) :
    invariant (machine.final state inputs) := by
  induction inputs generalizing state with
  | nil => exact initial
  | cons input rest ih => exact ih (preserved state input initial)

theorem observe_append (select : ι → ο → Option β) (state : σ) (first second : List ι) :
    machine.observe select state (first ++ second) =
      machine.observe select state first ++
        machine.observe select (machine.final state first) second := by
  induction first generalizing state with
  | nil => rfl
  | cons input rest ih =>
      rw [List.cons_append, observe_cons, observe_cons, ih, List.append_assoc]
      rfl

/-- The outputs of the kept inputs of a run. -/
def runKept (keep : ι → Bool) (state : σ) : List ι → List ο
  | [] => []
  | input :: rest =>
      if keep input then
        (machine.step state input).1 :: runKept keep (machine.step state input).2 rest
      else
        runKept keep (machine.step state input).2 rest

/-- A side condition that may look at the state of a run and at the state of the
run without the erased inputs, required before every step. -/
def Along (keep : ι → Bool) (condition : σ → σ → ι → Prop) :
    σ → σ → List ι → Prop
  | _, _, [] => True
  | state, erased, input :: rest =>
      condition state erased input ∧
        Along keep condition (machine.step state input).2
          (if keep input then (machine.step erased input).2 else erased) rest

theorem Along.and {machine : Machine σ ι ο} {keep : ι → Bool} {first second : σ → σ → ι → Prop}
    {state erased : σ} (left : machine.Along keep first state erased inputs)
    (right : machine.Along keep second state erased inputs) :
    machine.Along keep (fun state erased input =>
      first state erased input ∧ second state erased input) state erased inputs := by
  induction inputs generalizing state erased with
  | nil => trivial
  | cons input rest ih =>
      exact ⟨⟨left.1, right.1⟩, ih left.2 right.2⟩

/-- Comparison rule: related states whose outputs compare, and which stay related while the
side condition holds, give comparable outputs over the whole run. -/
theorem run_forall₂ {machine : Machine σ ι ο} {compare : ο → ο → Prop}
    {condition : σ → σ → ι → Prop} (related : σ → σ → Prop)
    (step : ∀ left right input, condition left right input → related left right →
      compare (machine.step left input).1 (machine.step right input).1 ∧
        related (machine.step left input).2 (machine.step right input).2)
    (allowed : machine.Along (fun _ => true) condition left right inputs)
    (initial : related left right) :
    List.Forall₂ compare (machine.run left inputs) (machine.run right inputs) := by
  induction inputs generalizing left right with
  | nil => exact .nil
  | cons input rest ih =>
      obtain ⟨outputs, next⟩ := step left right input allowed.1 initial
      exact .cons outputs (ih allowed.2 next)

/-! ## Monotone clocks -/

variable {τ : Type} (readings : ι → List τ)

/-- The last reading taken once an input has been processed. -/
def lastReading (start : τ) (input : ι) : τ :=
  (readings input).getLastD start

theorem lastReading_mem (start : τ) (input : ι) :
    lastReading readings start input ∈ start :: readings input := by
  unfold lastReading
  cases list : readings input with
  | nil => simp
  | cons reading rest => simp [List.getLastD]

variable [LE τ]

/-- Every reading of the run is at least `start`, and readings never decrease. -/
def Monotone (start : τ) (inputs : List ι) : Prop :=
  (start :: inputs.flatMap readings).Pairwise (· ≤ ·)

instance [DecidableLE τ] (start : τ) (inputs : List ι) :
    Decidable (Monotone readings start inputs) :=
  inferInstanceAs (Decidable (List.Pairwise _ _))

variable {start : τ}

theorem Monotone.head {input : ι} {rest : List ι}
    (monotone : Monotone readings start (input :: rest)) :
    (start :: readings input).Pairwise (· ≤ ·) := by
  simp only [Monotone, List.flatMap_cons, ← List.cons_append] at monotone
  exact (List.pairwise_append.mp monotone).1

theorem Monotone.tail {input : ι} {rest : List ι}
    (monotone : Monotone readings start (input :: rest)) :
    Monotone readings (lastReading readings start input) rest := by
  simp only [Monotone, List.flatMap_cons, ← List.cons_append] at monotone
  rcases List.pairwise_append.mp monotone with ⟨_, later, cross⟩
  apply List.pairwise_cons.mpr
  exact ⟨cross _ (lastReading_mem readings start input), later⟩

/-- What an observation establishes about the state constrains every later one. -/
theorem apart_of_mem_observe {select : ι → ο → Option β} {apart : β → β → Prop}
    {held : β → τ → σ → Prop}
    (keeps : ∀ first start input state, (start :: readings input).Pairwise (· ≤ ·) →
      held first start state →
      held first (lastReading readings start input) (machine.step state input).2)
    (blocks : ∀ first second start input state,
      (start :: readings input).Pairwise (· ≤ ·) → held first start state →
      select input (machine.step state input).1 = some second → apart first second) {first : β}
    {state : σ} (monotone : Monotone readings start inputs) (initial : held first start state) :
    ∀ second ∈ machine.observe select state inputs, apart first second := by
  induction inputs generalizing start state with
  | nil =>
      intro second member
      cases member
  | cons input rest ih =>
      intro second member
      rw [observe_cons, List.mem_append, Option.mem_toList] at member
      rcases member with here | later
      · exact blocks first second start input state monotone.head initial here
      · exact ih monotone.tail (keeps first start input state monotone.head initial) second
          later

/-- Spacing rule.  In the states of the invariant, each observation establishes
`held`, which every step keeps, and an observation made while `held` is apart from the
one that established it. -/
theorem observe_pairwise {select : ι → ο → Option β} {apart : β → β → Prop}
    (held : β → τ → σ → Prop) (invariant : σ → Prop)
    (preserved : ∀ input state, invariant state → invariant (machine.step state input).2)
    (starts : ∀ first start input state, (start :: readings input).Pairwise (· ≤ ·) →
      invariant state → select input (machine.step state input).1 = some first →
      held first (lastReading readings start input) (machine.step state input).2)
    (keeps : ∀ first start input state, (start :: readings input).Pairwise (· ≤ ·) →
      held first start state →
      held first (lastReading readings start input) (machine.step state input).2)
    (blocks : ∀ first second start input state,
      (start :: readings input).Pairwise (· ≤ ·) → held first start state →
      select input (machine.step state input).1 = some second → apart first second) {state : σ}
    (monotone : Monotone readings start inputs) (initial : invariant state) :
    (machine.observe select state inputs).Pairwise apart := by
  induction inputs generalizing start state with
  | nil => exact List.Pairwise.nil
  | cons input rest ih =>
      have later := ih monotone.tail (preserved input state initial)
      rw [observe_cons]
      cases observed : select input (machine.step state input).1 with
      | none => exact later
      | some first =>
          have established := starts first start input state monotone.head initial observed
          exact List.Pairwise.cons
            (machine.apart_of_mem_observe readings keeps blocks monotone.tail established) later

/-- Erasure rule.  The relation is indexed by the last clock reading, holds
before the run, and is kept by every step: a kept input must give the same
output on both sides, an erased input may only change the left state. -/
theorem runKept_eq_run_filter (keep : ι → Bool) (condition : σ → σ → ι → Prop)
    (related : τ → σ → σ → Prop) (kept : ∀ start input left right, keep input = true →
      (start :: readings input).Pairwise (· ≤ ·) →
      condition left right input → related start left right →
      (machine.step left input).1 = (machine.step right input).1 ∧
        related (lastReading readings start input)
          (machine.step left input).2 (machine.step right input).2)
    (erased : ∀ start input left right, keep input = false →
      (start :: readings input).Pairwise (· ≤ ·) →
      condition left right input → related start left right →
      related (lastReading readings start input) (machine.step left input).2 right)
    (monotone : Monotone readings start inputs)
    (allowed : machine.Along keep condition left right inputs)
    (initial : related start left right) :
    machine.runKept keep left inputs = machine.run right (inputs.filter keep) := by
  induction inputs generalizing start left right with
  | nil => rfl
  | cons input rest ih =>
      rcases allowed with ⟨here, later⟩
      cases keeps : keep input with
      | true =>
          rcases kept start input left right keeps monotone.head here initial with ⟨same, next⟩
          simp only [keeps, ↓reduceIte] at later
          simp only [runKept, keeps, ↓reduceIte, List.filter_cons_of_pos, run, same]
          rw [ih monotone.tail later next]
      | false =>
          have next := erased start input left right keeps monotone.head here initial
          simp only [keeps, Bool.false_eq_true, ↓reduceIte] at later
          simp only [runKept, keeps, Bool.false_eq_true, ↓reduceIte, not_false_eq_true,
            List.filter_cons_of_neg]
          exact ih monotone.tail later next

theorem runKept_true (state : σ) (inputs : List ι) :
    machine.runKept (fun _ => true) state inputs = machine.run state inputs := by
  induction inputs generalizing state with
  | nil => rfl
  | cons input rest ih => simp [runKept, run, ih]

/-- A condition on the inputs alone holds along every run of such inputs. -/
theorem along_of_forall {keep : ι → Bool} {condition : σ → σ → ι → Prop}
    (holds : ∀ input ∈ inputs, ∀ left right, condition left right input) (left right : σ) :
    machine.Along keep condition left right inputs := by
  induction inputs generalizing left right with
  | nil => trivial
  | cons input rest ih =>
      refine ⟨holds input List.mem_cons_self left right, ih ?_ _ _⟩
      intro later member
      exact holds later (List.mem_cons_of_mem _ member)

/-- Bisimulation rule: related states produce the same outputs on every monotone
run. -/
theorem run_eq_of_related (related : τ → σ → σ → Prop) (kept : ∀ start input left right,
      (start :: readings input).Pairwise (· ≤ ·) → related start left right →
      (machine.step left input).1 = (machine.step right input).1 ∧
        related (lastReading readings start input)
          (machine.step left input).2 (machine.step right input).2)
    (monotone : Monotone readings start inputs) (initial : related start left right) :
    machine.run left inputs = machine.run right inputs := by
  have erasure := machine.runKept_eq_run_filter readings (fun _ => true)
    (fun _ _ _ => True) related
    (fun start input left right _ ordered _ => kept start input left right ordered)
    (fun start input left right dropped => by simp at dropped)
    monotone (machine.along_of_forall (fun _ _ _ _ => trivial) left right) initial
  simpa [runKept_true] using erasure

end Machine

end Cosaci.Foundation
