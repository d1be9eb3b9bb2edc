import Mathlib.Logic.Function.Basic
import Mathlib.Data.List.Nodup
import Mathlib.Tactic

/-!
# Concurrent processes

A process acts on a shared state in atomic steps and computes between them.  Threads that
run processes are interleaved by a schedule.  Two ways to reason about an interleaving
are developed: threads that do not overlap on one object can be run one after the other,
and a process can be verified against interference that is bounded by a relation.
-/

namespace Cosaci.Foundation

/-- A program whose atomic steps change a shared state; how it goes on depends on the
state that a step has found. -/
inductive Process (σ α : Type) where
  | done (result : α)
  | act (update : σ → σ) (next : σ → Process σ α)

namespace Process

variable {σ α β : Type}

/-- One atomic step with a result. -/
def atomic (step : σ → α × σ) : Process σ α :=
  .act (fun state => (step state).2) fun state => .done (step state).1

/-- One atomic step that only looks at the state. -/
def look (observe : σ → α) : Process σ α :=
  .act id fun state => .done (observe state)

protected def bind (process : Process σ α) (rest : α → Process σ β) : Process σ β :=
  match process with
  | .done result => rest result
  | .act update next => .act update fun state => (next state).bind rest

instance : Monad (Process σ) where
  pure := .done
  bind := Process.bind

/-- The process on its own, from start to end. -/
def run : Process σ α → σ → α × σ
  | .done result, state => (result, state)
  | .act update next, state => (next state).run (update state)

def result : Process σ α → Option α
  | .done result => some result
  | .act _ _ => none

@[simp] theorem run_pure (result : α) (state : σ) :
    (pure result : Process σ α).run state = (result, state) := rfl

@[simp] theorem run_atomic (step : σ → α × σ) (state : σ) :
    (atomic step).run state = step state := rfl

@[simp] theorem run_look (observe : σ → α) (state : σ) :
    (look observe).run state = (observe state, state) := rfl

@[simp] theorem run_bind (process : Process σ α) (rest : α → Process σ β) (state : σ) :
    (process >>= rest).run state = (rest (process.run state).1).run (process.run state).2 := by
  induction process generalizing state with
  | done result => rfl
  | act update next ih => exact ih state (update state)

variable {process : Process σ α} {state : σ} {post : α → σ → Prop}

/-- A process that is done returns its result from any state and leaves it alone. -/
theorem run_of_isSome (finished : process.result.isSome) (first second : σ) :
    process.run second = ((process.run first).1, second) := by
  cases process with
  | done result => rfl
  | act update next => cases finished

/-! ## Bounded interference -/

/-- The process establishes the postcondition, whatever the environment does between its
steps, as long as that is within the relation. -/
def Ensures (rely : σ → σ → Prop) (post : α → σ → Prop) : Process σ α → σ → Prop
  | .done result, state => post result state
  | .act update next, state =>
      ∀ found, rely state found → (next found).Ensures rely post (update found)

variable {rely : σ → σ → Prop}

theorem Ensures.imp {first second : α → σ → Prop} (ensures : process.Ensures rely first state)
    (weaker : ∀ result state, first result state → second result state) :
    process.Ensures rely second state := by
  induction process generalizing state with
  | done result => exact weaker result state ensures
  | act update next ih =>
      intro found interfered
      exact ih found (ensures found interfered)

theorem ensures_bind {post : β → σ → Prop} {rest : α → Process σ β}
    (ensures : process.Ensures rely (fun result next => (rest result).Ensures rely post next)
      state) : (process >>= rest).Ensures rely post state := by
  induction process generalizing state with
  | done result => exact ensures
  | act update next ih =>
      intro found interfered
      exact ih found (ensures found interfered)

theorem ensures_look {observe : σ → α}
    (holds : ∀ found, rely state found → post (observe found) found) :
    (look observe).Ensures rely post state :=
  holds

theorem ensures_atomic {step : σ → α × σ}
    (holds : ∀ found, rely state found → post (step found).1 (step found).2) :
    (atomic step).Ensures rely post state :=
  holds

/-- A process that is not done does not mind further interference. -/
theorem Ensures.interfere {state found : σ}
    (trans : ∀ first second third, rely first second → rely second third → rely first third)
    (running : process.result = none) (ensures : process.Ensures rely post state)
    (interfered : rely state found) : process.Ensures rely post found := by
  cases process with
  | done result => cases running
  | act update next =>
      intro later further
      exact ensures later (trans _ _ _ interfered further)

end Process

/-! ## Threads -/

section Threads

variable {ι κ τ ρ : Type} [DecidableEq ι] [DecidableEq κ]

/-- Shared objects, and what is left to do for each thread. -/
structure Threads (ι κ τ ρ : Type) where
  objects : κ → τ
  process : ι → Process τ ρ

namespace Threads

variable (object : ι → κ)

/-- One step of a thread on its object. -/
def step (threads : Threads ι κ τ ρ) (thread : ι) : Threads ι κ τ ρ :=
  match threads.process thread with
  | .done _ => threads
  | .act update next =>
      let state := threads.objects (object thread)
      { objects := Function.update threads.objects (object thread) (update state)
        process := Function.update threads.process thread (next state) }

def run (threads : Threads ι κ τ ρ) (schedule : List ι) : Threads ι κ τ ρ :=
  schedule.foldl (step object) threads

def result (threads : Threads ι κ τ ρ) (thread : ι) : Option ρ :=
  (threads.process thread).result

/-- No thread takes a step while another one that works on the same object has begun and
is not done. -/
def Exclusive (threads : Threads ι κ τ ρ) (schedule : List ι) : Prop :=
  ∀ before thread after, schedule = before ++ thread :: after →
    ∀ other ∈ before, other ≠ thread → object other = object thread →
      ((threads.run object before).result other).isSome

variable {schedule : List ι} {started : List ι}

theorem exclusive_iff {threads : Threads ι κ τ ρ} :
    Exclusive object threads schedule ↔ ∀ (index : Nat) (bound : index < schedule.length),
      ∀ other ∈ schedule.take index, other ≠ schedule[index] →
        object other = object schedule[index] →
          ((threads.run object (schedule.take index)).result other).isSome := by
  constructor
  · intro exclusive index bound
    apply exclusive (schedule.take index) schedule[index] (schedule.drop (index + 1))
    rw [← List.drop_eq_getElem_cons bound, List.take_append_drop]
  · intro exclusive before thread after split
    subst split
    have earlier := exclusive before.length (by simp)
    simpa using earlier

instance (threads : Threads ι κ τ ρ) (schedule : List ι) :
    Decidable (Exclusive object threads schedule) :=
  decidable_of_iff _ (exclusive_iff object).symm

theorem Exclusive.of_append {threads : Threads ι κ τ ρ} {first second : List ι}
    (exclusive : Exclusive object threads (first ++ second)) :
    Exclusive object threads first := by
  intro before thread after split
  apply exclusive before thread (after ++ second)
  rw [split, List.append_assoc, List.cons_append]

/-! ## One after the other -/

/-- The objects and the results of the threads that have been run. -/
structure Serial (ι κ τ ρ : Type) where
  objects : κ → τ
  results : ι → Option ρ

namespace Serial

variable (program : ι → Process τ ρ)

/-- Run the process of one thread from start to end. -/
def complete (serial : Serial ι κ τ ρ) (thread : ι) : Serial ι κ τ ρ :=
  let (result, state) := (program thread).run (serial.objects (object thread))
  { objects := Function.update serial.objects (object thread) state
    results := Function.update serial.results thread (some result) }

/-- Run the threads one after the other. -/
def run (objects : κ → τ) (order : List ι) : Serial ι κ τ ρ :=
  order.foldl (complete object program) ⟨objects, fun _ => none⟩

@[simp] theorem run_concat (objects : κ → τ) (order : List ι) (thread : ι) :
    run object program objects (order ++ [thread]) =
      complete object program (run object program objects order) thread := by
  rw [run, List.foldl_append]
  rfl

variable (serial : Serial ι κ τ ρ) {order : List ι}

theorem objects_complete (thread : ι) :
    (complete object program serial thread).objects =
      Function.update serial.objects (object thread)
        ((program thread).run (serial.objects (object thread))).2 := rfl

@[simp] theorem objects_complete_self (thread : ι) :
    (complete object program serial thread).objects (object thread) =
      ((program thread).run (serial.objects (object thread))).2 :=
  Function.update_self _ _ _

@[simp] theorem results_complete_self (thread : ι) :
    (complete object program serial thread).results thread =
      some ((program thread).run (serial.objects (object thread))).1 :=
  Function.update_self _ _ _

theorem objects_complete_of_ne {thread : ι} {key : κ} (differs : key ≠ object thread) :
    (complete object program serial thread).objects key = serial.objects key :=
  Function.update_of_ne differs _ _

theorem results_complete_of_ne {thread other : ι} (differs : other ≠ thread) :
    (complete object program serial thread).results other = serial.results other :=
  Function.update_of_ne differs _ _

/-- The threads of an order whose results satisfy a condition. -/
def kept (keep : ρ → Bool) (objects : κ → τ) (order : List ι) : List ι :=
  order.filter fun thread => ((run object program objects order).results thread).any keep

theorem results_run_concat_of_mem (objects : κ → τ) {thread other : ι} (absent : thread ∉ order)
    (member : other ∈ order) :
    (run object program objects (order ++ [thread])).results other =
      (run object program objects order).results other := by
  rw [run_concat]
  exact results_complete_of_ne object program _ fun same => absent (same ▸ member)

theorem kept_concat (keep : ρ → Bool) (objects : κ → τ) {thread : ι} (absent : thread ∉ order) :
    kept object program keep objects (order ++ [thread]) =
      kept object program keep objects order ++
        if keep ((program thread).run ((run object program objects order).objects
          (object thread))).1 then [thread] else [] := by
  have last : ((run object program objects (order ++ [thread])).results thread).any keep =
      keep ((program thread).run ((run object program objects order).objects
        (object thread))).1 := by
    rw [run_concat, results_complete_self, Option.any_some]
  unfold kept
  rw [List.filter_append, List.filter_cons, last, List.filter_nil]
  congr 1
  apply List.filter_congr
  intro other member
  rw [results_run_concat_of_mem object program objects absent member]

/-- Threads whose result shows that they left their object alone can be left out. -/
theorem run_kept {keep : ρ → Bool}
    (unchanged : ∀ thread state, keep ((program thread).run state).1 = false →
      ((program thread).run state).2 = state) (objects : κ → τ) (nodup : order.Nodup) :
    (run object program objects (kept object program keep objects order)).objects =
        (run object program objects order).objects ∧
      ∀ thread ∈ kept object program keep objects order,
        (run object program objects (kept object program keep objects order)).results thread =
          (run object program objects order).results thread := by
  induction order using List.reverseRecOn with
  | nil => exact ⟨rfl, fun _ member => absurd member List.not_mem_nil⟩
  | append_singleton rest thread ih =>
      rw [List.nodup_append] at nodup
      have absent : thread ∉ rest := fun member => nodup.2.2 _ member _ List.mem_cons_self rfl
      have inside : ∀ other ∈ kept object program keep objects rest, other ∈ rest :=
        fun other member => List.mem_of_mem_filter member
      obtain ⟨sameObjects, sameResults⟩ := ih nodup.1
      rw [kept_concat object program keep objects absent]
      cases last : keep ((program thread).run ((run object program objects rest).objects
        (object thread))).1 with
      | false =>
          rw [if_neg Bool.false_ne_true, List.append_nil]
          constructor
          · rw [sameObjects, run_concat, objects_complete, unchanged thread _ last,
              Function.update_eq_self]
          · intro other member
            rw [sameResults other member,
              results_run_concat_of_mem object program objects absent (inside other member)]
      | true =>
          rw [if_pos rfl]
          constructor
          · rw [run_concat, run_concat, objects_complete, objects_complete, sameObjects]
          · intro other member
            rcases List.mem_append.mp member with prior | only
            · have missing : thread ∉ kept object program keep objects rest :=
                fun present => absent (inside thread present)
              rw [results_run_concat_of_mem object program objects missing prior,
                sameResults other prior,
                results_run_concat_of_mem object program objects absent (inside other prior)]
            · obtain rfl := List.mem_singleton.mp only
              rw [run_concat, run_concat, results_complete_self, results_complete_self,
                sameObjects]

end Serial

/-! ## Threads that do not overlap -/

/-- How an interleaving relates to running every thread to its end as soon as it takes its
first step. -/
structure Ahead (program : ι → Process τ ρ) (threads : Threads ι κ τ ρ) (started : List ι)
    (serial : Serial ι κ τ ρ) : Prop where
  fresh : ∀ thread, thread ∉ started → threads.process thread = program thread
  /-- What a thread will return has been returned in the serial run. -/
  results : ∀ thread ∈ started, serial.results thread =
    some ((threads.process thread).run (threads.objects (object thread))).1
  /-- A thread that is under way will leave its object as the serial run has left it. -/
  pending : ∀ thread ∈ started, threads.result thread = none →
    ((threads.process thread).run (threads.objects (object thread))).2 =
      serial.objects (object thread)
  settled : ∀ key, (∀ thread ∈ started, object thread = key → (threads.result thread).isSome) →
    threads.objects key = serial.objects key

variable {object} {program : ι → Process τ ρ} {threads : Threads ι κ τ ρ} {thread other : ι}

theorem process_step_of_ne (differs : other ≠ thread) :
    (threads.step object thread).process other = threads.process other := by
  unfold step
  cases threads.process thread with
  | done result => rfl
  | act update next => exact Function.update_of_ne differs _ _

theorem objects_step_of_ne {key : κ} (differs : key ≠ object thread) :
    (threads.step object thread).objects key = threads.objects key := by
  unfold step
  cases threads.process thread with
  | done result => rfl
  | act update next => exact Function.update_of_ne differs _ _

/-- A step does not change what its thread is going to do. -/
theorem run_process_step :
    ((threads.step object thread).process thread).run
        ((threads.step object thread).objects (object thread)) =
      (threads.process thread).run (threads.objects (object thread)) := by
  unfold step
  cases running : threads.process thread with
  | done result => rw [running]
  | act update next =>
      dsimp only
      rw [Function.update_self, Function.update_self]
      rfl

theorem result_step_of_ne (differs : other ≠ thread) :
    (threads.step object thread).result other = threads.result other := by
  rw [result, process_step_of_ne differs, result]

/-- A step that ends its thread leaves the object as the whole rest of the thread does. -/
theorem objects_step_of_isSome
    (done : ((threads.step object thread).result thread).isSome) :
    (threads.step object thread).objects (object thread) =
      ((threads.process thread).run (threads.objects (object thread))).2 := by
  have state := congrArg Prod.snd (Process.run_of_isSome done
    ((threads.step object thread).objects (object thread))
    ((threads.step object thread).objects (object thread)))
  rw [run_process_step] at state
  exact state.symm

theorem eq_or_mem_of_mem_concat (member : other ∈ started ++ [thread]) :
    other = thread ∨ other ≠ thread ∧ other ∈ started := by
  rcases List.mem_append.mp member with earlier | last
  · by_cases same : other = thread
    · exact Or.inl same
    · exact Or.inr ⟨same, earlier⟩
  · exact Or.inl (List.mem_singleton.mp last)

/-- One step of a thread, while no other thread on its object is under way. -/
theorem Ahead.advance {serial next : Serial ι κ τ ρ}
    (ahead : Ahead object program threads started serial)
    (alone : ∀ other ∈ started, other ≠ thread → object other = object thread →
      (threads.result other).isSome)
    (sameResults : ∀ other, other ≠ thread → next.results other = serial.results other)
    (sameObjects : ∀ key, key ≠ object thread → next.objects key = serial.objects key)
    (run : (threads.process thread).run (threads.objects (object thread)) =
      (((threads.process thread).run (threads.objects (object thread))).1,
        next.objects (object thread))) (result : next.results thread =
      some ((threads.process thread).run (threads.objects (object thread))).1) :
    Ahead object program (threads.step object thread) (started ++ [thread]) next := by
  constructor
  · intro other absent
    rw [List.mem_append, not_or, List.mem_singleton] at absent
    rw [process_step_of_ne absent.2]
    exact ahead.fresh other absent.1
  · intro other member
    rcases eq_or_mem_of_mem_concat member with rfl | ⟨differs, earlier⟩
    · rw [run_process_step]
      exact result
    · rw [sameResults other differs, ahead.results other earlier, process_step_of_ne differs]
      by_cases shared : object other = object thread
      · rw [Process.run_of_isSome (alone other earlier differs shared)]
      · rw [objects_step_of_ne shared]
  · intro other member running
    rcases eq_or_mem_of_mem_concat member with rfl | ⟨differs, earlier⟩
    · rw [run_process_step, run]
    · rw [result_step_of_ne differs] at running
      have apart : object other ≠ object thread := by
        intro shared
        have finished := alone other earlier differs shared
        rw [running] at finished
        cases finished
      rw [process_step_of_ne differs, objects_step_of_ne apart, sameObjects _ apart]
      exact ahead.pending other earlier running
  · intro key finished
    by_cases own : key = object thread
    · subst own
      have done := finished thread (List.mem_append_right _ List.mem_cons_self) rfl
      rw [objects_step_of_isSome done, run]
    · rw [objects_step_of_ne own, sameObjects key own]
      apply ahead.settled key
      intro other earlier shared
      have differs : other ≠ thread := by
        rintro rfl
        exact own shared.symm
      rw [← result_step_of_ne differs]
      exact finished other (List.mem_append_left _ earlier) shared

/-- A thread that has begun takes another step. -/
theorem Ahead.resume {serial : Serial ι κ τ ρ} (ahead : Ahead object program threads started serial)
    (again : thread ∈ started)
    (alone : ∀ other ∈ started, other ≠ thread → object other = object thread →
      (threads.result other).isSome) :
    Ahead object program (threads.step object thread) (started ++ [thread]) serial := by
  apply ahead.advance alone (fun _ _ => rfl) (fun _ _ => rfl) ?_ (ahead.results thread again)
  cases done : threads.result thread with
  | none => rw [← ahead.pending thread again done]
  | some result =>
      have settled := ahead.settled (object thread) fun other member shared => by
        by_cases same : other = thread
        · rw [same, done]
          rfl
        · exact alone other member same shared
      rw [← settled]
      have finished : (threads.process thread).result.isSome := Option.isSome_of_eq_some done
      exact Process.run_of_isSome finished _ _

/-- A thread takes its first step, and the serial run all of its steps. -/
theorem Ahead.start {serial : Serial ι κ τ ρ} (ahead : Ahead object program threads started serial)
    (first : thread ∉ started)
    (alone : ∀ other ∈ started, other ≠ thread → object other = object thread →
      (threads.result other).isSome) :
    Ahead object program (threads.step object thread) (started ++ [thread])
      (serial.complete object program thread) := by
  have settled := ahead.settled (object thread) fun other member shared =>
    alone other member (fun same => first (same ▸ member)) shared
  apply ahead.advance alone
  · exact fun other => Serial.results_complete_of_ne object program serial
  · exact fun key => Serial.objects_complete_of_ne object program serial
  · rw [Serial.objects_complete_self, ahead.fresh thread first, settled]
  · rw [Serial.results_complete_self, ahead.fresh thread first, settled]

theorem run_concat (threads : Threads ι κ τ ρ) (schedule : List ι) (thread : ι) :
    threads.run object (schedule ++ [thread]) =
      (threads.run object schedule).step object thread := by
  rw [run, List.foldl_append]
  rfl

/-- An exclusive interleaving, with the serial run it corresponds to. -/
theorem exists_ahead (exclusive : Exclusive object threads schedule) :
    ∃ order, order.Nodup ∧ (∀ thread, thread ∈ order ↔ thread ∈ schedule) ∧
      Ahead object threads.process (threads.run object schedule) schedule
        (Serial.run object threads.process threads.objects order) := by
  induction schedule using List.reverseRecOn with
  | nil =>
      refine ⟨[], List.nodup_nil, fun _ => Iff.rfl, fun _ _ => rfl, ?_, ?_, fun _ _ => rfl⟩
      · intro thread member
        cases member
      · intro thread member
        cases member
  | append_singleton earlier thread ih =>
      obtain ⟨order, nodup, members, ahead⟩ := ih (exclusive.of_append object)
      have alone := exclusive earlier thread [] rfl
      rw [run_concat]
      by_cases again : thread ∈ earlier
      · refine ⟨order, nodup, fun other => ?_, ahead.resume again alone⟩
        rw [members other, List.mem_append, List.mem_singleton]
        constructor
        · exact Or.inl
        · rintro (present | rfl)
          · exact present
          · exact again
      · refine ⟨order ++ [thread], ?_, fun other => ?_, ?_⟩
        · apply nodup.append (List.nodup_singleton thread)
          rw [List.disjoint_singleton, members thread]
          exact again
        · rw [List.mem_append, List.mem_append, members other]
        · rw [Serial.run_concat]
          exact ahead.start again alone

/-- Threads that do not overlap on an object leave the objects as if they had been run one
after the other, and get the same results. -/
theorem serializable (exclusive : Exclusive object threads schedule)
    (finished : ∀ thread ∈ schedule, ((threads.run object schedule).result thread).isSome) :
    ∃ order, order.Nodup ∧ (∀ thread, thread ∈ order ↔ thread ∈ schedule) ∧
      (threads.run object schedule).objects =
        (Serial.run object threads.process threads.objects order).objects ∧
      ∀ thread ∈ schedule, (threads.run object schedule).result thread =
        (Serial.run object threads.process threads.objects order).results thread := by
  obtain ⟨order, nodup, members, ahead⟩ := exists_ahead exclusive
  refine ⟨order, nodup, members, ?_, ?_⟩
  · funext key
    exact ahead.settled key fun thread member _ => finished thread member
  · intro thread member
    rw [ahead.results thread member]
    have done := finished thread member
    unfold result at done ⊢
    cases running : (threads.run object schedule).process thread with
    | done result => rfl
    | act update next =>
        rw [running] at done
        cases done

end Threads

end Threads

end Cosaci.Foundation
