import Cosaci.Foundation.Process

/-!
# Threads that change nothing

A process is silent if none of its steps changes the state.  Silent threads cannot be
noticed: the others do the same in every interleaving without them.
-/

namespace Cosaci.Foundation

namespace Process

variable {σ τ α β : Type}

/-- No step changes the state. -/
def Silent : Process σ α → Prop
  | .done _ => True
  | .act update next => (∀ state, update state = state) ∧ ∀ state, (next state).Silent

theorem silent_pure (result : α) : (pure result : Process σ α).Silent :=
  trivial

theorem silent_look (observe : σ → α) : (look observe).Silent :=
  ⟨fun _ => rfl, fun _ => trivial⟩

theorem Silent.bind {process : Process σ α} {rest : α → Process σ β} (silent : process.Silent)
    (others : ∀ result, (rest result).Silent) : (process >>= rest).Silent := by
  induction process with
  | done result => exact others result
  | act update next ih => exact ⟨silent.1, fun state => ih state (silent.2 state)⟩

/-- A process on a part of the state. -/
def within (get : σ → τ) (set : τ → σ → σ) : Process τ α → Process σ α
  | .done result => .done result
  | .act update next =>
      .act (fun state => set (update (get state)) state) fun state =>
        (next (get state)).within get set

theorem Silent.within {get : σ → τ} {set : τ → σ → σ}
    (unchanged : ∀ state, set (get state) state = state) {process : Process τ α}
    (silent : process.Silent) : (process.within get set).Silent := by
  induction process with
  | done result => trivial
  | act update next ih =>
      refine ⟨fun state => ?_, fun state => ih (get state) (silent.2 (get state))⟩
      dsimp only
      rw [silent.1, unchanged]

end Process

namespace Threads

variable {ι κ τ ρ : Type} [DecidableEq ι] [DecidableEq κ] {object : ι → κ}

/-- The same objects and the same threads, apart from silent ones that are left out. -/
structure Unnoticed (keep : ι → Bool) (threads others : Threads ι κ τ ρ) : Prop where
  objects : threads.objects = others.objects
  process : ∀ thread, keep thread = true → threads.process thread = others.process thread
  silent : ∀ thread, keep thread = false → (threads.process thread).Silent

variable {keep : ι → Bool} {thread : ι} {threads others : Threads ι κ τ ρ}

/-- A step of a silent thread. -/
theorem Unnoticed.step_silent (unnoticed : Unnoticed keep threads others)
    (left : keep thread = false) : Unnoticed keep (threads.step object thread) others := by
  have silent := unnoticed.silent thread left
  rw [step]
  cases running : threads.process thread with
  | done result => exact unnoticed
  | act update next =>
      rw [running] at silent
      refine ⟨?_, ?_, ?_⟩
      · dsimp only
        rw [silent.1, Function.update_eq_self]
        exact unnoticed.objects
      · intro other kept
        have differs : other ≠ thread := by
          rintro rfl
          rw [left] at kept
          cases kept
        exact (Function.update_of_ne differs _ _).trans (unnoticed.process other kept)
      · intro other dropped
        dsimp only
        by_cases same : other = thread
        · subst same
          rw [Function.update_self]
          exact silent.2 _
        · rw [Function.update_of_ne same]
          exact unnoticed.silent other dropped

/-- A step of another thread. -/
theorem Unnoticed.step_kept (unnoticed : Unnoticed keep threads others)
    (kept : keep thread = true) :
    Unnoticed keep (threads.step object thread) (others.step object thread) := by
  have same := unnoticed.process thread kept
  rw [step, step, ← same]
  cases running : threads.process thread with
  | done result => exact unnoticed
  | act update next =>
      refine ⟨?_, ?_, ?_⟩
      · dsimp only
        rw [unnoticed.objects]
      · intro other keeps
        dsimp only
        rw [Function.update_apply, Function.update_apply, unnoticed.objects,
          unnoticed.process other keeps]
      · intro other dropped
        have differs : other ≠ thread := by
          rintro rfl
          rw [kept] at dropped
          cases dropped
        dsimp only
        rw [Function.update_of_ne differs]
        exact unnoticed.silent other dropped

/-- Silent threads can be left out of every interleaving. -/
theorem Unnoticed.run (unnoticed : Unnoticed keep threads others) (object : ι → κ)
    (schedule : List ι) :
    Unnoticed keep (threads.run object schedule) (others.run object (schedule.filter keep)) := by
  induction schedule generalizing threads others with
  | nil => exact unnoticed
  | cons thread rest ih =>
      cases kept : keep thread with
      | true =>
          rw [List.filter_cons_of_pos kept]
          exact ih (unnoticed.step_kept kept)
      | false =>
          rw [List.filter_cons_of_neg (by simp [kept])]
          exact ih (unnoticed.step_silent kept)

/-- A thread that is done stays so. -/
theorem result_run_of_done {threads : Threads ι κ τ ρ} {result : ρ}
    (done : threads.process thread = .done result) (schedule : List ι) :
    (threads.run object schedule).result thread = some result := by
  have still : (threads.run object schedule).process thread = .done result := by
    induction schedule generalizing threads with
    | nil => exact done
    | cons next rest ih =>
        apply ih
        by_cases same : thread = next
        · subst same
          rw [step, done]
          exact done
        · rw [process_step_of_ne same]
          exact done
  rw [Threads.result, still]
  rfl

omit [DecidableEq ι] [DecidableEq κ] in
theorem unnoticed_self {threads : Threads ι κ τ ρ}
    (silent : ∀ thread, keep thread = false → (threads.process thread).Silent) :
    Unnoticed keep threads threads :=
  ⟨rfl, fun _ _ => rfl, silent⟩

end Threads

end Cosaci.Foundation
