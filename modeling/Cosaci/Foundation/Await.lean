import Mathlib.Order.Basic
import Mathlib.Tactic

/-!
# Waiting

A loop that asks one question after the other may wait forever.  Bounded by the number of
its questions it is a function, and what it does without the bound is what it does with
every bound that is large enough.
-/

namespace Cosaci.Foundation

variable {α β : Type}

/-! ## Questions -/

/-- The first answer to the questions from a given one on, if it comes within the bound. -/
def await (answer : Nat → Option α) : Nat → Nat → Option α
  | 0, _ => none
  | fuel + 1, round =>
      match answer round with
      | some result => some result
      | none => await answer fuel (round + 1)

/-- The first question that is answered, and its answer. -/
structure Answers (answer : Nat → Option α) (round : Nat) (result : α) : Prop where
  answered : answer round = some result
  unanswered : ∀ earlier < round, answer earlier = none

variable {answer : Nat → Option α} {round : Nat} {result : α}

/-- Once a question is answered, there is a first one. -/
theorem exists_answers {latest : Nat} (answered : (answer latest).isSome) :
    ∃ round ≤ latest, ∃ result, Answers answer round result := by
  have some : ∃ round, (answer round).isSome := ⟨latest, answered⟩
  obtain ⟨result, first⟩ := Option.isSome_iff_exists.mp (Nat.find_spec some)
  refine ⟨Nat.find some, Nat.find_le answered, result, first, fun earlier before => ?_⟩
  exact Option.not_isSome_iff_eq_none.mp (Nat.find_min some before)

/-- Induction on the bound: the loop passes over what is not answered. -/
theorem await_eq_some_iff {fuel start : Nat} :
    await answer fuel start = some result ↔
      ∃ round, start ≤ round ∧ round < start + fuel ∧ answer round = some result ∧
        ∀ earlier, start ≤ earlier → earlier < round → answer earlier = none := by
  induction fuel generalizing start with
  | zero =>
      refine ⟨nofun, ?_⟩
      rintro ⟨round, from_start, within, -⟩
      omega
  | succ fuel ih =>
      rw [await]
      cases now : answer start with
      | some value =>
          constructor
          · rintro ⟨⟩
            exact ⟨start, le_rfl, by omega, now, fun earlier => by omega⟩
          · rintro ⟨round, from_start, -, answered, before⟩
            rcases Nat.eq_or_lt_of_le from_start with rfl | later
            · exact now.symm.trans answered
            · rw [before start le_rfl later] at now
              cases now
      | none =>
          refine ih.trans (exists_congr fun round => ?_)
          constructor
          · rintro ⟨later, within, answered, before⟩
            refine ⟨by omega, by omega, answered, fun earlier from_start sooner => ?_⟩
            rcases Nat.eq_or_lt_of_le from_start with rfl | after
            · exact now
            · exact before earlier after sooner
          · rintro ⟨from_start, within, answered, before⟩
            have other : start ≠ round := by
              rintro rfl
              rw [answered] at now
              cases now
            exact ⟨by omega, by omega, answered, fun earlier after => before earlier (by omega)⟩

theorem await_eq_some {fuel : Nat} :
    await answer fuel 0 = some result ↔ ∃ round < fuel, Answers answer round result := by
  rw [await_eq_some_iff]
  constructor
  · rintro ⟨round, -, within, answered, before⟩
    exact ⟨round, by omega, answered, fun earlier => before earlier (Nat.zero_le earlier)⟩
  · rintro ⟨round, within, answered, before⟩
    exact ⟨round, Nat.zero_le round, by omega, answered, fun earlier _ => before earlier⟩

/-! ## Results of bounded computations -/

/-- The result of a computation that is given enough time. -/
def Returns (compute : Nat → Option α) (result : α) : Prop :=
  ∃ enough, ∀ fuel ≥ enough, compute fuel = some result

namespace Returns

variable {compute : Nat → Option α}

theorem of_forall (always : ∀ fuel, compute fuel = some result) : Returns compute result :=
  ⟨0, fun fuel _ => always fuel⟩

/-- One computation after the other, within one bound. -/
theorem bind {value : β} (first : Returns compute result) (next : α → Nat → Option β)
    (later : Returns (next result) value) :
    Returns (fun fuel => (compute fuel).bind (next · fuel)) value := by
  obtain ⟨enough, bound⟩ := first
  obtain ⟨enough', bound'⟩ := later
  refine ⟨max enough enough', fun fuel large => ?_⟩
  dsimp only
  rw [bound fuel (le_of_max_le_left large), Option.bind_some]
  exact bound' fuel (le_of_max_le_right large)

theorem map (convert : α → β) (returns : Returns compute result) :
    Returns (fun fuel => (compute fuel).map convert) (convert result) := by
  obtain ⟨enough, bound⟩ := returns
  refine ⟨enough, fun fuel large => ?_⟩
  dsimp only
  rw [bound fuel large, Option.map_some]

theorem congr {other : Nat → Option α} (same : ∀ fuel, compute fuel = other fuel)
    (returns : Returns compute result) : Returns other result := by
  have equal : compute = other := funext same
  rwa [equal] at returns

end Returns

/-! ## Computations that keep their results -/

/-- More time does not change a result. -/
def Stable (compute : Nat → Option α) : Prop :=
  ∀ fuel more, fuel ≤ more → ∀ result, compute fuel = some result → compute more = some result

namespace Stable

variable {compute : Nat → Option α}

theorem returns_iff (stable : Stable compute) :
    Returns compute result ↔ ∃ fuel, compute fuel = some result := by
  constructor
  · rintro ⟨enough, bound⟩
    exact ⟨enough, bound enough le_rfl⟩
  · rintro ⟨fuel, done⟩
    exact ⟨fuel, fun more large => stable fuel more large result done⟩

theorem const (value : Option α) : Stable fun _ => value :=
  fun _ _ _ _ done => done

theorem bind {next : α → Nat → Option β} (first : Stable compute)
    (later : ∀ value, Stable (next value)) :
    Stable fun fuel => (compute fuel).bind (next · fuel) := by
  intro fuel more large result done
  obtain ⟨value, computed, rested⟩ := Option.bind_eq_some_iff.mp done
  dsimp only
  rw [first fuel more large value computed]
  exact later value fuel more large result rested

theorem map (convert : α → β) (stable : Stable compute) :
    Stable fun fuel => (compute fuel).map convert := by
  intro fuel more large result done
  obtain ⟨value, computed, same⟩ := Option.map_eq_some_iff.mp done
  dsimp only
  rw [stable fuel more large value computed, ← same]
  rfl

end Stable

theorem stable_await (answer : Nat → Option α) : Stable fun fuel => await answer fuel 0 := by
  intro fuel more large result done
  obtain ⟨round, within, answers⟩ := await_eq_some.mp done
  exact await_eq_some.mpr ⟨round, within.trans_le large, answers⟩

theorem Answers.returns (answers : Answers answer round result) :
    Returns (fun fuel => await answer fuel 0) result :=
  ⟨round + 1, fun _ large => await_eq_some.mpr ⟨round, large, answers⟩⟩

end Cosaci.Foundation
