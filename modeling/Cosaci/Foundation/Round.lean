import Mathlib.Tactic

/-!
# Rounds over a list of parties

A round performs one operation with every party of a list, in order.  A strict
round stops at the first party whose operation fails and leaves the later ones
alone; a tolerant round goes through all of them.
-/

namespace Cosaci.Foundation

variable {α β ε : Type}

/-- Perform an operation with each party until one fails. -/
def strictRound (operation : α → Except ε β × α) : List α → Except ε (List β) × List α
  | [] => (.ok [], [])
  | party :: rest =>
      match operation party with
      | (.error error, party) => (.error error, party :: rest)
      | (.ok result, party) =>
          match strictRound operation rest with
          | (.error error, rest) => (.error error, party :: rest)
          | (.ok results, rest) => (.ok (result :: results), party :: rest)

/-- Perform an operation with each party. -/
def tolerantRound (operation : α → β × α) (parties : List α) : List β × List α :=
  (parties.map fun party => (operation party).1, parties.map fun party => (operation party).2)

variable {operation : α → Except ε β × α}

variable {parties : List α} {results : List β}

/-- A strict round succeeds exactly when every operation does, and then returns
their results. -/
theorem strictRound_eq_ok_iff :
    (strictRound operation parties).1 = .ok results ↔
      parties.map (fun party => (operation party).1) = results.map .ok := by
  induction parties generalizing results with
  | nil => cases results <;> simp [strictRound]
  | cons party rest ih =>
      rw [strictRound]
      split
      · next failed => cases results <;> simp [failed]
      · next result after done =>
          split
          · next failed =>
              have stuck : ∀ later : List β, ¬rest.map (fun party => (operation party).1) =
                  later.map .ok := by
                intro later equal
                have succeeded := ih.mpr equal
                rw [failed] at succeeded
                cases succeeded
              cases results with
              | nil => simp
              | cons head tail => simp [stuck]
          · next later _ finished =>
              have known : rest.map (fun party => (operation party).1) = later.map .ok :=
                ih.mp (by rw [finished])
              cases results with
              | nil => simp
              | cons head tail =>
                  have injective : Function.Injective (Except.ok : β → Except ε β) :=
                    fun _ _ => Except.ok.inj
                  simp [done, known, (List.map_injective_iff.mpr injective).eq_iff]

/-- After a successful strict round every party has taken its step. -/
theorem strictRound_snd (succeeded : (strictRound operation parties).1 = .ok results) :
    (strictRound operation parties).2 = parties.map fun party => (operation party).2 := by
  induction parties generalizing results with
  | nil => rfl
  | cons party rest ih =>
      rw [strictRound] at succeeded ⊢
      split at succeeded
      · cases succeeded
      · next result after done =>
          split at succeeded
          · cases succeeded
          · next later others finished =>
              have moved := @ih later (by rw [finished])
              rw [finished] at moved
              rw [List.map_cons, done]
              exact congrArg (after :: ·) moved

theorem strictRound_eq_iff {parties after : List α} :
    strictRound operation parties = (.ok results, after) ↔
      parties.map (fun party => (operation party).1) = results.map .ok ∧
        after = parties.map fun party => (operation party).2 := by
  constructor
  · intro equal
    have succeeded : (strictRound operation parties).1 = .ok results := by rw [equal]
    refine ⟨strictRound_eq_ok_iff.mp succeeded, ?_⟩
    rw [← strictRound_snd succeeded, equal]
  · rintro ⟨all, rfl⟩
    have succeeded := strictRound_eq_ok_iff.mpr all
    exact Prod.ext succeeded (strictRound_snd succeeded)

/-- No operation fails exactly when there is a list of their results. -/
theorem exists_map_ok_iff {attempt : α → Except ε β} :
    (∃ results : List β, parties.map attempt = results.map .ok) ↔
      ∀ party ∈ parties, ∃ result, attempt party = .ok result := by
  have image := Set.ext_iff.mp (Set.range_list_map (Except.ok : β → Except ε β))
    (parties.map attempt)
  simpa only [Set.mem_range, Set.mem_ofPred_eq, List.forall_mem_map, eq_comm] using image

/-- A strict round goes through exactly when no operation fails. -/
theorem exists_strictRound_eq_iff {parties after : List α} :
    (∃ results, strictRound operation parties = (.ok results, after)) ↔
      (∀ party ∈ parties, ∃ result, (operation party).1 = .ok result) ∧
        after = parties.map fun party => (operation party).2 := by
  simp only [strictRound_eq_iff, exists_and_right, exists_map_ok_iff]

/-- What every operation leaves alone, the round leaves alone. -/
theorem map_strictRound_snd {γ : Type} {read : α → γ}
    (kept : ∀ party, read (operation party).2 = read party) (parties : List α) :
    (strictRound operation parties).2.map read = parties.map read := by
  induction parties with
  | nil => rfl
  | cons party rest ih =>
      have here := kept party
      rw [strictRound]
      split
      · next failed =>
          rw [failed] at here
          exact congrArg (· :: rest.map read) here
      · next done =>
          rw [done] at here
          split
          · next failed =>
              rw [failed] at ih
              exact congrArg₂ List.cons here ih
          · next finished =>
              rw [finished] at ih
              exact congrArg₂ List.cons here ih

/-- The results of the operations that a strict round performs, the failing one
included. -/
def performed (operation : α → Except ε β × α) : List α → List (Except ε β)
  | [] => []
  | party :: rest =>
      match (operation party).1 with
      | .error error => [.error error]
      | .ok result => .ok result :: performed operation rest

/-- The parties that were reached have taken their step, the others have not. -/
theorem getElem?_strictRound_snd (operation : α → Except ε β × α) (parties : List α)
    (index : Nat) :
    (strictRound operation parties).2[index]? = parties[index]?.map fun party =>
      if index < (performed operation parties).length then (operation party).2 else party := by
  induction parties generalizing index with
  | nil => rfl
  | cons party rest ih =>
      rw [strictRound, performed]
      cases index with
      | zero =>
          split
          · next failed => simp [failed]
          · next done => split <;> simp [done]
      | succ index =>
          have later := ih index
          split
          · next failed => simp [failed]
          · next done =>
              split
              · next failed =>
                  rw [failed] at later
                  simpa [done] using later
              · next finished =>
                  rw [finished] at later
                  simpa [done] using later

/-- A performed operation is the one of its party. -/
theorem getElem?_of_performed {index : Nat} {result : Except ε β}
    (reached : (performed operation parties)[index]? = some result) :
    ∃ party, parties[index]? = some party ∧ (operation party).1 = result := by
  induction parties generalizing index with
  | nil => cases reached
  | cons party rest ih =>
      rw [performed] at reached
      cases index with
      | zero =>
          refine ⟨party, rfl, ?_⟩
          split at reached <;> next done =>
            rw [done]
            exact Option.some.inj reached
      | succ index =>
          split at reached
          · cases reached
          · exact ih reached

/-- When no operation fails, all are performed. -/
theorem performed_of_forall_ok
    (all : ∀ party ∈ parties, ∃ result, (operation party).1 = .ok result) :
    performed operation parties = parties.map fun party => (operation party).1 := by
  induction parties with
  | nil => rfl
  | cons party rest ih =>
      rcases all party List.mem_cons_self with ⟨result, done⟩
      have others := ih fun other member => all other (List.mem_cons_of_mem _ member)
      rw [performed, List.map_cons, ← others, done]

/-- Judging the results does not change who is reached. -/
theorem length_performed_map {γ : Type} (judge : α → β → γ) (parties : List α) :
    (performed (fun party => ((operation party).1.map (judge party), (operation party).2))
      parties).length = (performed operation parties).length := by
  induction parties with
  | nil => rfl
  | cons party rest ih =>
      rw [performed, performed]
      cases (operation party).1 with
      | error error => rfl
      | ok result => exact congrArg Nat.succ ih

end Cosaci.Foundation
