import Cosaci.State.StakeLedger

/-!
# Accounting for slashed stake

`slash_minority` reads the ledger that it changes, so an attestation that repeats a
runner slashes what an earlier one has left.  Every run of it is a sequence of single
slashes of enrolled runners, and the frame, the chain of each runner's events and the
conservation of stake are read off that sequence.
-/

namespace Cosaci.State

open Foundation Cosaci.Core

namespace StakeLedger

/-! ## One slash -/

section Slash

variable (ledger : StakeLedger) (runner : RunnerId) (amount : Weight)

theorem runnerId_slash : (ledger.slash runner amount).1.runnerId = runner :=
  rfl

theorem stakeOf_slash_self :
    (ledger.slash runner amount).2.stakeOf runner = (ledger.slash runner amount).1.stakeAfter := by
  rw [slash, stakeOf, weightOf_insert, if_pos rfl]

theorem stakeOf_slash_of_ne {other : RunnerId} (differs : other ≠ runner) :
    (ledger.slash runner amount).2.stakeOf other = ledger.stakeOf other :=
  stakeOf_insert_of_ne differs

/-- What is taken and what is left make up the stake before. -/
theorem slash_balance :
    (ledger.slash runner amount).1.slashed.toNat +
      (ledger.slash runner amount).1.stakeAfter.toNat = (ledger.stakeOf runner).toNat := by
  have less : saturatingSub (ledger.stakeOf runner) amount ≤ ledger.stakeOf runner := by
    rw [UInt64.le_iff_toNat_le, toNat_saturatingSub]
    exact Nat.sub_le _ _
  simp only [slash]
  rw [UInt64.toNat_sub_of_le _ _ less]
  exact Nat.sub_add_cancel (UInt64.le_iff_toNat_le.mp less)

variable {runner}

/-- The stake of an enrolled runner is part of the total. -/
theorem totalStake_insert (enrolled : runner ∈ ledger.stakes) (stake : Weight) :
    totalStake (ledger.stakes.insert runner stake) + (ledger.stakeOf runner).toNat =
      totalStake ledger.stakes + stake.toNat := by
  have listed : runner ∈ ledger.stakes.keys.toFinset := by
    rw [List.mem_toFinset, ← AList.mem_keys]
    exact enrolled
  have sameKeys : (AList.insert runner stake ledger.stakes).keys.toFinset =
      ledger.stakes.keys.toFinset := by
    ext other
    rw [List.mem_toFinset, List.mem_toFinset, ← AList.mem_keys, ← AList.mem_keys,
      AList.mem_insert]
    constructor
    · rintro (rfl | known)
      · exact enrolled
      · exact known
    · exact Or.inr
  have changed := weightOn_add_of_eq_off (fun other => (weightOf ledger.stakes other).toNat)
    (fun other => (weightOf (ledger.stakes.insert runner stake) other).toNat) listed (by
      intro other differs
      rw [weightOf_insert, if_neg differs])
  rw [totalStake_eq_stakeOn, totalStake_eq_stakeOn, sameKeys]
  rw [weightOf_insert, if_pos rfl] at changed
  exact changed

theorem totalStake_slash (enrolled : runner ∈ ledger.stakes) :
    (ledger.slash runner amount).1.slashed.toNat +
      totalStake (ledger.slash runner amount).2.stakes = totalStake ledger.stakes := by
  have balance := slash_balance ledger runner amount
  have total := totalStake_insert ledger enrolled (ledger.slash runner amount).1.stakeAfter
  change _ + totalStake (ledger.stakes.insert runner
    (ledger.slash runner amount).1.stakeAfter) = _
  omega

end Slash

/-! ## Sequences of slashes -/

/-- The second ledger is reached from the first by slashing enrolled runners, which gives
these events. -/
inductive Slashes : StakeLedger → List SlashEvent → StakeLedger → Prop where
  | done (ledger : StakeLedger) : Slashes ledger [] ledger
  | slash {ledger settled : StakeLedger} {events : List SlashEvent} {runner : RunnerId}
      (amount : Weight) (enrolled : runner ∈ ledger.stakes)
      (rest : Slashes (ledger.slash runner amount).2 events settled) :
      Slashes ledger ((ledger.slash runner amount).1 :: events) settled

/-- Every run of the loop is such a sequence. -/
theorem slashes_slashMinority (policy : SlashPolicy) (consensusArtifact : Hash)
    (attestations : List Attestation) (ledger : StakeLedger) :
    Slashes ledger (slashMinority policy consensusArtifact attestations ledger).1
      (slashMinority policy consensusArtifact attestations ledger).2 := by
  fun_induction slashMinority policy consensusArtifact attestations ledger with
  | case1 ledger => exact Slashes.done ledger
  | case2 attestation rest ledger agrees ih => exact ih
  | case3 attestation rest ledger differs unknown ih => exact ih
  | case4 attestation rest ledger differs known amount nothing ih => exact ih
  | case5 attestation rest ledger differs known amount something event ledger' slashed
      events ledger'' later ih =>
      rw [later] at ih
      cases slashed
      exact Slashes.slash amount (not_not.mp known) ih

/-- Consecutive events, each of which starts at the stake that the one before it left. -/
def Chained (stake : Weight) : List SlashEvent → Weight → Prop
  | [], final => final = stake
  | event :: rest, final => event.stakeBefore = stake ∧ Chained event.stakeAfter rest final

/-- The events of one runner. -/
def eventsOf (runner : RunnerId) (events : List SlashEvent) : List SlashEvent :=
  events.filter fun event => event.runnerId = runner

theorem eventsOf_cons (runner : RunnerId) (event : SlashEvent) (rest : List SlashEvent) :
    eventsOf runner (event :: rest) =
      if event.runnerId = runner then event :: eventsOf runner rest
      else eventsOf runner rest := by
  simp only [eventsOf, List.filter_cons, decide_eq_true_eq]

section Accounts

variable {ledger settled : StakeLedger} {events : List SlashEvent}

theorem Slashes.chained (slashes : Slashes ledger events settled) (runner : RunnerId) :
    Chained (ledger.stakeOf runner) (eventsOf runner events) (settled.stakeOf runner) := by
  induction slashes with
  | done ledger => rfl
  | @slash ledger settled events other amount enrolled rest ih =>
      by_cases same : other = runner
      · subst same
        rw [stakeOf_slash_self] at ih
        rw [eventsOf_cons, runnerId_slash, if_pos rfl]
        exact ⟨rfl, ih⟩
      · rw [stakeOf_slash_of_ne ledger other amount (Ne.symm same)] at ih
        rw [eventsOf_cons, runnerId_slash, if_neg same]
        exact ih

theorem Slashes.stakeOf_le (slashes : Slashes ledger events settled) (runner : RunnerId) :
    settled.stakeOf runner ≤ ledger.stakeOf runner := by
  induction slashes with
  | done ledger => exact UInt64.le_refl _
  | @slash ledger settled events other amount enrolled rest ih =>
      by_cases same : other = runner
      · subst same
        rw [stakeOf_slash_self] at ih
        have balance := slash_balance ledger other amount
        rw [UInt64.le_iff_toNat_le] at ih ⊢
        omega
      · rw [stakeOf_slash_of_ne ledger other amount (Ne.symm same)] at ih
        exact ih

/-- A stake that changed belongs to the runner of an event. -/
theorem Slashes.mem_of_stakeOf_ne (slashes : Slashes ledger events settled)
    {runner : RunnerId} (changed : settled.stakeOf runner ≠ ledger.stakeOf runner) :
    runner ∈ events.map SlashEvent.runnerId := by
  have chained := slashes.chained runner
  cases list : eventsOf runner events with
  | nil =>
      rw [list] at chained
      exact False.elim (changed chained)
  | cons event rest =>
      have member : event ∈ eventsOf runner events := by
        rw [list]
        exact List.mem_cons_self
      rw [eventsOf, List.mem_filter, decide_eq_true_eq] at member
      rw [List.mem_map]
      exact ⟨event, member⟩

theorem Slashes.conserved (slashes : Slashes ledger events settled) :
    (events.map fun event => event.slashed.toNat).sum + totalStake settled.stakes =
      totalStake ledger.stakes := by
  induction slashes with
  | done ledger => exact Nat.zero_add _
  | @slash ledger settled events runner amount enrolled rest ih =>
      have first := totalStake_slash ledger amount enrolled
      rw [List.map_cons, List.sum_cons]
      omega

end Accounts

/-- The effect of slashing on a ledger, with its events. -/
structure Accounted (consensusArtifact : Hash) (attestations : List Attestation)
    (ledger : StakeLedger) (events : List SlashEvent) (settled : StakeLedger) : Prop where
  framed : ∀ runner, settled.stakeOf runner ≠ ledger.stakeOf runner →
    runner ∈ ledger.stakes ∧ Diverges consensusArtifact attestations runner
  enrolled : ∀ runner, runner ∈ settled.stakes ↔ runner ∈ ledger.stakes
  decreasing : ∀ runner, settled.stakeOf runner ≤ ledger.stakeOf runner
  chained : ∀ runner,
    Chained (ledger.stakeOf runner) (eventsOf runner events) (settled.stakeOf runner)
  conserved : (events.map fun event => event.slashed.toNat).sum + totalStake settled.stakes =
    totalStake ledger.stakes

/-- Whatever a fraction takes from a stake, only enrolled runners named by a divergent
attestation lose stake, each through a chain of events, and the events add up to what
the whole ledger lost. -/
theorem slashMinority_accounted (policy : SlashPolicy) (consensusArtifact : Hash)
    (attestations : List Attestation) (ledger : StakeLedger) :
    Accounted consensusArtifact attestations ledger
      (slashMinority policy consensusArtifact attestations ledger).1
      (slashMinority policy consensusArtifact attestations ledger).2 := by
  have slashes := slashes_slashMinority policy consensusArtifact attestations ledger
  constructor
  · intro runner changed
    rcases mem_slashed_iff.mp (slashes.mem_of_stakeOf_ne changed) with ⟨diverges, enrolled, -⟩
    exact ⟨enrolled, diverges⟩
  · intro runner
    exact mem_stakes_slashMinority
  · exact slashes.stakeOf_le
  · exact slashes.chained
  · exact slashes.conserved

end StakeLedger

end Cosaci.State
