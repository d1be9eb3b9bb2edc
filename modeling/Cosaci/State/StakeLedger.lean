import Cosaci.Core.Attestation

/-!
# The stake ledger

Stakes after registration and slashing.  A slashing fraction is a floating-point
number; the ledger uses it only through the amount it takes from a stake, which
is a parameter here.
-/

namespace Cosaci.State

open Foundation Cosaci.Core

/-- What the coordinator uses of the configured slashing fraction. -/
structure SlashPolicy where
  /-- Whether the fraction is positive. -/
  enabled : Bool
  /-- The fraction of a stake, clamped to the whole stake and rounded down. -/
  amount : Weight → Weight

/-- One slashing. -/
structure SlashEvent where
  runnerId : RunnerId
  stakeBefore : Weight
  stakeAfter : Weight
  slashed : Weight
  deriving DecidableEq, Repr

/-- Current stakes. -/
structure StakeLedger where
  stakes : StakeMap

namespace StakeLedger

def fromStakeMap (stakes : StakeMap) : StakeLedger :=
  ⟨stakes⟩

def stakeOf (ledger : StakeLedger) (runner : RunnerId) : Weight :=
  weightOf ledger.stakes runner

def asStakeMap (ledger : StakeLedger) : StakeMap :=
  ledger.stakes

/-- Slash one runner, saturating at zero. -/
def slash (ledger : StakeLedger) (runner : RunnerId) (amount : Weight) :
    SlashEvent × StakeLedger :=
  let before := ledger.stakeOf runner
  let after := saturatingSub before amount
  (⟨runner, before, after, before - after⟩, ⟨ledger.stakes.insert runner after⟩)

/-- Slash every runner whose attestation diverges from the consensus artifact, in
the order of the attestations. -/
def slashMinority (policy : SlashPolicy) (consensusArtifact : Hash) :
    List Attestation → StakeLedger → List SlashEvent × StakeLedger
  | [], ledger => ([], ledger)
  | attestation :: rest, ledger =>
      if attestation.artifactHash = consensusArtifact then
        slashMinority policy consensusArtifact rest ledger
      else if attestation.runnerId ∉ ledger.stakes then
        slashMinority policy consensusArtifact rest ledger
      else
        let amount := policy.amount (ledger.stakeOf attestation.runnerId)
        if amount = 0 then
          slashMinority policy consensusArtifact rest ledger
        else
          let (event, ledger) := ledger.slash attestation.runnerId amount
          let (events, ledger) := slashMinority policy consensusArtifact rest ledger
          (event :: events, ledger)

/-- Slashing as the coordinator performs it: not at all for a fraction of zero. -/
def settle (policy : SlashPolicy) (consensusArtifact : Hash) (attestations : List Attestation)
    (ledger : StakeLedger) : List SlashEvent × StakeLedger :=
  if policy.enabled then
    slashMinority policy consensusArtifact attestations ledger
  else
    ([], ledger)

/-- Some attestation in the list bears the runner's name and diverges. -/
def Diverges (consensusArtifact : Hash) (attestations : List Attestation)
    (runner : RunnerId) : Prop :=
  ∃ attestation ∈ attestations,
    attestation.runnerId = runner ∧ attestation.artifactHash ≠ consensusArtifact

variable {policy : SlashPolicy} {consensusArtifact : Hash}

variable {attestation : Attestation} {rest : List Attestation} {runner : RunnerId}
  {attestations : List Attestation} {ledger : StakeLedger}

private theorem Diverges.later (diverges : Diverges consensusArtifact rest runner) :
    Diverges consensusArtifact (attestation :: rest) runner := by
  rcases diverges with ⟨other, member, named, differs⟩
  exact ⟨other, List.mem_cons_of_mem _ member, named, differs⟩

/-- Only runners named by a divergent attestation are slashed. -/
theorem diverges_of_mem_events {event : SlashEvent}
    (member : event ∈ (slashMinority policy consensusArtifact attestations ledger).1) :
    Diverges consensusArtifact attestations event.runnerId := by
  fun_induction slashMinority policy consensusArtifact attestations ledger with
  | case1 => cases member
  | case2 attestation rest ledger agrees ih => exact (ih member).later
  | case3 attestation rest ledger differs unknown ih => exact (ih member).later
  | case4 attestation rest ledger differs known amount nothing ih =>
      exact (ih member).later
  | case5 attestation rest ledger differs known amount something event' ledger' slashed
      events ledger'' later ih =>
      rw [later] at ih
      rcases List.mem_cons.mp member with rfl | member
      · cases slashed
        exact ⟨attestation, List.mem_cons_self, rfl, differs⟩
      · exact (ih member).later

theorem diverges_of_mem_settle {event : SlashEvent}
    (member : event ∈ (settle policy consensusArtifact attestations ledger).1) :
    Diverges consensusArtifact attestations event.runnerId := by
  unfold settle at member
  split at member
  · exact diverges_of_mem_events member
  · cases member

theorem stakeOf_insert_of_ne {runner other : RunnerId} {stake : Weight} (differs : runner ≠ other) :
    (StakeLedger.mk (ledger.stakes.insert other stake)).stakeOf runner =
      ledger.stakeOf runner := by
  rw [stakeOf, weightOf_insert, if_neg differs, stakeOf]

private theorem diverges_cons :
    Diverges consensusArtifact (attestation :: rest) runner ↔
      attestation.runnerId = runner ∧ attestation.artifactHash ≠ consensusArtifact ∨
        Diverges consensusArtifact rest runner := by
  simp only [Diverges, List.mem_cons, exists_eq_or_imp]

/-- An attestation that takes no stake does not count. -/
private theorem slashed_cons_of_spared (spared : ¬(attestation.runnerId ∈ ledger.stakes ∧
      policy.amount (ledger.stakeOf attestation.runnerId) ≠ 0)) :
    Diverges consensusArtifact rest runner ∧ runner ∈ ledger.stakes ∧
        policy.amount (ledger.stakeOf runner) ≠ 0 ↔
      Diverges consensusArtifact (attestation :: rest) runner ∧ runner ∈ ledger.stakes ∧
        policy.amount (ledger.stakeOf runner) ≠ 0 := by
  rw [diverges_cons]
  constructor
  · rintro ⟨diverges, taken⟩
    exact ⟨Or.inr diverges, taken⟩
  · rintro ⟨⟨rfl, -⟩ | diverges, taken⟩
    · exact False.elim (spared taken)
    · exact ⟨diverges, taken⟩

/-- The runners that are slashed: those named by a divergent attestation that have a
stake from which the fraction takes something.  A second attestation in the name of a
slashed runner slashes it again. -/
theorem mem_slashed_iff :
    runner ∈ (slashMinority policy consensusArtifact attestations ledger).1.map
        SlashEvent.runnerId ↔
      Diverges consensusArtifact attestations runner ∧ runner ∈ ledger.stakes ∧
        policy.amount (ledger.stakeOf runner) ≠ 0 := by
  fun_induction slashMinority policy consensusArtifact attestations ledger with
  | case1 ledger => simp [Diverges]
  | case2 attestation rest ledger agrees ih =>
      rw [ih, diverges_cons]
      simp [agrees]
  | case3 attestation rest ledger differs unknown ih =>
      rw [ih]
      exact slashed_cons_of_spared fun taken => unknown taken.1
  | case4 attestation rest ledger differs known amount nothing ih =>
      rw [ih]
      exact slashed_cons_of_spared fun taken => taken.2 nothing
  | case5 attestation rest ledger differs known amount something event ledger' slashed
      events ledger'' later ih =>
      rw [later] at ih
      cases slashed
      rw [List.map_cons, List.mem_cons, diverges_cons, ih]
      by_cases same : runner = attestation.runnerId
      · subst same
        constructor
        · intro _
          exact ⟨Or.inl ⟨rfl, differs⟩, not_not.mp known, something⟩
        · intro _
          exact Or.inl rfl
      · have other : ¬attestation.runnerId = runner := fun equal => same equal.symm
        rw [stakeOf_insert_of_ne same]
        simp only [same, other, false_and, false_or, AList.mem_insert]

/-- Slashing neither adds nor removes stake entries. -/
theorem mem_stakes_slashMinority :
    runner ∈ (slashMinority policy consensusArtifact attestations ledger).2.stakes ↔
      runner ∈ ledger.stakes := by
  fun_induction slashMinority policy consensusArtifact attestations ledger with
  | case1 => rfl
  | case2 attestation rest ledger agrees ih => exact ih
  | case3 attestation rest ledger differs unknown ih => exact ih
  | case4 attestation rest ledger differs known amount nothing ih => exact ih
  | case5 attestation rest ledger differs known amount something event ledger' slashed
      events ledger'' later ih =>
      rw [later] at ih
      cases slashed
      rw [ih, AList.mem_insert]
      constructor
      · rintro (rfl | listed)
        · exact not_not.mp known
        · exact listed
      · exact Or.inr

theorem mem_stakes_settle :
    runner ∈ (settle policy consensusArtifact attestations ledger).2.stakes ↔
      runner ∈ ledger.stakes := by
  unfold settle
  split
  · exact mem_stakes_slashMinority
  · rfl

end StakeLedger

end Cosaci.State
