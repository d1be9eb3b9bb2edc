import Cosaci.Coordinator.Anchoring

/-!
# The verdict of a job

A job decides its outcome, the artifact it anchors and the runners it slashes.  The
attestations arrive in the order of the connections, and the artifacts are counted in a
hash map.  The outcome depends on neither order.  The artifact does as soon as two
artifacts share the highest count, and with it the set of slashed runners.
-/

namespace Cosaci.Coordinator

open Foundation Cosaci.Core State

@[ext] structure Verdict where
  outcome : Outcome
  consensusArtifact : Hash
  slashed : Finset RunnerId
  deriving DecidableEq

def JobReport.verdict (report : JobReport) : Verdict where
  outcome := report.outcome
  consensusArtifact := report.consensusArtifact
  slashed := (report.slashEvents.map SlashEvent.runnerId).toFinset

/-- Neither the order of the attestations nor the iteration order of the counting map
changes the verdict. -/
def OrderIndependent (job : JobCall) (committee : List RunnerId) (received : List Delivery)
    (ledger : StakeLedger) : Prop :=
  ∀ first second shuffled, List.Perm shuffled received →
    (reportOf first job committee shuffled ledger).verdict =
      (reportOf second job committee received ledger).verdict

/-- One artifact was attested more often than every other. -/
def HasLeader (attestations : List Attestation) : Prop :=
  ∃ leader, ∀ other ∈ attestations.map Attestation.artifactHash, other ≠ leader →
    headCount attestations other < headCount attestations leader

/-! ## The artifact -/

section Artifact

variable {attestations shuffled : List Attestation}

theorem headCount_eq_of_perm (perm : shuffled.Perm attestations) (artifact : Hash) :
    headCount shuffled artifact = headCount attestations artifact := by
  rw [headCount, headCount, (perm.map Attestation.artifactHash).count_eq]

/-- A leader is chosen in every order. -/
theorem consensusArtifact_eq_leader {leader : Hash} (nonempty : attestations ≠ [])
    (leads : ∀ other ∈ attestations.map Attestation.artifactHash, other ≠ leader →
      headCount attestations other < headCount attestations leader)
    (order : IterationOrder Hash UInt32) : consensusArtifact order attestations = leader := by
  rcases consensusArtifact_spec order nonempty with ⟨attested, maximal⟩
  by_contra differs
  have fewer := UInt32.lt_iff_toNat_lt.mp (leads _ attested differs)
  have counted : leader ∈ attestations.map Attestation.artifactHash := by
    by_contra unattested
    rw [headCount, headCount, List.count_eq_zero_of_not_mem unattested] at fewer
    exact absurd fewer (Nat.not_lt_zero _)
  exact absurd fewer (Nat.not_lt.mpr (maximal leader counted))

theorem consensusArtifact_nil (order : IterationOrder Hash UInt32) :
    consensusArtifact order [] = List.Vector.replicate 32 0 := by
  have nothing : order.visit (Table.histogram []) = [] := (order.perm _).eq_nil
  simp only [consensusArtifact, List.map_nil]
  rw [nothing]
  rfl

/-- If all iteration orders choose the same artifact, it leads. -/
theorem hasLeader_of_orders
    (same : ∀ first second, consensusArtifact first attestations =
      consensusArtifact second attestations) : HasLeader attestations := by
  refine ⟨consensusArtifact .stored attestations, ?_⟩
  intro other attested differs
  have nonempty : attestations ≠ [] := by
    rintro rfl
    cases attested
  rcases consensusArtifact_spec .stored nonempty with ⟨-, maximal⟩
  -- Otherwise the two are tied, and visited last the other one wins.
  by_contra tied
  rw [UInt32.lt_iff_toNat_lt, Nat.not_lt] at tied
  have chosen := consensusArtifact_lastly attested
    fun third listed => (maximal third listed).trans tied
  rw [same _ .stored] at chosen
  exact differs chosen.symm

/-- A leader is chosen from every permutation of the attestations. -/
theorem HasLeader.consensusArtifact_eq_of_perm (hasLeader : HasLeader attestations)
    (perm : shuffled.Perm attestations) (first second : IterationOrder Hash UInt32) :
    consensusArtifact first shuffled = consensusArtifact second attestations := by
  rcases hasLeader with ⟨leader, leads⟩
  by_cases empty : attestations = []
  · subst empty
    rw [perm.eq_nil, consensusArtifact_nil, consensusArtifact_nil]
  · have nonempty : shuffled ≠ [] := by
      rintro rfl
      exact empty perm.nil_eq.symm
    rw [consensusArtifact_eq_leader empty leads, consensusArtifact_eq_leader nonempty]
    intro other attested differs
    rw [headCount_eq_of_perm perm, headCount_eq_of_perm perm]
    exact leads other ((perm.map _).mem_iff.mp attested) differs

end Artifact

/-! ## The whole verdict -/

section Verdict

variable {committee : List RunnerId} {received shuffled : List Delivery} {ledger : StakeLedger}

theorem outcomeOf_eq_of_perm (perm : shuffled.Perm received)
    (distinct : (received.map fun delivery => delivery.attestation.runnerId).Nodup)
    (committee : List RunnerId) (stake : StakeMap) :
    outcomeOf committee shuffled stake = outcomeOf committee received stake := by
  apply aggregate_eq_of_perm ((perm.map Delivery.attestation).map voteOf)
  rw [List.map_map, List.map_map]
  exact distinct

theorem mem_slashed_verdict_iff {job : JobCall} {order : IterationOrder Hash UInt32}
    {runner : RunnerId} :
    runner ∈ (reportOf order job committee received ledger).verdict.slashed ↔
      (outcomeOf committee received ledger.asStakeMap = .pass ∨
        outcomeOf committee received ledger.asStakeMap = .fail) ∧
      job.slashPolicy.enabled = true ∧
      StakeLedger.Diverges (consensusArtifact order (received.map Delivery.attestation))
        (received.map Delivery.attestation) runner ∧
      runner ∈ ledger.stakes ∧ job.slashPolicy.amount (ledger.stakeOf runner) ≠ 0 := by
  simp only [JobReport.verdict, reportOf, slashingOf, List.mem_toFinset]
  split
  · next decided =>
      unfold StakeLedger.settle
      split
      · next enabled =>
          rw [StakeLedger.mem_slashed_iff]
          simp only [decided, enabled, true_and]
      · next disabled => simp [disabled]
  · next undecided => simp [undecided]

/-- Permuted attestations slash the same runners, if the artifact is the same. -/
theorem slashed_verdict_eq_of_perm (job : JobCall) {first second : IterationOrder Hash UInt32}
    (perm : shuffled.Perm received)
    (outcome : outcomeOf committee shuffled ledger.asStakeMap =
      outcomeOf committee received ledger.asStakeMap)
    (artifact : consensusArtifact first (shuffled.map Delivery.attestation) =
      consensusArtifact second (received.map Delivery.attestation)) :
    (reportOf first job committee shuffled ledger).verdict.slashed =
      (reportOf second job committee received ledger).verdict.slashed := by
  ext runner
  rw [mem_slashed_verdict_iff, mem_slashed_verdict_iff, outcome, artifact]
  simp only [StakeLedger.Diverges, (perm.map Delivery.attestation).mem_iff]

end Verdict

/-- The verdict on the attestations of distinct runners is independent of all orders
exactly when one artifact was attested more often than every other. -/
theorem orderIndependent_iff (job : JobCall) (committee : List RunnerId)
    (received : List Delivery) (ledger : StakeLedger)
    (distinct : (received.map fun delivery => delivery.attestation.runnerId).Nodup) :
    OrderIndependent job committee received ledger ↔
      HasLeader (received.map Delivery.attestation) := by
  constructor
  · intro independent
    apply hasLeader_of_orders
    intro first second
    exact congrArg Verdict.consensusArtifact
      (independent first second received (List.Perm.refl _))
  · intro hasLeader first second shuffled perm
    have outcome := outcomeOf_eq_of_perm perm distinct committee ledger.asStakeMap
    have chosen := hasLeader.consensusArtifact_eq_of_perm (perm.map Delivery.attestation)
      first second
    have slashed := slashed_verdict_eq_of_perm job perm outcome chosen
    exact Verdict.ext outcome chosen slashed

/-- Two of three runners agree: their artifact is anchored and the third runner is
slashed in every order. -/
theorem orderIndependent_majority :
    let received := [sampleDelivery 1 7, sampleDelivery 2 8, sampleDelivery 3 7]
    (reportOf .stored sampleJob [1, 2, 3] received unevenState.stakeLedger).verdict =
        ⟨.pass, sampleEntry 7, {2}⟩ ∧
      OrderIndependent sampleJob [1, 2, 3] received unevenState.stakeLedger := by
  refine ⟨by decide +kernel, ?_⟩
  apply (orderIndependent_iff sampleJob [1, 2, 3] _ unevenState.stakeLedger
    (by decide +kernel)).mpr
  refine ⟨sampleEntry 7, ?_⟩
  intro other attested differs
  have listed : other ∈ [sampleEntry 7, sampleEntry 8, sampleEntry 7] := attested
  simp only [List.mem_cons, List.not_mem_nil, or_false] at listed
  rcases listed with rfl | rfl | rfl
  · exact absurd rfl differs
  · decide +kernel
  · exact absurd rfl differs

/-- Two runners attest different artifacts and the job passes: which artifact is anchored
and which of them is slashed depends on the iteration order alone. -/
theorem tied_verdict :
    let received := [sampleDelivery 1 7, sampleDelivery 2 8]
    let verdict order := (reportOf order sampleJob [1, 2] received unevenState.stakeLedger).verdict
    verdict (.lastly (sampleEntry 7)) = ⟨.pass, sampleEntry 7, {2}⟩ ∧
      verdict (.lastly (sampleEntry 8)) = ⟨.pass, sampleEntry 8, {1}⟩ ∧
      ¬OrderIndependent sampleJob [1, 2] received unevenState.stakeLedger := by
  have seven : (reportOf (.lastly (sampleEntry 7)) sampleJob [1, 2]
      [sampleDelivery 1 7, sampleDelivery 2 8] unevenState.stakeLedger).verdict =
      ⟨.pass, sampleEntry 7, {2}⟩ := by decide +kernel
  have eight : (reportOf (.lastly (sampleEntry 8)) sampleJob [1, 2]
      [sampleDelivery 1 7, sampleDelivery 2 8] unevenState.stakeLedger).verdict =
      ⟨.pass, sampleEntry 8, {1}⟩ := by decide +kernel
  refine ⟨seven, eight, ?_⟩
  intro independent
  have same := independent (.lastly (sampleEntry 7)) (.lastly (sampleEntry 8)) _
    (List.Perm.refl _)
  rw [seven, eight] at same
  exact absurd same (by decide +kernel)

end Cosaci.Coordinator
