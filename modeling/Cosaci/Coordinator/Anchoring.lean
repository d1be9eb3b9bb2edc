import Cosaci.Coordinator.Conclude

/-!
# Stake behind the anchored artifact

A job passes when enough stake voted for it; the artifact it anchors is the one
with the most attestations.  This module relates the two: the anchored artifact is
backed by the threshold, whatever the iteration order of the counting map, exactly
when every artifact without that backing is outnumbered by one that has it.
-/

namespace Cosaci.Coordinator

open Foundation Cosaci.Core State

/-- How often an artifact was attested, in the 32-bit counter of the source. -/
def headCount (attestations : List Attestation) (artifact : Hash) : UInt32 :=
  UInt32.ofNat ((attestations.map Attestation.artifactHash).count artifact)

/-- The committee members that attested an artifact as passing. -/
def attestors (committee : List RunnerId) (attestations : List Attestation) (artifact : Hash) :
    Finset RunnerId :=
  committee.toFinset.filter fun runner => ∃ attestation ∈ attestations,
    attestation.runnerId = runner ∧ attestation.artifactHash = artifact ∧
      attestation.result = .pass

/-- Committee members holding the threshold attested the artifact as passing. -/
def StakeBacked (stake : StakeMap) (committee : List RunnerId)
    (attestations : List Attestation) (artifact : Hash) : Prop :=
  (voteThreshold stake committee).toNat ≤
    stakeOn stake (attestors committee attestations artifact)

instance (stake : StakeMap) (committee : List RunnerId) (attestations : List Attestation)
    (artifact : Hash) : Decidable (StakeBacked stake committee attestations artifact) :=
  inferInstanceAs (Decidable (_ ≤ _))

/-! ## The choice of the artifact -/

variable {attestations : List Attestation} {artifact : Hash}

/-- The counting map holds the attested artifacts with their head counts. -/
private theorem lookup_artifactCounts_iff {count : UInt32} :
    (Table.histogram (attestations.map Attestation.artifactHash)).lookup artifact =
        some count ↔
      artifact ∈ attestations.map Attestation.artifactHash ∧
        count = headCount attestations artifact := by
  rw [Table.lookup_histogram]
  split
  · next attested =>
      rw [Option.some.injEq, eq_comm, and_iff_right attested]
      rfl
  · next absent => simp only [reduceCtorEq, absent, false_and]

/-- The consensus artifact was attested, and no artifact more often. -/
theorem consensusArtifact_spec (order : IterationOrder Hash UInt32)
    (nonempty : attestations ≠ []) :
    consensusArtifact order attestations ∈ attestations.map Attestation.artifactHash ∧
      ∀ other ∈ attestations.map Attestation.artifactHash,
        (headCount attestations other).toNat ≤
          (headCount attestations (consensusArtifact order attestations)).toNat := by
  let counts := Table.histogram (attestations.map Attestation.artifactHash)
  have visited : ∀ other ∈ attestations.map Attestation.artifactHash,
      (⟨other, headCount attestations other⟩ : Sigma fun _ : Hash => UInt32) ∈
        order.visit counts :=
    fun other attested => order.mem_visit.mpr (lookup_artifactCounts_iff.mpr ⟨attested, rfl⟩)
  rcases List.exists_mem_of_ne_nil attestations nonempty with ⟨first, present⟩
  obtain ⟨best, found⟩ := exists_maxByKey (fun entry => entry.2.toNat)
    (List.ne_nil_of_mem (visited _ (List.mem_map_of_mem present)))
  rcases maxByKey_spec found with ⟨member, maximal⟩
  have chosen : consensusArtifact order attestations = best.1 := by
    simp only [consensusArtifact, counts] at found ⊢
    rw [found]
  rcases lookup_artifactCounts_iff.mp (order.mem_visit.mp member) with ⟨attested, count⟩
  rw [chosen, ← count]
  exact ⟨attested, fun other others => maximal _ (visited other others)⟩

/-- Some iteration order chooses a given artifact, if none was attested more
often. -/
theorem consensusArtifact_lastly
    (attested : artifact ∈ attestations.map Attestation.artifactHash)
    (maximal : ∀ other ∈ attestations.map Attestation.artifactHash,
      (headCount attestations other).toNat ≤ (headCount attestations artifact).toNat) :
    consensusArtifact (.lastly artifact) attestations = artifact := by
  let counts := Table.histogram (attestations.map Attestation.artifactHash)
  have found : counts.lookup artifact = some (headCount attestations artifact) :=
    lookup_artifactCounts_iff.mpr ⟨attested, rfl⟩
  have bounded : ∀ entry ∈ counts.entries.filter fun entry => !decide (entry.1 = artifact),
      entry.2.toNat ≤ (headCount attestations artifact).toNat := by
    intro entry member
    have looked : counts.lookup entry.1 = some entry.2 :=
      AList.mem_lookup_iff.mpr (List.mem_of_mem_filter member)
    rcases lookup_artifactCounts_iff.mp looked with ⟨present, count⟩
    rw [count]
    exact maximal entry.1 present
  rw [consensusArtifact, IterationOrder.visit_lastly found, maxByKey_of_last bounded]

/-! ## Backing of the anchored artifact -/

/-- The artifact that a run appends to the log and compares attestations with is
backed by the threshold. -/
def AnchorsBacked (job : JobCall) (committee : List RunnerId) (received : List Delivery)
    (before : CoordinatorState) (run : JobRun) : Prop :=
  ∃ report, run.report = some report ∧
    run.state.log = (before.log.append report.consensusArtifact job.appendIo).2 ∧
    run.state.stakeLedger = (before.stakeLedger.settle job.slashPolicy report.consensusArtifact
      (received.map Delivery.attestation)).2 ∧
    StakeBacked before.stakeLedger.asStakeMap committee
      (received.map Delivery.attestation) report.consensusArtifact

private theorem anchorsBacked_conclude_iff {crypto : Crypto}
    {order : IterationOrder Hash UInt32} {job : JobCall} {committee : List RunnerId}
    {received : List Delivery} {state : CoordinatorState}
    (passes : outcomeOf committee received state.stakeLedger.asStakeMap = .pass) :
    AnchorsBacked job committee received state
        (conclude crypto order job committee received state) ↔
      StakeBacked state.stakeLedger.asStakeMap committee (received.map Delivery.attestation)
        (consensusArtifact order (received.map Delivery.attestation)) := by
  constructor
  · rintro ⟨report, reported, -, -, backed⟩
    rw [report_conclude] at reported
    cases reported
    exact backed
  · intro backed
    refine ⟨_, report_conclude crypto order job committee received state, ?_, ?_, backed⟩
    · rw [log_conclude, if_pos passes]
      rfl
    · rw [stakeLedger_conclude, slashingOf, if_pos (Or.inl passes)]
      rfl

/-- A passed job collected something: an empty vote reaches no positive
threshold. -/
theorem received_ne_nil_of_pass {committee : List RunnerId} {received : List Delivery}
    {stake : StakeMap} (passes : outcomeOf committee received stake = .pass) :
    received ≠ [] := by
  rintro rfl
  rcases aggregate_eq_pass_iff.mp passes with ⟨positive, reached⟩
  have nobody : backers (([] : List Delivery).map Delivery.attestation |>.map voteOf) .pass =
      ∅ := rfl
  rw [nobody] at reached
  have nothing : stakeOn stake ∅ = 0 := rfl
  omega

/-- Whatever the iteration order, a passed job anchors a stake-backed artifact
exactly when every attested artifact without stake backing has fewer attestations
than one that has it. -/
theorem anchored_artifact_backed_iff (crypto : Crypto) (job : JobCall)
    (committee : List RunnerId) (received : List Delivery) (state : CoordinatorState)
    (passes : aggregate ((received.map Delivery.attestation).map voteOf)
      (voteThreshold state.stakeLedger.asStakeMap committee) state.stakeLedger.asStakeMap =
        .pass) :
    (∀ order, AnchorsBacked job committee received state
      (conclude crypto order job committee received state)) ↔
    ∀ attestation ∈ received.map Delivery.attestation,
      ¬StakeBacked state.stakeLedger.asStakeMap committee (received.map Delivery.attestation)
        attestation.artifactHash →
      ∃ other ∈ received.map Delivery.attestation,
        StakeBacked state.stakeLedger.asStakeMap committee (received.map Delivery.attestation)
          other.artifactHash ∧
        headCount (received.map Delivery.attestation) attestation.artifactHash <
          headCount (received.map Delivery.attestation) other.artifactHash := by
  have nonempty : received.map Delivery.attestation ≠ [] := by
    rw [Ne, List.map_eq_nil_iff]
    exact received_ne_nil_of_pass passes
  constructor
  · intro backed attestation present unbacked
    have reference := (anchorsBacked_conclude_iff passes).mp (backed .stored)
    rcases consensusArtifact_spec .stored nonempty with ⟨attested, maximal⟩
    rcases List.mem_map.mp attested with ⟨other, member, same⟩
    refine ⟨other, member, by rw [same]; exact reference, ?_⟩
    -- Otherwise the unbacked artifact is itself maximal, and visited last it wins.
    by_contra outnumbered
    rw [UInt32.lt_iff_toNat_lt, same, Nat.not_lt] at outnumbered
    have chosen := consensusArtifact_lastly (List.mem_map_of_mem present)
      fun other attested => (maximal other attested).trans outnumbered
    have wins := (anchorsBacked_conclude_iff passes).mp (backed (.lastly attestation.artifactHash))
    rw [chosen] at wins
    exact unbacked wins
  · intro outnumbered order
    apply (anchorsBacked_conclude_iff passes).mpr
    rcases consensusArtifact_spec order nonempty with ⟨attested, maximal⟩
    rcases List.mem_map.mp attested with ⟨attestation, present, same⟩
    by_contra unbacked
    rw [← same] at unbacked maximal
    rcases outnumbered attestation present unbacked with ⟨other, member, -, more⟩
    have bound := maximal other.artifactHash (List.mem_map_of_mem member)
    rw [UInt32.lt_iff_toNat_lt] at more
    omega

/-! ## A large and two small runners -/

/-- A passing attestation delivered by its own runner. -/
def sampleDelivery (runner : RunnerId) (artifact : UInt8) : Delivery :=
  ⟨runner, sampleAttestation runner (sampleEntry artifact)⟩

/-- Stakes ten, one and one: the threshold of the whole committee is eight. -/
def unevenState : CoordinatorState where
  agents := []
  stakeLedger := ⟨Table.collect [(1, 10), (2, 1), (3, 1)]⟩
  log := .mem ⟨[], ()⟩
  records := ∅
  journal := []

/-- The large runner and one of the small ones agree: whatever the order, their
artifact is anchored. -/
theorem anchored_artifact_backed_dissent :
    let received := [sampleDelivery 1 7, sampleDelivery 2 7, sampleDelivery 3 8]
    outcomeOf [1, 2, 3] received unevenState.stakeLedger.asStakeMap = .pass ∧
      ∀ order, AnchorsBacked sampleJob [1, 2, 3] received unevenState
        (conclude modelCrypto order sampleJob [1, 2, 3] received unevenState) := by
  have passes : outcomeOf [1, 2, 3]
      [sampleDelivery 1 7, sampleDelivery 2 7, sampleDelivery 3 8]
      unevenState.stakeLedger.asStakeMap = .pass := by decide +kernel
  refine ⟨passes, ?_⟩
  apply (anchored_artifact_backed_iff modelCrypto sampleJob [1, 2, 3] _ unevenState passes).mpr
  decide +kernel

/-- The two small runners outnumber the large one: their artifact is anchored with a
stake of two behind it, and the large runner is slashed. -/
theorem unbacked_artifact_anchored :
    let received := [sampleDelivery 1 7, sampleDelivery 2 8, sampleDelivery 3 8]
    let run := conclude modelCrypto .stored sampleJob [1, 2, 3] received unevenState
    outcomeOf [1, 2, 3] received unevenState.stakeLedger.asStakeMap = .pass ∧
      run.state.log.entries = [sampleEntry 8] ∧ run.state.stakeLedger.stakeOf 1 = 0 ∧
      ¬AnchorsBacked sampleJob [1, 2, 3] received unevenState run := by
  have passes : outcomeOf [1, 2, 3]
      [sampleDelivery 1 7, sampleDelivery 2 8, sampleDelivery 3 8]
      unevenState.stakeLedger.asStakeMap = .pass := by decide +kernel
  refine ⟨passes, by decide +kernel, by decide +kernel, ?_⟩
  rw [anchorsBacked_conclude_iff passes]
  decide +kernel

end Cosaci.Coordinator
