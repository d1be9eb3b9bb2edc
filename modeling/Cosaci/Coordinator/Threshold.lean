import Cosaci.Coordinator.Anchoring
import Cosaci.State.PartialQuorum

/-!
# The threshold of a job

`run_one_job` takes its threshold over the stake of the whole committee and weighs
the votes against the stakes of the whole fleet.  Both choices show: a deadlocked
committee is told to retry as long as runners outside of it hold enough stake, and
members that drop out count as if they had voted against either side, unlike in the
resolver for partial committees.
-/

namespace Cosaci.Coordinator

open Foundation Cosaci.Core State

/-- The votes of the collected attestations. -/
def votesOf (received : List Delivery) : List Vote :=
  (received.map Delivery.attestation).map voteOf

/-- The threshold of a job and the one of the resolver are two thirds of the exact stakes
of the committee and of its members that voted exactly when those stakes, doubled, fit in a
word. -/
theorem thresholds_twoThirds_iff (order : IterationOrder Hash UInt32) (job : JobCall)
    (committee : List RunnerId) (received : List Delivery) (ledger : StakeLedger)
    (votes : List Vote) :
    (TwoThirds ledger.asStakeMap committee
        (reportOf order job committee received ledger).threshold ↔
      2 * stakeSum ledger.asStakeMap committee < 2 ^ 64) ∧
    (TwoThirds ledger.asStakeMap (respondingMembers committee votes)
        (resolveWithDropouts committee votes ledger.asStakeMap twoThirdsThreshold).threshold ↔
      2 * stakeSum ledger.asStakeMap (respondingMembers committee votes) < 2 ^ 64) :=
  ⟨twoThirds_thresholdOver_iff _ _, twoThirds_thresholdOver_iff _ _⟩

/-- Runners of stake `2 ^ 63` and one. -/
def towering : StakeLedger :=
  ⟨Table.collect [(1, 0x8000000000000000), (2, 1)]⟩

/-- Of a committee that holds `2 ^ 63 + 1`, the member with a stake of one passes the
job alone. -/
theorem threshold_wraps :
    let report := reportOf .stored sampleJob [1, 2]
      [sampleDelivery 2 7] towering
    let resolved := resolveWithDropouts [1, 2] [⟨1, .pass⟩, ⟨2, .pass⟩] towering.asStakeMap
      twoThirdsThreshold
    stakeSum towering.asStakeMap [1, 2] = 2 ^ 63 + 1 ∧
      report.threshold = 1 ∧ report.outcome = .pass ∧
      stakeOn towering.asStakeMap (backers report.votes .pass) = 1 ∧
      ¬TwoThirds towering.asStakeMap [1, 2] report.threshold ∧
      resolved.threshold = 1 ∧
      ¬TwoThirds towering.asStakeMap (respondingMembers [1, 2] [⟨1, .pass⟩, ⟨2, .pass⟩])
        resolved.threshold := by
  refine ⟨by decide +kernel, by decide +kernel, by decide +kernel, by decide +kernel, ?_,
    by decide +kernel, ?_⟩
  · intro exact
    exact absurd ((twoThirds_thresholdOver_iff _ _).mp exact) (by decide +kernel)
  · intro exact
    exact absurd ((twoThirds_thresholdOver_iff _ _).mp exact) (by decide +kernel)

/-! ## Deadlocked committees -/

/-- Neither side holds the threshold, even with all of the available stake that has not
voted against it. -/
def Deadlocked (available : Nat) (committee : List RunnerId) (received : List Delivery)
    (stake : StakeMap) : Prop :=
  available < (voteThreshold stake committee).toNat +
      stakeOn stake (backers (votesOf received) .pass) ∧
    available < (voteThreshold stake committee).toNat +
      stakeOn stake (backers (votesOf received) .fail)

theorem fits_of_small {stake : StakeMap} (small : totalStake stake < 2 ^ 63) :
    totalStake stake ≤ maxWord := by
  simp only [maxWord]
  omega

section Outcome

variable (committee : List RunnerId) (received : List Delivery) {stake : StakeMap}
  (fits : totalStake stake ≤ maxWord)

include fits in
theorem outcomeOf_eq_retry_iff :
    outcomeOf committee received stake = .retry ↔
      (stakeOn stake (backers (votesOf received) .pass) < (voteThreshold stake committee).toNat ∧
        stakeOn stake (backers (votesOf received) .fail) <
          (voteThreshold stake committee).toNat) ∧
      ((voteThreshold stake committee).toNat + stakeOn stake (backers (votesOf received) .pass) ≤
          totalStake stake ∨
        (voteThreshold stake committee).toNat + stakeOn stake (backers (votesOf received) .fail) ≤
          totalStake stake) :=
  aggregate_eq_retry_iff fits

include fits in
theorem outcomeOf_eq_escalate_iff :
    outcomeOf committee received stake = .escalate ↔
      Deadlocked (totalStake stake) committee received stake :=
  aggregate_eq_escalate_iff fits

end Outcome

/-- The outcome tells the operator to retry only if the missing members can still
decide the job, and escalates when they cannot. -/
structure EscalatesDeadlock (committee : List RunnerId) (received : List Delivery)
    (stake : StakeMap) : Prop where
  retries : outcomeOf committee received stake = .retry →
    Resolvable committee (votesOf received) (voteThreshold stake committee) stake
  escalates : ¬Resolvable committee (votesOf received) (voteThreshold stake committee) stake →
    stakeOn stake (backers (votesOf received) .pass) < (voteThreshold stake committee).toNat →
    stakeOn stake (backers (votesOf received) .fail) < (voteThreshold stake committee).toNat →
    outcomeOf committee received stake = .escalate

/-- Deadlocked committees escalate exactly when a deadlock of the committee is also one
of the fleet. -/
theorem escalatesDeadlock_iff (committee : List RunnerId) (received : List Delivery)
    (stake : StakeMap) (distinct : committee.Nodup)
    (members : ∀ vote ∈ votesOf received, vote.runnerId ∈ committee)
    (small : totalStake stake < 2 ^ 63) :
    EscalatesDeadlock committee received stake ↔
      (Deadlocked (stakeSum stake committee) committee received stake →
        Deadlocked (totalStake stake) committee received stake) := by
  have parts := stakeOn_missingMembers_add distinct members stake
  have resolvable := resolvable_iff distinct members (voteThreshold stake committee) stake
  have retried := outcomeOf_eq_retry_iff committee received (fits_of_small small)
  have escalated := outcomeOf_eq_escalate_iff committee received (fits_of_small small)
  constructor
  · rintro ⟨-, escalates⟩ ⟨passStuck, failStuck⟩
    apply escalated.mp
    apply escalates
    · rw [resolvable]
      omega
    · omega
    · omega
  · intro spreads
    constructor
    · intro retry
      rw [resolvable]
      by_contra stuck
      have deadlock := spreads ⟨by omega, by omega⟩
      rcases retried.mp retry with ⟨-, passOpen | failOpen⟩
      · exact absurd deadlock.1 (Nat.not_lt.mpr passOpen)
      · exact absurd deadlock.2 (Nat.not_lt.mpr failOpen)
    · intro stuck _ _
      rw [resolvable] at stuck
      exact escalated.mpr (spreads ⟨by omega, by omega⟩)

/-- Four runners of stake ten. -/
def evenStake : StakeMap :=
  Table.collect [(1, 10), (2, 10), (3, 10), (4, 10)]

/-- An attestation that a job failed. -/
def failedDelivery (runner : RunnerId) (artifact : UInt8) : Delivery :=
  ⟨runner, { sampleAttestation runner (sampleEntry artifact) with result := .fail }⟩

/-- The whole fleet is the committee, and its deadlock escalates. -/
theorem escalatesDeadlock_wholeFleet :
    let received := [sampleDelivery 1 7, sampleDelivery 2 7, failedDelivery 3 7,
      failedDelivery 4 7]
    outcomeOf [1, 2, 3, 4] received evenStake = .escalate ∧
      EscalatesDeadlock [1, 2, 3, 4] received evenStake := by
  refine ⟨by decide +kernel, ?_⟩
  apply (escalatesDeadlock_iff [1, 2, 3, 4] _ evenStake (by decide) (by decide +kernel)
    (by decide +kernel)).mpr
  intro _
  constructor <;> decide +kernel

/-- Both members of a committee have voted, one each way, and nobody is left to ask:
the job is told to retry because of two runners outside the committee. -/
theorem deadlocked_committee_retries :
    let received := [sampleDelivery 1 7, failedDelivery 2 7]
    outcomeOf [1, 2] received evenStake = .retry ∧
      (∀ assignment, assignedVotes [1, 2] (votesOf received) assignment = []) ∧
      ¬EscalatesDeadlock [1, 2] received evenStake := by
  have settled : ∀ assignment, assignedVotes [1, 2]
      (votesOf [sampleDelivery 1 7, failedDelivery 2 7]) assignment = [] := fun _ => rfl
  refine ⟨by decide +kernel, settled, ?_⟩
  rintro ⟨retries, -⟩
  rcases retries (by decide +kernel) with ⟨assignment, decided⟩
  rw [settled] at decided
  exact absurd decided (by decide +kernel)

/-! ## Members that drop out -/

/-- The stake of the members that did not vote does not matter.  The first of the three cases
is a decided job, the second an open vote, the third a deadlock. -/
def DropoutsHarmless (committee : List RunnerId) (votes : List Vote) (stake : StakeMap) : Prop :=
  let pass := stakeOn stake (backers votes .pass)
  let fail := stakeOn stake (backers votes .fail)
  let missing := stakeOn stake (missingMembers committee votes)
  let outside := outsideStake committee stake
  -- one side holds twice the stake of all other members, whether they voted or not
  2 * (min pass fail + missing) ≤ max pass fail ∨
    -- neither side holds twice the stake of the other, and a third of the committee's stake
    -- and the stake outside of it cover the smaller side
    (max pass fail < 2 * min pass fail ∧
      3 * min pass fail ≤ stakeSum stake committee + 3 * outside) ∨
    -- not even with the stake of all others does the larger side hold twice the smaller
    max pass fail + 3 * (missing + outside) < 2 * min pass fail

/-- The outcome of a job is the one of the resolver for partial committees exactly when
the stake of the members that dropped out does not matter. -/
theorem outcomeOf_eq_resolveWithDropouts_iff (committee : List RunnerId)
    (received : List Delivery) (stake : StakeMap) (distinct : committee.Nodup)
    (members : ∀ vote ∈ votesOf received, vote.runnerId ∈ committee)
    (small : totalStake stake < 2 ^ 63) :
    outcomeOf committee received stake =
        (resolveWithDropouts committee (votesOf received) stake twoThirdsThreshold).outcome ↔
      DropoutsHarmless committee (votesOf received) stake := by
  have parts := stakeOn_missingMembers_add distinct members stake
  have total := stakeOn_add_outsideStake committee stake
  rw [← stakeSum_eq_stakeOn stake distinct] at total
  have whole : (voteThreshold stake committee).toNat =
      (2 * stakeSum stake committee % 2 ^ 64 + 2) / 3 := toNat_thresholdOver stake committee
  have responding := toNat_thresholdOver stake (respondingMembers committee (votesOf received))
  rw [stakeSum_respondingMembers distinct members] at responding
  rw [Nat.mod_eq_of_lt (by omega)] at whole responding
  refine Iff.trans (@aggregate_eq_aggregate_iff (votesOf received) stake
    (voteThreshold stake committee)
    (thresholdOver stake (respondingMembers committee (votesOf received)))
    (fits_of_small small)) ?_
  simp only [DropoutsHarmless]
  omega

/-- Two of three members answer and agree: they hold two thirds of the committee too. -/
theorem outcomeOf_eq_resolveWithDropouts_twoOfThree :
    let received := [sampleDelivery 1 7, sampleDelivery 2 7]
    (votesOf received).length = 2 ∧
      outcomeOf [1, 2, 3] received evenStake =
        (resolveWithDropouts [1, 2, 3] (votesOf received) evenStake
          twoThirdsThreshold).outcome := by
  refine ⟨rfl, ?_⟩
  apply (outcomeOf_eq_resolveWithDropouts_iff [1, 2, 3] _ evenStake (by decide)
    (by decide +kernel) (by decide +kernel)).mpr
  simp only [DropoutsHarmless]
  decide +kernel

/-- One of three members answers and passes the job: the resolver takes its word, the
coordinator does not. -/
theorem lone_responder_retries :
    let received := [sampleDelivery 1 7]
    outcomeOf [1, 2, 3] received evenStake = .retry ∧
      (resolveWithDropouts [1, 2, 3] (votesOf received) evenStake
        twoThirdsThreshold).outcome = .pass := by
  decide +kernel

end Cosaci.Coordinator
