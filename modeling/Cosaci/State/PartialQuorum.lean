import Cosaci.Core.QuorumLimits
import Mathlib.Algebra.Order.Floor.Div

/-!
# Partial committees

The resolver of `cosaci-state` for committees that did not answer in full: the
threshold is taken over the stake of the members that responded.  The stakes are
added up and doubled in wrapping arithmetic, so the threshold is the two thirds it
is meant to be only below half of the word size.  The votes are counted over the whole
stake map, so runners outside of the committee can change the outcome, though nothing
else.
-/

namespace Cosaci.State

open Foundation Cosaci.Core

/-- Result of resolving a job from the votes that arrived. -/
structure PartialOutcome where
  outcome : Outcome
  responding : List RunnerId
  missing : List RunnerId
  respondingStake : Weight
  threshold : Weight
  deriving DecidableEq

/-- Resolve a job's outcome from a possibly incomplete set of votes. -/
def resolveWithDropouts (committee : List RunnerId) (votes : List Vote) (stakeMap : StakeMap)
    (thresholdFn : Weight → Weight) : PartialOutcome :=
  let responded := (votes.map Vote.runnerId).toFinset
  let responding := committee.filter fun runner => runner ∈ responded
  let missing := committee.filter fun runner => runner ∉ responded
  let respondingStake := (responding.map (weightOf stakeMap)).sum
  let threshold := thresholdFn respondingStake
  ⟨aggregate votes threshold stakeMap, responding, missing, respondingStake, threshold⟩

/-- The members of a committee that voted. -/
def respondingMembers (committee : List RunnerId) (votes : List Vote) : List RunnerId :=
  committee.filter fun runner => runner ∈ (votes.map Vote.runnerId).toFinset

/-- Two thirds of a stake, rounded up. -/
def twoThirdsThreshold (respondingStake : Weight) : Weight :=
  divCeil (respondingStake * 2) 3

/-! ## The threshold of a sum of stakes -/

/-- The two-thirds threshold over the stakes of the given runners. -/
def thresholdOver (stake : StakeMap) (runners : List RunnerId) : Weight :=
  twoThirdsThreshold (runners.map (weightOf stake)).sum

/-- The doubled sum is taken modulo the word size before it is divided. -/
theorem toNat_thresholdOver (stake : StakeMap) (runners : List RunnerId) :
    (thresholdOver stake runners).toNat = (2 * stakeSum stake runners % 2 ^ 64 + 2) / 3 := by
  have doubled : ((runners.map (weightOf stake)).sum * 2).toNat =
      2 * stakeSum stake runners % 2 ^ 64 := by
    rw [UInt64.toNat_mul, toNat_sum, List.map_map, Nat.mod_mul_mod, Nat.mul_comm]
    rfl
  have three : (3 : UInt64).toNat = 3 := rfl
  rw [thresholdOver, twoThirdsThreshold, divCeil, doubled, three, UInt64.toNat_ofNat']
  apply Nat.mod_eq_of_lt
  omega

/-- The threshold is two thirds of the exact stake of the runners, rounded up, and
no votes pass with less. -/
structure TwoThirds (stake : StakeMap) (runners : List RunnerId) (threshold : Weight) :
    Prop where
  exact : threshold.toNat = (2 * stakeSum stake runners) ⌈/⌉ 3
  passes : ∀ votes, aggregate votes threshold stake = .pass →
    2 * stakeSum stake runners ≤ 3 * stakeOn stake (backers votes .pass)

/-- The computed threshold is the exact one as long as the doubled stake is a word. -/
theorem twoThirds_thresholdOver_iff (stake : StakeMap) (runners : List RunnerId) :
    TwoThirds stake runners (thresholdOver stake runners) ↔
      2 * stakeSum stake runners < 2 ^ 64 := by
  have computed := toNat_thresholdOver stake runners
  constructor
  · rintro ⟨exact, -⟩
    rw [computed, Nat.ceilDiv_eq_add_pred_div] at exact
    omega
  · intro fits
    rw [Nat.mod_eq_of_lt fits] at computed
    constructor
    · rw [Nat.ceilDiv_eq_add_pred_div]
      omega
    · intro votes passed
      have reached := (aggregate_eq_pass_iff.mp passed).2
      omega

/-! ## The responding stake -/

/-- When only members of the committee vote, the two sides hold the responding
stake. -/
theorem stakeSum_respondingMembers {committee : List RunnerId} {votes : List Vote}
    (distinct : committee.Nodup) (members : ∀ vote ∈ votes, vote.runnerId ∈ committee)
    (stake : StakeMap) :
    stakeSum stake (respondingMembers committee votes) =
      stakeOn stake (backers votes .pass) + stakeOn stake (backers votes .fail) := by
  have responding : (respondingMembers committee votes).toFinset =
      (votes.map Vote.runnerId).toFinset := by
    ext runner
    simp only [respondingMembers, List.mem_toFinset, List.mem_filter, decide_eq_true_eq,
      List.mem_map, and_iff_right_iff_imp]
    rintro ⟨vote, cast, rfl⟩
    exact members vote cast
  rw [stakeSum_eq_stakeOn stake, responding, stakeOn_backers_add]
  exact distinct.filter _

/-! ## What the missing members can still do -/

/-- The members that have not voted. -/
def missingMembers (committee : List RunnerId) (votes : List Vote) : Finset RunnerId :=
  committee.toFinset \ (votes.map Vote.runnerId).toFinset

/-- The votes of the members that have not voted, under an assignment. -/
def assignedVotes (committee : List RunnerId) (votes : List Vote)
    (assignment : RunnerId → VoteResult) : List Vote :=
  (committee.filter fun runner => runner ∉ (votes.map Vote.runnerId).toFinset).map
    fun runner => ⟨runner, assignment runner⟩

/-- Some way for the missing members to vote decides the job. -/
def Resolvable (committee : List RunnerId) (votes : List Vote) (threshold : Weight)
    (stake : StakeMap) : Prop :=
  ∃ assignment, aggregate (votes ++ assignedVotes committee votes assignment) threshold stake
    ∈ [Outcome.pass, Outcome.fail]

section Missing

variable {committee : List RunnerId} {votes : List Vote} (distinct : committee.Nodup)

theorem assignedVotes_eq (committee : List RunnerId) (votes : List Vote)
    (assignment : RunnerId → VoteResult) :
    assignedVotes committee votes assignment = votesOfRest committee votes assignment :=
  rfl

include distinct in
/-- The missing members add their stake to the side they are assigned to. -/
theorem stakeOn_backers_append_assignedVotes (assignment : RunnerId → VoteResult)
    (side : VoteResult) (stake : StakeMap) :
    stakeOn stake (backers (votes ++ assignedVotes committee votes assignment) side) =
      stakeOn stake (backers votes side) +
        stakeOn stake ((missingMembers committee votes).filter
          fun runner => assignment runner = side) := by
  rw [assignedVotes_eq,
    stakeOn_backers_append_of_fromOthers (fromOthers_votesOfRest committee votes assignment),
    backers_votesOfRest distinct, missingMembers]

variable (votes) in
include distinct in
/-- However the missing members vote, a side gains at most their stake. -/
theorem stakeOn_backers_assignedVotes_le (side : VoteResult) (assignment : RunnerId → VoteResult)
    (stake : StakeMap) :
    stakeOn stake (backers (votes ++ assignedVotes committee votes assignment) side) ≤
      stakeOn stake (backers votes side) + stakeOn stake (missingMembers committee votes) := by
  rw [stakeOn_backers_append_assignedVotes distinct]
  exact Nat.add_le_add_left (weightOn_mono (Finset.filter_subset _ _)) _

include distinct in
/-- A side gains all of it when they all vote for it. -/
theorem stakeOn_backers_assignedVotes_const (side : VoteResult) (stake : StakeMap) :
    stakeOn stake (backers (votes ++ assignedVotes committee votes fun _ => side) side) =
      stakeOn stake (backers votes side) + stakeOn stake (missingMembers committee votes) := by
  rw [stakeOn_backers_append_assignedVotes distinct, Finset.filter_true_of_mem]
  exact fun _ _ => rfl

include distinct in
/-- Missing members and the two sides make up the committee. -/
theorem stakeOn_missingMembers_add (members : ∀ vote ∈ votes, vote.runnerId ∈ committee)
    (stake : StakeMap) :
    stakeOn stake (missingMembers committee votes) +
      (stakeOn stake (backers votes .pass) + stakeOn stake (backers votes .fail)) =
        stakeSum stake committee := by
  have inside : (votes.map Vote.runnerId).toFinset ⊆ committee.toFinset := by
    intro runner voted
    rcases List.mem_map.mp (List.mem_toFinset.mp voted) with ⟨vote, cast, rfl⟩
    exact List.mem_toFinset.mpr (members vote cast)
  rw [stakeOn_backers_add, stakeSum_eq_stakeOn stake distinct]
  exact Finset.sum_sdiff inside

include distinct in
/-- The missing members can decide a job exactly when one of the sides would hold the
threshold with all of their stake. -/
theorem resolvable_iff (members : ∀ vote ∈ votes, vote.runnerId ∈ committee)
    (threshold : Weight) (stake : StakeMap) :
    Resolvable committee votes threshold stake ↔
      threshold.toNat + stakeOn stake (backers votes .fail) ≤ stakeSum stake committee ∨
        threshold.toNat + stakeOn stake (backers votes .pass) ≤ stakeSum stake committee := by
  have parts := stakeOn_missingMembers_add distinct members stake
  constructor
  · rintro ⟨assignment, decided⟩
    have pass := stakeOn_backers_assignedVotes_le votes distinct .pass assignment stake
    have fail := stakeOn_backers_assignedVotes_le votes distinct .fail assignment stake
    simp only [List.mem_cons, List.not_mem_nil, or_false] at decided
    rw [aggregate_decided_iff] at decided
    omega
  · intro reachable
    -- The whole missing stake goes to the side that it can carry over the threshold.
    rcases reachable with passes | fails
    · refine ⟨fun _ => .pass, ?_⟩
      simp only [List.mem_cons, List.not_mem_nil, or_false]
      rw [aggregate_decided_iff, stakeOn_backers_assignedVotes_const distinct .pass]
      exact Or.inl (by omega)
    · refine ⟨fun _ => .fail, ?_⟩
      simp only [List.mem_cons, List.not_mem_nil, or_false]
      rw [aggregate_decided_iff, stakeOn_backers_assignedVotes_const distinct .fail]
      exact Or.inr (by omega)

end Missing

/-! ## Runners outside of the committee -/

/-- The votes of the members of a committee. -/
def memberVotes (committee : List RunnerId) (votes : List Vote) : List Vote :=
  votes.filter fun vote => vote.runnerId ∈ committee

/-- The stakes with those of all runners outside of a committee set to zero. -/
def memberStake (committee : List RunnerId) (stake : StakeMap) : StakeMap :=
  stake.adjust fun runner weight => if runner ∈ committee then weight else 0

section Outside

variable (committee : List RunnerId) (votes : List Vote) (stake : StakeMap)

theorem weightOf_memberStake (runner : RunnerId) :
    weightOf (memberStake committee stake) runner =
      if runner ∈ committee then weightOf stake runner else 0 := by
  rw [weightOf, memberStake, Table.lookup_adjust, weightOf]
  cases stake.lookup runner with
  | none => simp
  | some weight => rfl

theorem lastVote_memberVotes (runner : RunnerId) :
    lastVote (memberVotes committee votes) runner =
      if runner ∈ committee then lastVote votes runner else none := by
  simp only [lastVote, memberVotes, ← List.filter_reverse, List.find?_filter]
  by_cases member : runner ∈ committee
  · rw [if_pos member]
    congr 2
    funext vote
    by_cases same : vote.runnerId = runner <;> simp [same, member]
  · rw [if_neg member, Option.map_eq_none_iff, List.find?_eq_none]
    intro vote _ found
    simp only [decide_eq_true_eq, Bool.decide_and, Bool.and_eq_true] at found
    exact member (found.2 ▸ found.1)

theorem backers_memberVotes (side : VoteResult) :
    backers (memberVotes committee votes) side = backers votes side ∩ committee.toFinset := by
  ext runner
  rw [mem_backers, lastVote_memberVotes, Finset.mem_inter, mem_backers, List.mem_toFinset]
  by_cases member : runner ∈ committee <;> simp [member]

/-- Only members keep their stake. -/
theorem stakeOn_memberStake (runners : Finset RunnerId) :
    stakeOn (memberStake committee stake) runners =
      stakeOn stake (runners ∩ committee.toFinset) := by
  rw [stakeOn, stakeOn, weightOn, weightOn, ← Finset.sum_ite_mem]
  apply Finset.sum_congr rfl
  intro runner _
  rw [weightOf_memberStake]
  by_cases member : runner ∈ committee <;> simp [member]

/-- Runners that the map does not list have no stake. -/
theorem stakeOn_keys_inter (runners : Finset RunnerId) :
    stakeOn stake (stake.keys.toFinset ∩ runners) = stakeOn stake runners := by
  rw [stakeOn, stakeOn, weightOn, weightOn]
  apply Finset.sum_subset Finset.inter_subset_right
  intro runner member unlisted
  rw [weightOf_eq_zero]
  · rfl
  · intro listed
    exact unlisted (Finset.mem_inter.mpr ⟨listed, member⟩)

theorem totalStake_memberStake :
    totalStake (memberStake committee stake) = stakeOn stake committee.toFinset := by
  rw [totalStake_eq_stakeOn, stakeOn_memberStake, memberStake, Table.keys_adjust,
    stakeOn_keys_inter]

variable {committee} in
/-- A member has voted exactly when one of the members' votes is theirs. -/
theorem mem_voters_memberVotes {runner : RunnerId} (member : runner ∈ committee) :
    runner ∈ ((memberVotes committee votes).map Vote.runnerId).toFinset ↔
      runner ∈ (votes.map Vote.runnerId).toFinset := by
  simp only [memberVotes, List.mem_toFinset, List.mem_map, List.mem_filter, decide_eq_true_eq]
  constructor
  · rintro ⟨vote, ⟨cast, -⟩, rfl⟩
    exact ⟨vote, cast, rfl⟩
  · rintro ⟨vote, cast, rfl⟩
    exact ⟨vote, ⟨cast, member⟩, rfl⟩

/-- Responders, missing members, their stake and the threshold are the committee's
alone. -/
theorem resolveWithDropouts_members (thresholdFn : Weight → Weight) :
    resolveWithDropouts committee (memberVotes committee votes) (memberStake committee stake)
        thresholdFn =
      { resolveWithDropouts committee votes stake thresholdFn with
        outcome := aggregate (memberVotes committee votes)
          (resolveWithDropouts committee votes stake thresholdFn).threshold
          (memberStake committee stake) } := by
  have responding : (committee.filter fun runner =>
      runner ∈ ((memberVotes committee votes).map Vote.runnerId).toFinset) =
      committee.filter fun runner => runner ∈ (votes.map Vote.runnerId).toFinset := by
    apply List.filter_congr
    intro runner member
    rw [decide_eq_decide, mem_voters_memberVotes votes member]
  have missing : (committee.filter fun runner =>
      runner ∉ ((memberVotes committee votes).map Vote.runnerId).toFinset) =
      committee.filter fun runner => runner ∉ (votes.map Vote.runnerId).toFinset := by
    apply List.filter_congr
    intro runner member
    rw [decide_eq_decide, mem_voters_memberVotes votes member]
  have weights : (committee.filter fun runner =>
      runner ∈ (votes.map Vote.runnerId).toFinset).map
        (weightOf (memberStake committee stake)) =
      (committee.filter fun runner =>
        runner ∈ (votes.map Vote.runnerId).toFinset).map (weightOf stake) := by
    apply List.map_congr_left
    intro runner responded
    rw [weightOf_memberStake, if_pos (List.mem_of_mem_filter responded)]
  simp only [resolveWithDropouts, responding, missing, weights]

/-- The stake of the members that back a side. -/
def memberBacking (side : VoteResult) : Nat :=
  stakeOn stake (backers votes side ∩ committee.toFinset)

/-- The stake of the other runners that back a side. -/
def outsideBacking (side : VoteResult) : Nat :=
  stakeOn stake (backers votes side \ committee.toFinset)

/-- The stake of the runners outside of the committee. -/
def outsideStake : Nat :=
  stakeOn stake (stake.keys.toFinset \ committee.toFinset)

theorem stakeOn_inter_add_sdiff (runners members : Finset RunnerId) :
    stakeOn stake (runners ∩ members) + stakeOn stake (runners \ members) =
      stakeOn stake runners := by
  rw [stakeOn, stakeOn, stakeOn]
  exact Finset.sum_inter_add_sum_sdiff _ _ _

theorem memberBacking_add_outsideBacking (side : VoteResult) :
    memberBacking committee votes stake side + outsideBacking committee votes stake side =
      stakeOn stake (backers votes side) :=
  stakeOn_inter_add_sdiff _ _ _

theorem stakeOn_add_outsideStake :
    stakeOn stake committee.toFinset + outsideStake committee stake = totalStake stake := by
  rw [totalStake_eq_stakeOn, ← stakeOn_keys_inter stake committee.toFinset]
  exact stakeOn_inter_add_sdiff _ _ _

theorem outsideBacking_le (side : VoteResult) :
    outsideBacking committee votes stake side ≤ outsideStake committee stake := by
  rw [outsideBacking, ← stakeOn_keys_inter, outsideStake]
  apply weightOn_mono
  intro runner backs
  simp only [Finset.mem_inter, Finset.mem_sdiff] at backs ⊢
  exact ⟨backs.1, backs.2.2⟩

/-- Under a threshold, the votes and the stake of the runners outside of the committee are
too small to matter. -/
structure OutsidersNeutral (threshold : Nat) : Prop where
  /-- Their votes do not fail a job that the members do not fail. -/
  failing : memberBacking committee votes stake .fail < threshold →
    memberBacking committee votes stake .fail + outsideBacking committee votes stake .fail <
      threshold
  /-- Their votes do not pass a job that the members leave undecided. -/
  passing : memberBacking committee votes stake .fail < threshold →
    memberBacking committee votes stake .pass < threshold →
    memberBacking committee votes stake .pass + outsideBacking committee votes stake .pass <
      threshold
  /-- Their stake does not reopen a vote on which the members are deadlocked. -/
  reopening : memberBacking committee votes stake .fail < threshold →
    memberBacking committee votes stake .pass < threshold →
    stakeOn stake committee.toFinset % 2 ^ 64 < threshold +
      min (memberBacking committee votes stake .pass)
        (memberBacking committee votes stake .fail) →
    (stakeOn stake committee.toFinset + outsideStake committee stake) % 2 ^ 64 < threshold +
      min (memberBacking committee votes stake .pass + outsideBacking committee votes stake .pass)
        (memberBacking committee votes stake .fail + outsideBacking committee votes stake .fail)
  /-- Nor is it so large that the sum of an open vote wraps around below what is needed. -/
  wrapping : memberBacking committee votes stake .fail < threshold →
    memberBacking committee votes stake .pass < threshold →
    2 ^ 64 ≤ stakeOn stake committee.toFinset % 2 ^ 64 + outsideStake committee stake →
    threshold + min (memberBacking committee votes stake .pass)
      (memberBacking committee votes stake .fail) ≤ stakeOn stake committee.toFinset % 2 ^ 64 →
    threshold +
      min (memberBacking committee votes stake .pass + outsideBacking committee votes stake .pass)
        (memberBacking committee votes stake .fail + outsideBacking committee votes stake .fail) ≤
      (stakeOn stake committee.toFinset + outsideStake committee stake) % 2 ^ 64

/-- Without a wrapped sum an open vote stays open, since the outsiders bring at least the stake
that they vote with. -/
theorem outcomeFor_members_eq_iff (threshold : Nat) :
    outcomeFor threshold (memberBacking committee votes stake .pass)
        (memberBacking committee votes stake .fail) (stakeOn stake committee.toFinset % 2 ^ 64) =
      outcomeFor threshold (stakeOn stake (backers votes .pass))
        (stakeOn stake (backers votes .fail)) (totalStake stake % 2 ^ 64) ↔
      OutsidersNeutral committee votes stake threshold := by
  have pass := memberBacking_add_outsideBacking committee votes stake .pass
  have fail := memberBacking_add_outsideBacking committee votes stake .fail
  have total := stakeOn_add_outsideStake committee stake
  have passLe := outsideBacking_le committee votes stake .pass
  have failLe := outsideBacking_le committee votes stake .fail
  rw [outcomeFor_eq_outcomeFor_iff, ← pass, ← fail, ← total]
  constructor
  · rintro ⟨failing, decided, reachable⟩
    constructor
    · omega
    · omega
    · omega
    · omega
  · rintro ⟨failing, passing, reopening, wrapping⟩
    omega

/-- Removing the votes and the stake of the runners outside of the committee leaves the
resolution as it is exactly when they are neutral under the threshold of the responding
members' stake. -/
theorem resolveWithDropouts_members_eq_iff (thresholdFn : Weight → Weight) :
    resolveWithDropouts committee (memberVotes committee votes) (memberStake committee stake)
        thresholdFn = resolveWithDropouts committee votes stake thresholdFn ↔
      OutsidersNeutral committee votes stake
        (thresholdFn ((respondingMembers committee votes).map (weightOf stake)).sum).toNat := by
  have outcomes : resolveWithDropouts committee (memberVotes committee votes)
        (memberStake committee stake) thresholdFn =
        resolveWithDropouts committee votes stake thresholdFn ↔
      aggregate (memberVotes committee votes)
          (thresholdFn ((respondingMembers committee votes).map (weightOf stake)).sum)
          (memberStake committee stake) =
        aggregate votes
          (thresholdFn ((respondingMembers committee votes).map (weightOf stake)).sum) stake := by
    rw [resolveWithDropouts_members]
    simp only [resolveWithDropouts, respondingMembers, PartialOutcome.mk.injEq, and_true]
  rw [outcomes, aggregate_eq_outcomeFor, aggregate_eq_outcomeFor, ← outcomeFor_members_eq_iff]
  simp only [stakeOn_memberStake, backers_memberVotes, totalStake_memberStake,
    Finset.inter_assoc, Finset.inter_self, memberBacking]

end Outside

/-- Two members of stake three and an outsider of stake one hundred. -/
def outsiderStake : StakeMap :=
  Table.collect [(1, 3), (2, 3), (9, 100)]

/-- The outsider's vote fails a job that the responding member passes, and its stake alone
keeps a job open on which the members are tied. -/
theorem outsider_changes_outcome :
    ((resolveWithDropouts [1, 2] [⟨1, .pass⟩, ⟨9, .fail⟩] outsiderStake
        twoThirdsThreshold).outcome = .fail ∧
      (resolveWithDropouts [1, 2] (memberVotes [1, 2] [⟨1, .pass⟩, ⟨9, .fail⟩])
        (memberStake [1, 2] outsiderStake) twoThirdsThreshold).outcome = .pass) ∧
    (resolveWithDropouts [1, 2] [⟨1, .pass⟩, ⟨2, .fail⟩] outsiderStake
        twoThirdsThreshold).outcome = .retry ∧
      (resolveWithDropouts [1, 2] (memberVotes [1, 2] [⟨1, .pass⟩, ⟨2, .fail⟩])
        (memberStake [1, 2] outsiderStake) twoThirdsThreshold).outcome = .escalate := by
  decide +kernel

end Cosaci.State
