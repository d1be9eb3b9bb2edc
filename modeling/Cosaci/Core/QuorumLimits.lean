import Cosaci.Core.Quorum

/-!
# The limits of a quorum

The vote count of `cosaci-core` beside two readings of what it is for.  In unbounded
integers the same procedure has no wrapped total; the two differ only on votes that are
still open.  Over all continuations of a vote, `Escalate` says that no further runner
can decide it and `Retry` that some further runners can.
-/

namespace Cosaci.Core

open Foundation

/-! ## Unbounded integers -/

/-- The decision procedure of `aggregate` carried out in unbounded integers. -/
def exactAggregate (votes : List Vote) (threshold : Weight) (stake : StakeMap) : Outcome :=
  let passWeight := stakeOn stake (backers votes .pass)
  let failWeight := stakeOn stake (backers votes .fail)
  if threshold.toNat ≤ failWeight then
    .fail
  else if threshold.toNat ≤ passWeight then
    .pass
  else
    let remaining := totalStake stake - (passWeight + failWeight)
    if passWeight + remaining < threshold.toNat ∧ failWeight + remaining < threshold.toNat then
      .escalate
    else
      .retry

theorem exactAggregate_eq_outcomeFor (votes : List Vote) (threshold : Weight)
    (stake : StakeMap) :
    exactAggregate votes threshold stake =
      outcomeFor threshold.toNat (stakeOn stake (backers votes .pass))
        (stakeOn stake (backers votes .fail)) (totalStake stake) := by
  have sides := stakeOn_backers_add_le votes stake
  simp only [exactAggregate, outcomeFor]
  split_ifs <;> first | rfl | omega

/-- The code decides as the exact procedure does unless the vote is open, the exact total
leaves the threshold to one of its sides and the wrapped total does not. -/
theorem aggregate_eq_exactAggregate_iff (votes : List Vote) (threshold : Weight)
    (stake : StakeMap) :
    aggregate votes threshold stake = exactAggregate votes threshold stake ↔
      threshold.toNat ≤ stakeOn stake (backers votes .pass) ∨
      threshold.toNat ≤ stakeOn stake (backers votes .fail) ∨
      totalStake stake < threshold.toNat + min (stakeOn stake (backers votes .pass))
        (stakeOn stake (backers votes .fail)) ∨
      threshold.toNat + min (stakeOn stake (backers votes .pass))
        (stakeOn stake (backers votes .fail)) ≤ totalStake stake % 2 ^ 64 := by
  have wrapped := Nat.mod_le (totalStake stake) (2 ^ 64)
  rw [aggregate_eq_outcomeFor, exactAggregate_eq_outcomeFor, outcomeFor_eq_outcomeFor_iff]
  omega

/-- Two runners that hold half of the word size each. -/
def halfWordStake : StakeMap :=
  Table.collect [(1, 9223372036854775808), (2, 9223372036854775808)]

/-- The total of the two wraps to nothing, and a vote that either of them can decide is
escalated before it starts. -/
theorem aggregate_ne_exactAggregate_halfWord :
    totalStake halfWordStake = 2 ^ 64 ∧
      aggregate [] 9223372036854775808 halfWordStake = .escalate ∧
      exactAggregate [] 9223372036854775808 halfWordStake = .retry ∧
      aggregate [⟨1, .pass⟩] 9223372036854775808 halfWordStake = .pass := by
  decide +kernel

/-! ## Further votes -/

/-- A vote is decided by one of its sides. -/
def Decided (outcome : Outcome) : Prop :=
  outcome = .pass ∨ outcome = .fail

instance (outcome : Outcome) : Decidable (Decided outcome) :=
  inferInstanceAs (Decidable (_ ∨ _))

/-- The further votes are cast by runners that do not appear among the votes. -/
def FromOthers (votes more : List Vote) : Prop :=
  ∀ vote ∈ more, ∀ cast ∈ votes, vote.runnerId ≠ cast.runnerId

theorem lastVote_append (votes more : List Vote) (runner : RunnerId) :
    lastVote (votes ++ more) runner = (lastVote more runner).or (lastVote votes runner) := by
  simp only [lastVote, List.reverse_append, List.find?_append, Option.map_or]

section More

variable {votes more : List Vote} (others : FromOthers votes more)

include others in
theorem lastVote_eq_none_of_fromOthers {runner : RunnerId} {side : VoteResult}
    (last : lastVote more runner = some side) : lastVote votes runner = none := by
  rw [← Option.not_isSome_iff_eq_none, lastVote_isSome]
  rintro ⟨cast, member, rfl⟩
  exact others _ (mem_of_lastVote last) cast member rfl

include others in
/-- Further runners join the side they vote for. -/
theorem backers_append_of_fromOthers (side : VoteResult) :
    backers (votes ++ more) side = backers votes side ∪ backers more side := by
  ext runner
  rw [Finset.mem_union, mem_backers, mem_backers, mem_backers, lastVote_append]
  cases last : lastVote more runner with
  | none => simp
  | some result =>
      rw [lastVote_eq_none_of_fromOthers others last]
      simp

include others in
theorem stakeOn_backers_append_of_fromOthers (side : VoteResult) (stake : StakeMap) :
    stakeOn stake (backers (votes ++ more) side) =
      stakeOn stake (backers votes side) + stakeOn stake (backers more side) := by
  rw [backers_append_of_fromOthers others]
  apply stakeOn_union
  rw [Finset.disjoint_left]
  intro runner before after
  rw [mem_backers] at before after
  rw [lastVote_eq_none_of_fromOthers others after] at before
  cases before

end More

/-- The votes of those among the runners that have not voted, under an assignment. -/
def votesOfRest (runners : List RunnerId) (votes : List Vote)
    (assignment : RunnerId → VoteResult) : List Vote :=
  (runners.filter fun runner => runner ∉ (votes.map Vote.runnerId).toFinset).map
    fun runner => ⟨runner, assignment runner⟩

theorem fromOthers_votesOfRest (runners : List RunnerId) (votes : List Vote)
    (assignment : RunnerId → VoteResult) :
    FromOthers votes (votesOfRest runners votes assignment) := by
  intro vote member cast earlier same
  rcases List.mem_map.mp member with ⟨runner, rest, rfl⟩
  have silent : runner ∉ (votes.map Vote.runnerId).toFinset := by
    simpa using (List.mem_filter.mp rest).2
  apply silent
  rw [List.mem_toFinset, List.mem_map]
  exact ⟨cast, earlier, same.symm⟩

theorem backers_votesOfRest {runners : List RunnerId} (distinct : runners.Nodup)
    (votes : List Vote) (assignment : RunnerId → VoteResult) (side : VoteResult) :
    backers (votesOfRest runners votes assignment) side =
      (runners.toFinset \ (votes.map Vote.runnerId).toFinset).filter
        fun runner => assignment runner = side := by
  have apart : ((votesOfRest runners votes assignment).map Vote.runnerId).Nodup := by
    rw [votesOfRest, List.map_map]
    exact (distinct.filter _).map fun _ _ same => same
  ext runner
  rw [mem_backers_of_distinct apart]
  simp [votesOfRest, and_assoc]

/-- All runners with stake that have not voted, for one side. -/
def remainingVotes (votes : List Vote) (stake : StakeMap) (side : VoteResult) : List Vote :=
  votesOfRest stake.keys votes fun _ => side

/-- The remaining runners hold what the two sides do not. -/
theorem stakeOn_backers_remainingVotes (votes : List Vote) (stake : StakeMap)
    (side : VoteResult) :
    stakeOn stake (backers (remainingVotes votes stake side) side) +
      (stakeOn stake (backers votes .pass) + stakeOn stake (backers votes .fail)) =
        totalStake stake := by
  rw [remainingVotes, backers_votesOfRest stake.keys_nodup,
    Finset.filter_true_of_mem fun _ _ => rfl, stakeOn_backers_add,
    ← stakeOn_union stake Finset.sdiff_disjoint]
  apply Nat.le_antisymm
  · exact stakeOn_le_totalStake stake _
  · rw [totalStake_eq_stakeOn]
    apply weightOn_mono
    rw [Finset.sdiff_union_self_eq_union]
    exact Finset.subset_union_left

/-- Some further runners can decide a vote exactly when the total leaves the threshold to
one of its sides. -/
theorem exists_decided_append_iff (votes : List Vote) (threshold : Weight) (stake : StakeMap) :
    (∃ more, FromOthers votes more ∧ Decided (aggregate (votes ++ more) threshold stake)) ↔
      threshold.toNat + stakeOn stake (backers votes .pass) ≤ totalStake stake ∨
        threshold.toNat + stakeOn stake (backers votes .fail) ≤ totalStake stake := by
  constructor
  · rintro ⟨more, others, decided⟩
    have sides := stakeOn_backers_add_le (votes ++ more) stake
    rw [Decided, aggregate_decided_iff] at decided
    simp only [stakeOn_backers_append_of_fromOthers others] at decided sides
    omega
  · -- All the remaining stake goes to the side that it can carry over the threshold.
    have carried : ∀ side, threshold.toNat ≤ stakeOn stake (backers votes side) +
        stakeOn stake (backers (remainingVotes votes stake side) side) →
        ∃ more, FromOthers votes more ∧
          Decided (aggregate (votes ++ more) threshold stake) := by
      intro side reached
      have others : FromOthers votes (remainingVotes votes stake side) :=
        fromOthers_votesOfRest stake.keys votes fun _ => side
      refine ⟨remainingVotes votes stake side, others, ?_⟩
      rw [Decided, aggregate_decided_iff]
      rw [← stakeOn_backers_append_of_fromOthers others] at reached
      cases side with
      | pass => exact Or.inl reached
      | fail => exact Or.inr reached
    rintro (fails | passes)
    · apply carried .fail
      have rest := stakeOn_backers_remainingVotes votes stake .fail
      omega
    · apply carried .pass
      have rest := stakeOn_backers_remainingVotes votes stake .pass
      omega

/-- `Escalate` says that no runners outside of the vote can decide it, and `Retry` that
it is open and that some can. -/
theorem aggregate_open_iff_further_votes (votes : List Vote) (threshold : Weight)
    (stake : StakeMap) (fits : totalStake stake ≤ maxWord) :
    (aggregate votes threshold stake = .escalate ↔
      ∀ more, FromOthers votes more →
        ¬Decided (aggregate (votes ++ more) threshold stake)) ∧
    (aggregate votes threshold stake = .retry ↔
      ¬Decided (aggregate votes threshold stake) ∧
        ∃ more, FromOthers votes more ∧
          Decided (aggregate (votes ++ more) threshold stake)) := by
  constructor
  · have never : (∀ more, FromOthers votes more →
        ¬Decided (aggregate (votes ++ more) threshold stake)) ↔
        ¬∃ more, FromOthers votes more ∧
          Decided (aggregate (votes ++ more) threshold stake) := by
      simp only [not_exists, not_and]
    rw [never, exists_decided_append_iff, aggregate_eq_escalate_iff fits]
    omega
  · rw [exists_decided_append_iff, aggregate_eq_retry_iff fits, Decided, aggregate_decided_iff]
    omega

/-- Two runners of three on opposite sides, and a voter without stake. -/
theorem aggregate_open_iff_further_votes_split :
    totalStake equivocatedStake ≤ maxWord ∧
      (∀ more, FromOthers [⟨1, .pass⟩, ⟨2, .fail⟩, ⟨9, .fail⟩] more →
        ¬Decided (aggregate ([⟨1, .pass⟩, ⟨2, .fail⟩, ⟨9, .fail⟩] ++ more) 7
          equivocatedStake)) ∧
      ∃ more, FromOthers [⟨1, .pass⟩, ⟨2, .fail⟩, ⟨9, .fail⟩] more ∧
        Decided (aggregate ([⟨1, .pass⟩, ⟨2, .fail⟩, ⟨9, .fail⟩] ++ more) 6
          equivocatedStake) := by
  have fits : totalStake equivocatedStake ≤ maxWord := by decide
  have seven := aggregate_open_iff_further_votes
    [⟨1, .pass⟩, ⟨2, .fail⟩, ⟨9, .fail⟩] 7 equivocatedStake fits
  have six := aggregate_open_iff_further_votes
    [⟨1, .pass⟩, ⟨2, .fail⟩, ⟨9, .fail⟩] 6 equivocatedStake fits
  exact ⟨fits, seven.1.mp (by decide), (six.2.mp (by decide)).2⟩

end Cosaci.Core
