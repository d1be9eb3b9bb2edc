import Cosaci.Foundation.Coalition
import Cosaci.Foundation.Table
import Cosaci.Foundation.Word

/-!
# Quorum aggregation

The stake-weighted vote count of `cosaci-core`'s `quorum` module.  Votes are
reduced to the last vote of each runner, the two sides are added up with
saturating arithmetic in the iteration order of the reduced map, and the total
stake is a wrapping sum.
-/

namespace Cosaci.Core

open Foundation

/-- Identity of a runner casting a vote. -/
abbrev RunnerId := UInt64

/-- Identity of a job in the coordinator, its journal and its leases. -/
abbrev JobId := UInt64

/-- Voting weight derived from a runner's stake. -/
abbrev Weight := UInt64

/-- Current voting weight by runner. -/
abbrev StakeMap := Table RunnerId Weight

/-- A runner's claim about a job's outcome. -/
inductive VoteResult where
  | pass
  | fail
  deriving DecidableEq, Repr

/-- One vote submission. -/
structure Vote where
  runnerId : RunnerId
  result : VoteResult
  deriving DecidableEq, Repr

/-- Quorum outcome. -/
inductive Outcome where
  | pass
  | fail
  | retry
  | escalate
  deriving DecidableEq, Repr

/-- A runner's weight; runners without a stake entry weigh nothing. -/
def weightOf (stake : StakeMap) (runner : RunnerId) : Weight :=
  (stake.lookup runner).getD 0

theorem weightOf_insert (stake : StakeMap) (runner other : RunnerId) (weight : Weight) :
    weightOf (stake.insert runner weight) other =
      if other = runner then weight else weightOf stake other := by
  rw [weightOf, weightOf, Table.lookup_insert_eq]
  split
  · rfl
  · rfl

/-- The last vote of every runner. -/
def latest (votes : List Vote) : Table RunnerId VoteResult :=
  Table.collect (votes.map fun vote => (vote.runnerId, vote.result))

/-- Accumulated pass and fail weight over the reduced votes, in the order in
which they are visited. -/
def tally (stake : StakeMap) (entries : List (Sigma fun _ : RunnerId => VoteResult)) :
    Weight × Weight :=
  entries.foldl (fun weights entry =>
    match entry.2 with
    | .pass => (saturatingAdd weights.1 (weightOf stake entry.1), weights.2)
    | .fail => (weights.1, saturatingAdd weights.2 (weightOf stake entry.1))) (0, 0)

/-- Aggregate a vote slice into a quorum outcome. -/
def aggregate (votes : List Vote) (threshold : Weight) (stake : StakeMap) : Outcome :=
  let (passWeight, failWeight) := tally stake (latest votes).entries
  -- Safety bias: the failing side is examined first.
  if threshold ≤ failWeight then
    .fail
  else if threshold ≤ passWeight then
    .pass
  else
    let totalStake := (stake.entries.map Sigma.snd).sum
    let votedStake := saturatingAdd passWeight failWeight
    let remaining := saturatingSub totalStake votedStake
    let passReachable := decide (threshold ≤ saturatingAdd passWeight remaining)
    let failReachable := decide (threshold ≤ saturatingAdd failWeight remaining)
    if !passReachable && !failReachable then .escalate else .retry

/-! ## What the tally counts -/

/-- The last vote of one runner, if that runner voted. -/
def lastVote (votes : List Vote) (runner : RunnerId) : Option VoteResult :=
  (votes.reverse.find? fun vote => vote.runnerId = runner).map Vote.result

@[simp] theorem lookup_latest (votes : List Vote) (runner : RunnerId) :
    (latest votes).lookup runner = lastVote votes runner := by
  simp only [latest, Table.lookup_collect, Table.lastValue, lastVote, ← List.map_reverse,
    List.find?_map, Option.map_map]
  rfl

variable {runner : RunnerId} {votes : List Vote} {stake : StakeMap} {threshold : Weight}
  {first second : List Vote}

theorem lastVote_isSome :
    (lastVote votes runner).isSome = true ↔ ∃ vote ∈ votes, vote.runnerId = runner := by
  simp [lastVote]

/-- The last vote of a runner is one of the votes cast. -/
theorem mem_of_lastVote {result : VoteResult} (last : lastVote votes runner = some result) :
    ⟨runner, result⟩ ∈ votes := by
  rcases Option.map_eq_some_iff.mp last with ⟨vote, found, same⟩
  have named : vote.runnerId = runner := by simpa using List.find?_some found
  have member : vote ∈ votes := List.mem_reverse.mp (List.mem_of_find?_eq_some found)
  rcases vote with ⟨voter, side⟩
  cases named
  cases same
  exact member

/-- The runners whose last vote is `side`. -/
def backers (votes : List Vote) (side : VoteResult) : Finset RunnerId :=
  (latest votes).keysWhere fun result => result == side

@[simp] theorem mem_backers {side : VoteResult} :
    runner ∈ backers votes side ↔ lastVote votes runner = some side := by
  simp [backers]

/-- Exact stake of a set of runners. -/
def stakeOn (stake : StakeMap) (runners : Finset RunnerId) : Nat :=
  weightOn (fun runner => (weightOf stake runner).toNat) runners

theorem stakeOn_union (stake : StakeMap) {left right : Finset RunnerId}
    (disjoint : Disjoint left right) :
    stakeOn stake (left ∪ right) = stakeOn stake left + stakeOn stake right :=
  Finset.sum_union disjoint

/-- Exact stake of the whole map. -/
def totalStake (stake : StakeMap) : Nat :=
  (stake.entries.map fun entry => entry.2.toNat).sum

theorem totalStake_eq_stakeOn (stake : StakeMap) :
    totalStake stake = stakeOn stake stake.keys.toFinset := by
  rw [totalStake, Table.sum_values stake UInt64.toNat]
  apply Finset.sum_congr rfl
  intro runner _
  cases found : stake.lookup runner <;> simp [weightOf, found]

theorem weightOf_eq_zero (unknown : runner ∉ stake.keys.toFinset) : weightOf stake runner = 0 := by
  have missing : stake.lookup runner = none := by
    rw [AList.lookup_eq_none, AList.mem_keys]
    simpa using unknown
  simp [weightOf, missing]

/-- No set of runners holds more than the whole map. -/
theorem stakeOn_le_totalStake (stake : StakeMap) (runners : Finset RunnerId) :
    stakeOn stake runners ≤ totalStake stake := by
  rw [totalStake_eq_stakeOn]
  apply weightOn_le_population
  intro runner unknown
  rw [weightOf_eq_zero unknown]
  rfl

/-- Exact stake of a list of runners. -/
def stakeSum (stake : StakeMap) (runners : List RunnerId) : Nat :=
  (runners.map fun runner => (weightOf stake runner).toNat).sum

theorem stakeSum_eq_stakeOn (stake : StakeMap) {runners : List RunnerId}
    (distinct : runners.Nodup) : stakeSum stake runners = stakeOn stake runners.toFinset :=
  (List.sum_toFinset _ distinct).symm

/-- Weights of the entries on one side, in visiting order. -/
private def sideWeights (stake : StakeMap) (side : VoteResult)
    (entries : List (Sigma fun _ : RunnerId => VoteResult)) : List Weight :=
  (entries.filter fun entry => entry.2 == side).map fun entry => weightOf stake entry.1

private theorem tally_eq_foldl (stake : StakeMap)
    (entries : List (Sigma fun _ : RunnerId => VoteResult)) (start : Weight × Weight) :
    entries.foldl (fun weights entry =>
      match entry.2 with
      | .pass => (saturatingAdd weights.1 (weightOf stake entry.1), weights.2)
      | .fail => (weights.1, saturatingAdd weights.2 (weightOf stake entry.1))) start =
    ((sideWeights stake .pass entries).foldl saturatingAdd start.1,
      (sideWeights stake .fail entries).foldl saturatingAdd start.2) := by
  induction entries generalizing start with
  | nil => rfl
  | cons entry rest ih =>
      rw [List.foldl_cons, ih]
      rcases entry with ⟨runner, result⟩
      cases result <;> simp [sideWeights]

private theorem toNat_foldl_sideWeights (stake : StakeMap) (side : VoteResult)
    (entries : List (Sigma fun _ : RunnerId => VoteResult)) :
    ((sideWeights stake side entries).foldl saturatingAdd 0).toNat =
      min ((entries.filter fun entry => entry.2 == side).map
        fun entry => (weightOf stake entry.1).toNat).sum maxWord := by
  rw [toNat_foldl_saturatingAdd]
  simp [sideWeights, Function.comp_def]

/-- One side of the reduced votes adds up to the stake of its backers. -/
private theorem toNat_foldl_latest (stake : StakeMap) (votes : List Vote) (side : VoteResult) :
    ((sideWeights stake side (latest votes).entries).foldl saturatingAdd 0).toNat =
      min (stakeOn stake (backers votes side)) maxWord := by
  rw [toNat_foldl_sideWeights,
    Table.sum_filter_entries (fun result => result == side) (latest votes)
      fun runner => (weightOf stake runner).toNat]
  rfl

theorem toNat_tally_pass (stake : StakeMap) (votes : List Vote) :
    (tally stake (latest votes).entries).1.toNat =
      min (stakeOn stake (backers votes .pass)) maxWord := by
  rw [tally, tally_eq_foldl]
  exact toNat_foldl_latest stake votes .pass

theorem toNat_tally_fail (stake : StakeMap) (votes : List Vote) :
    (tally stake (latest votes).entries).2.toNat =
      min (stakeOn stake (backers votes .fail)) maxWord := by
  rw [tally, tally_eq_foldl]
  exact toNat_foldl_latest stake votes .fail

/-- A threshold is a word, so saturation never hides that it was reached. -/
theorem threshold_le_tally_pass :
    threshold ≤ (tally stake (latest votes).entries).1 ↔
      threshold.toNat ≤ stakeOn stake (backers votes .pass) := by
  have bound := toNat_le_maxWord threshold
  rw [UInt64.le_iff_toNat_le, toNat_tally_pass]
  omega

theorem threshold_le_tally_fail :
    threshold ≤ (tally stake (latest votes).entries).2 ↔
      threshold.toNat ≤ stakeOn stake (backers votes .fail) := by
  have bound := toNat_le_maxWord threshold
  rw [UInt64.le_iff_toNat_le, toNat_tally_fail]
  omega

/-! ## The outcome in closed form -/

/-- The outcome as a function of the stake behind the two sides and of a total: an
undecided vote can still be decided when the total leaves the threshold to the larger
side. -/
def outcomeFor (threshold pass fail total : Nat) : Outcome :=
  if threshold ≤ fail then .fail
  else if threshold ≤ pass then .pass
  else if threshold + min pass fail ≤ total then .retry
  else .escalate

theorem outcomeFor_eq_fail_iff {threshold pass fail total : Nat} :
    outcomeFor threshold pass fail total = .fail ↔ threshold ≤ fail := by
  rw [outcomeFor]
  split_ifs <;> simp only [true_iff, false_iff] <;> omega

theorem outcomeFor_eq_pass_iff {threshold pass fail total : Nat} :
    outcomeFor threshold pass fail total = .pass ↔ fail < threshold ∧ threshold ≤ pass := by
  rw [outcomeFor]
  split_ifs <;> simp only [true_iff, false_iff] <;> omega

theorem outcomeFor_eq_retry_iff {threshold pass fail total : Nat} :
    outcomeFor threshold pass fail total = .retry ↔
      fail < threshold ∧ pass < threshold ∧ threshold + min pass fail ≤ total := by
  rw [outcomeFor]
  split_ifs <;> simp only [true_iff, false_iff] <;> omega

theorem outcomeFor_eq_escalate_iff {threshold pass fail total : Nat} :
    outcomeFor threshold pass fail total = .escalate ↔
      fail < threshold ∧ pass < threshold ∧ total < threshold + min pass fail := by
  rw [outcomeFor]
  split_ifs <;> simp only [true_iff, false_iff] <;> omega

/-- Two outcomes agree exactly when they agree on whether the failing side decides, on
whether either side does and, if neither does, on whether the total leaves the
threshold to one of them. -/
theorem outcomeFor_eq_outcomeFor_iff {threshold pass fail total pass' fail' total' : Nat} :
    outcomeFor threshold pass fail total = outcomeFor threshold pass' fail' total' ↔
      (threshold ≤ fail ↔ threshold ≤ fail') ∧
      (threshold ≤ pass ∨ threshold ≤ fail ↔ threshold ≤ pass' ∨ threshold ≤ fail') ∧
      (threshold ≤ pass ∨ threshold ≤ fail ∨
        (threshold + min pass fail ≤ total ↔ threshold + min pass' fail' ≤ total')) := by
  rw [outcomeFor, outcomeFor]
  split_ifs <;> simp only [true_iff, false_iff] <;> omega

/-- The code adds the stakes up modulo the word size. -/
theorem toNat_sum_stakes (stake : StakeMap) :
    (stake.entries.map Sigma.snd).sum.toNat = totalStake stake % 2 ^ 64 := by
  rw [toNat_sum, List.map_map]
  rfl

/-- The sides saturate only above every threshold, so that the outcome is the one of
the exact sides and of the wrapped total. -/
theorem aggregate_eq_outcomeFor (votes : List Vote) (threshold : Weight) (stake : StakeMap) :
    aggregate votes threshold stake =
      outcomeFor threshold.toNat (stakeOn stake (backers votes .pass))
        (stakeOn stake (backers votes .fail)) (totalStake stake % 2 ^ 64) := by
  have bound := toNat_le_maxWord threshold
  have word : totalStake stake % 2 ^ 64 ≤ maxWord := by
    simp only [maxWord]
    omega
  have pass := toNat_tally_pass stake votes
  have fail := toNat_tally_fail stake votes
  simp only [aggregate, outcomeFor, threshold_le_tally_fail, threshold_le_tally_pass]
  by_cases failed : threshold.toNat ≤ stakeOn stake (backers votes .fail)
  · rw [if_pos failed, if_pos failed]
  by_cases passed : threshold.toNat ≤ stakeOn stake (backers votes .pass)
  · rw [if_neg failed, if_neg failed, if_pos passed, if_pos passed]
  rw [if_neg failed, if_neg passed, if_neg failed, if_neg passed, ← ite_not]
  congr 1
  simp only [Bool.and_eq_true, Bool.not_eq_true', decide_eq_false_iff_not,
    UInt64.le_iff_toNat_le, toNat_saturatingAdd, toNat_saturatingSub, toNat_sum_stakes,
    pass, fail, eq_iff_iff]
  omega

/-- `Fail` is returned exactly when the failing side holds the threshold. -/
theorem aggregate_eq_fail_iff :
    aggregate votes threshold stake = .fail ↔
      threshold.toNat ≤ stakeOn stake (backers votes .fail) := by
  rw [aggregate_eq_outcomeFor, outcomeFor_eq_fail_iff]

/-- `Pass` is returned exactly when the passing side holds the threshold and the
failing side does not. -/
theorem aggregate_eq_pass_iff :
    aggregate votes threshold stake = .pass ↔
      stakeOn stake (backers votes .fail) < threshold.toNat ∧
        threshold.toNat ≤ stakeOn stake (backers votes .pass) := by
  rw [aggregate_eq_outcomeFor, outcomeFor_eq_pass_iff]

/-! ## Both sides of a vote -/

/-- When every vote passes, the voters' stake alone decides. -/
theorem aggregate_eq_pass_iff_of_unanimous (unanimous : ∀ vote ∈ votes, vote.result = .pass) :
    aggregate votes threshold stake = .pass ↔
      0 < threshold.toNat ∧
        threshold.toNat ≤ stakeOn stake (votes.map Vote.runnerId).toFinset := by
  have lastPasses : ∀ runner result, lastVote votes runner = some result → result = .pass :=
    fun runner result last => unanimous _ (mem_of_lastVote last)
  have noFailure : backers votes .fail = ∅ := by
    rw [Finset.eq_empty_iff_forall_notMem]
    intro runner failed
    cases lastPasses runner .fail (mem_backers.mp failed)
  have everyone : backers votes .pass = (votes.map Vote.runnerId).toFinset := by
    ext runner
    rw [mem_backers, List.mem_toFinset, List.mem_map]
    constructor
    · intro last
      exact lastVote_isSome.mp (Option.isSome_of_eq_some last)
    · intro voted
      rcases Option.isSome_iff_exists.mp (lastVote_isSome.mpr voted) with ⟨result, last⟩
      rw [last, lastPasses runner result last]
  rw [aggregate_eq_pass_iff, noFailure, everyone]
  rfl

/-- The outcome depends on the two sides only. -/
theorem aggregate_eq_of_backers (same : ∀ side, backers first side = backers second side)
    (threshold : Weight) (stake : StakeMap) :
    aggregate first threshold stake = aggregate second threshold stake := by
  rw [aggregate_eq_outcomeFor, aggregate_eq_outcomeFor, same, same]

/-- Every voter is on one of the two sides. -/
theorem backers_union (votes : List Vote) :
    backers votes .pass ∪ backers votes .fail = (votes.map Vote.runnerId).toFinset := by
  ext runner
  rw [Finset.mem_union, mem_backers, mem_backers, List.mem_toFinset, List.mem_map,
    ← lastVote_isSome, Option.isSome_iff_exists]
  constructor
  · rintro (passed | failed)
    · exact ⟨.pass, passed⟩
    · exact ⟨.fail, failed⟩
  · rintro ⟨_ | _, last⟩
    · exact Or.inl last
    · exact Or.inr last

/-- The two sides hold together the stake of the voters. -/
theorem stakeOn_backers_add (votes : List Vote) (stake : StakeMap) :
    stakeOn stake (backers votes .pass) + stakeOn stake (backers votes .fail) =
      stakeOn stake (votes.map Vote.runnerId).toFinset := by
  have disjoint : Disjoint (backers votes .pass) (backers votes .fail) := by
    rw [Finset.disjoint_left]
    intro runner passed failed
    rw [mem_backers] at passed failed
    rw [passed] at failed
    cases failed
  rw [← backers_union, stakeOn_union stake disjoint]

/-- The two sides hold together at most the whole stake. -/
theorem stakeOn_backers_add_le (votes : List Vote) (stake : StakeMap) :
    stakeOn stake (backers votes .pass) + stakeOn stake (backers votes .fail) ≤
      totalStake stake := by
  rw [stakeOn_backers_add]
  exact stakeOn_le_totalStake stake _

/-- A total that is a word is not wrapped. -/
theorem totalStake_mod_of_fits (fits : totalStake stake ≤ maxWord) :
    totalStake stake % 2 ^ 64 = totalStake stake := by
  apply Nat.mod_eq_of_lt
  simp only [maxWord] at fits
  omega

/-- `Escalate` is returned exactly when neither side can reach the threshold, even
with all the stake that has not voted against it. -/
theorem aggregate_eq_escalate_iff (fits : totalStake stake ≤ maxWord) :
    aggregate votes threshold stake = .escalate ↔
      totalStake stake < threshold.toNat + stakeOn stake (backers votes .pass) ∧
        totalStake stake < threshold.toNat + stakeOn stake (backers votes .fail) := by
  have sides := stakeOn_backers_add_le votes stake
  rw [aggregate_eq_outcomeFor, totalStake_mod_of_fits fits, outcomeFor_eq_escalate_iff]
  omega

/-- A vote is decided when one of its sides holds the threshold. -/
theorem aggregate_decided_iff (votes : List Vote) (threshold : Weight) (stake : StakeMap) :
    (aggregate votes threshold stake = .pass ∨ aggregate votes threshold stake = .fail) ↔
      threshold.toNat ≤ stakeOn stake (backers votes .pass) ∨
        threshold.toNat ≤ stakeOn stake (backers votes .fail) := by
  rw [aggregate_eq_pass_iff, aggregate_eq_fail_iff]
  omega

/-- `Retry` is returned exactly when neither side holds the threshold but one of them
would with all the stake that has not voted against it. -/
theorem aggregate_eq_retry_iff (fits : totalStake stake ≤ maxWord) :
    aggregate votes threshold stake = .retry ↔
      (stakeOn stake (backers votes .pass) < threshold.toNat ∧
        stakeOn stake (backers votes .fail) < threshold.toNat) ∧
      (threshold.toNat + stakeOn stake (backers votes .pass) ≤ totalStake stake ∨
        threshold.toNat + stakeOn stake (backers votes .fail) ≤ totalStake stake) := by
  rw [aggregate_eq_outcomeFor, totalStake_mod_of_fits fits, outcomeFor_eq_retry_iff]
  omega

/-- Two thresholds give the same outcome exactly when they agree on whether the failing
side decides, on whether either side does, and on whether either side still can. -/
theorem aggregate_eq_aggregate_iff {first second : Weight} (fits : totalStake stake ≤ maxWord) :
    aggregate votes first stake = aggregate votes second stake ↔
      (first.toNat ≤ stakeOn stake (backers votes .fail) ↔
        second.toNat ≤ stakeOn stake (backers votes .fail)) ∧
      (first.toNat ≤ stakeOn stake (backers votes .pass) ∨
          first.toNat ≤ stakeOn stake (backers votes .fail) ↔
        second.toNat ≤ stakeOn stake (backers votes .pass) ∨
          second.toNat ≤ stakeOn stake (backers votes .fail)) ∧
      (totalStake stake < first.toNat + stakeOn stake (backers votes .pass) ∧
          totalStake stake < first.toNat + stakeOn stake (backers votes .fail) ↔
        totalStake stake < second.toNat + stakeOn stake (backers votes .pass) ∧
          totalStake stake < second.toNat + stakeOn stake (backers votes .fail)) := by
  rw [← aggregate_decided_iff, ← aggregate_decided_iff, ← aggregate_eq_fail_iff,
    ← aggregate_eq_fail_iff, ← aggregate_eq_escalate_iff fits, ← aggregate_eq_escalate_iff fits]
  cases aggregate votes first stake <;> cases aggregate votes second stake <;> simp

/-! ## Growing vote lists -/

/-- Without repeated voters, every vote is the last one of its runner. -/
theorem mem_backers_of_distinct (distinct : (votes.map Vote.runnerId).Nodup) {side : VoteResult} :
    runner ∈ backers votes side ↔ ⟨runner, side⟩ ∈ votes := by
  rw [mem_backers]
  constructor
  · exact mem_of_lastVote
  · intro cast
    rcases Option.isSome_iff_exists.mp (lastVote_isSome.mpr ⟨_, cast, rfl⟩) with ⟨last, found⟩
    have same := List.inj_on_of_nodup_map distinct (mem_of_lastVote found) cast rfl
    rw [found]
    exact congrArg (fun vote => some vote.result) same

/-- The order of the votes of distinct runners does not matter. -/
theorem aggregate_eq_of_perm (perm : first.Perm second)
    (distinct : (second.map Vote.runnerId).Nodup) (threshold : Weight) (stake : StakeMap) :
    aggregate first threshold stake = aggregate second threshold stake := by
  have alsoDistinct := (perm.map Vote.runnerId).nodup_iff.mpr distinct
  apply aggregate_eq_of_backers
  intro side
  ext runner
  rw [mem_backers_of_distinct alsoDistinct, mem_backers_of_distinct distinct, perm.mem_iff]

/-- With a threshold above half of the stake, further votes of other runners never
change an outcome once there is one. -/
theorem aggregate_append_of_decided {votes more : List Vote} (fits : totalStake stake ≤ maxWord)
    (majority : totalStake stake < 2 * threshold.toNat)
    (distinct : ((votes ++ more).map Vote.runnerId).Nodup)
    (decided : aggregate votes threshold stake ≠ .retry) :
    aggregate (votes ++ more) threshold stake = aggregate votes threshold stake := by
  have before : (votes.map Vote.runnerId).Nodup := by
    rw [List.map_append] at distinct
    exact (List.nodup_append.mp distinct).1
  have grows : ∀ side, stakeOn stake (backers votes side) ≤
      stakeOn stake (backers (votes ++ more) side) := by
    intro side
    apply weightOn_mono
    intro runner member
    rw [mem_backers_of_distinct before] at member
    rw [mem_backers_of_distinct distinct]
    exact List.mem_append_left more member
  have pass := grows .pass
  have fail := grows .fail
  have sides := stakeOn_backers_add_le (votes ++ more) stake
  cases outcome : aggregate votes threshold stake with
  | pass =>
      rw [aggregate_eq_pass_iff] at outcome ⊢
      omega
  | fail =>
      rw [aggregate_eq_fail_iff] at outcome ⊢
      omega
  | retry => exact False.elim (decided outcome)
  | escalate =>
      rw [aggregate_eq_escalate_iff fits] at outcome ⊢
      omega

/-! ## Quorum intersection -/

/-- Runners on opposite sides of two vote lists are Byzantine when every other
runner that appears in both lists voted the same way last. -/
theorem backers_inter_subset {byzantine : Finset RunnerId}
    (consistent : ∀ runner, runner ∉ byzantine →
      (∃ vote ∈ first, vote.runnerId = runner) → (∃ vote ∈ second, vote.runnerId = runner) →
      lastVote first runner = lastVote second runner) :
    backers first .pass ∩ backers second .fail ⊆ byzantine := by
  intro runner member
  rcases Finset.mem_inter.mp member with ⟨passed, failed⟩
  rw [mem_backers] at passed failed
  by_contra honest
  have inFirst := lastVote_isSome.mp (Option.isSome_of_eq_some passed)
  have inSecond := lastVote_isSome.mp (Option.isSome_of_eq_some failed)
  have same := consistent runner honest inFirst inSecond
  rw [passed, failed] at same
  cases same

/-- Byzantine quorum intersection: when the Byzantine stake and the total stake
are together below two thresholds, two vote lists that agree on every honest
common voter are never decided in opposite directions.  The wrapping total only
separates `retry` from `escalate`, so the result needs no bound on it. -/
theorem aggregate_pass_fail_exclusive (stake : StakeMap) (threshold : Weight)
    (byzantine : Finset RunnerId) (first second : List Vote)
    (consistent : ∀ runner, runner ∉ byzantine →
      (∃ vote ∈ first, vote.runnerId = runner) → (∃ vote ∈ second, vote.runnerId = runner) →
      lastVote first runner = lastVote second runner)
    (margin : stakeOn stake byzantine + totalStake stake < 2 * threshold.toNat) :
    ¬(aggregate first threshold stake = .pass ∧
      aggregate second threshold stake = .fail) := by
  rintro ⟨passed, failed⟩
  have passSide := (aggregate_eq_pass_iff.mp passed).2
  have failSide := aggregate_eq_fail_iff.mp failed
  have together : stakeOn stake (backers first .pass) +
      stakeOn stake (backers second .fail) ≤
      stakeOn stake stake.keys.toFinset + stakeOn stake byzantine := by
    apply weightOn_add_le
    · intro runner unknown
      rw [weightOf_eq_zero unknown]
      rfl
    · exact backers_inter_subset consistent
  rw [← totalStake_eq_stakeOn] at together
  omega

/-- Three runners of stake three, the third of which votes both ways. -/
def equivocatedStake : StakeMap :=
  Table.collect [(1, 3), (2, 3), (3, 3)]

theorem aggregate_pass_fail_exclusive_equivocation :
    aggregate [⟨1, .pass⟩, ⟨2, .pass⟩, ⟨3, .pass⟩] 7 equivocatedStake = .pass ∧
      ¬(aggregate [⟨1, .pass⟩, ⟨2, .pass⟩, ⟨3, .pass⟩] 7 equivocatedStake = .pass ∧
        aggregate [⟨1, .fail⟩, ⟨3, .fail⟩, ⟨1, .pass⟩] 7 equivocatedStake = .fail) := by
  refine ⟨by decide, ?_⟩
  apply aggregate_pass_fail_exclusive equivocatedStake 7 {3}
  · intro runner honest inFirst inSecond
    have other : ¬3 = runner := by
      intro equal
      exact honest (by simp [equal])
    rcases inSecond with ⟨vote, member, rfl⟩
    simp only [List.mem_cons, List.not_mem_nil, or_false] at member
    rcases member with rfl | rfl | rfl
    · rfl
    · exact False.elim (other rfl)
    · rfl
  · decide

end Cosaci.Core
