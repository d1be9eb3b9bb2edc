import Cosaci.Core.Quorum
import Cosaci.Foundation.Machine

/-!
# Collecting votes

The `Aggregator` of `cosaci-state` reruns the quorum function after every vote it
receives and freezes at the first terminal outcome; later votes are dropped.  With
a threshold above half of the stake, a frozen outcome is the outcome of all votes,
so the order of arrival does not matter.

A timer aggregates again without a new vote, which consumes the retry budget, and a
timeout ends the job.  Over any mixture of the three calls a terminal aggregator never
changes, and only the votes it holds make it pass or fail.
-/

namespace Cosaci.State

open Foundation Cosaci.Core

/-- Externally visible state of an aggregating job. -/
inductive AggregationState where
  | pending
  | pass
  | fail
  | escalate
  deriving DecidableEq, Repr

/-- The state that an outcome of the quorum function stands for. -/
def AggregationState.ofOutcome : Outcome → AggregationState
  | .pass => .pass
  | .fail => .fail
  | .escalate => .escalate
  | .retry => .pending

theorem AggregationState.ofOutcome_eq_pass {outcome : Outcome} :
    ofOutcome outcome = .pass ↔ outcome = .pass := by
  cases outcome <;> simp [ofOutcome]

theorem AggregationState.ofOutcome_eq_fail {outcome : Outcome} :
    ofOutcome outcome = .fail ↔ outcome = .fail := by
  cases outcome <;> simp [ofOutcome]

/-- The votes collected so far and the state they led to. -/
structure Aggregator where
  state : AggregationState
  votes : List Vote
  threshold : Weight
  stake : StakeMap
  retries : UInt32
  maxRetries : UInt32

namespace Aggregator

def withMaxRetries (threshold : Weight) (stake : StakeMap) (maxRetries : UInt32) :
    Aggregator where
  state := .pending
  votes := []
  threshold := threshold
  stake := stake
  retries := 0
  maxRetries := maxRetries

/-- An aggregator whose retries are not bounded in practice. -/
def new (threshold : Weight) (stake : StakeMap) : Aggregator :=
  withMaxRetries threshold stake 0xffffffff

def isTerminal (aggregator : Aggregator) : Bool :=
  match aggregator.state with
  | .pass | .fail | .escalate => true
  | .pending => false

/-- Append a vote and aggregate again; ignored in a terminal state. -/
def receiveVote (aggregator : Aggregator) (vote : Vote) : AggregationState × Aggregator :=
  if aggregator.isTerminal then
    (aggregator.state, aggregator)
  else
    let votes := aggregator.votes ++ [vote]
    let state := .ofOutcome (aggregate votes aggregator.threshold aggregator.stake)
    (state, { aggregator with votes := votes, state := state })

/-- `saturating_add(1)` on the retry counter. -/
def nextRetry (retries : UInt32) : UInt32 :=
  UInt32.ofNat (min (retries.toNat + 1) (2 ^ 32 - 1))

theorem toNat_nextRetry {retries : UInt32} (below : retries.toNat < 2 ^ 32 - 1) :
    (nextRetry retries).toNat = retries.toNat + 1 := by
  rw [nextRetry, UInt32.toNat_ofNat']
  omega

/-- Aggregate again without a new vote; an undecided vote consumes one retry, and one too
many escalates. -/
def triggerAggregation (aggregator : Aggregator) : AggregationState × Aggregator :=
  if aggregator.isTerminal then
    (aggregator.state, aggregator)
  else
    match aggregate aggregator.votes aggregator.threshold aggregator.stake with
    | .pass => (.pass, { aggregator with state := .pass })
    | .fail => (.fail, { aggregator with state := .fail })
    | .escalate => (.escalate, { aggregator with state := .escalate })
    | .retry =>
        let retries := nextRetry aggregator.retries
        let state := if aggregator.maxRetries < retries then .escalate else .pending
        (state, { aggregator with retries := retries, state := state })

/-- Force a terminal state: the one the votes decide, or escalation. -/
def timeout (aggregator : Aggregator) : AggregationState × Aggregator :=
  if aggregator.isTerminal then
    (aggregator.state, aggregator)
  else
    match aggregate aggregator.votes aggregator.threshold aggregator.stake with
    | .pass => (.pass, { aggregator with state := .pass })
    | .fail => (.fail, { aggregator with state := .fail })
    | _ => (.escalate, { aggregator with state := .escalate })

def machine : Machine Aggregator Vote AggregationState where
  step := receiveVote

/-! ## What an aggregator knows -/

/-- The aggregator has been given these votes: it holds all of them unless it is
frozen, and its state is the outcome of all of them once there is one. -/
structure Tracks (aggregator : Aggregator) (received : List Vote) (threshold : Weight)
    (stake : StakeMap) : Prop where
  sameThreshold : aggregator.threshold = threshold
  sameStake : aggregator.stake = stake
  outcome : aggregator.state = if received = [] then .pending
    else .ofOutcome (aggregate received threshold stake)
  held : aggregator.isTerminal = false → aggregator.votes = received

theorem tracks_new (threshold : Weight) (stake : StakeMap) :
    (new threshold stake).Tracks [] threshold stake :=
  ⟨rfl, rfl, rfl, fun _ => rfl⟩

variable {threshold : Weight} {stake : StakeMap} {aggregator : Aggregator}
  {received : List Vote}

/-- A frozen aggregator has been given votes that decide the job. -/
theorem Tracks.decided (tracks : aggregator.Tracks received threshold stake)
    (terminal : aggregator.isTerminal = true) :
    received ≠ [] ∧ aggregate received threshold stake ≠ .retry := by
  constructor
  · rintro rfl
    have pending := tracks.outcome
    rw [if_pos rfl] at pending
    rw [isTerminal, pending] at terminal
    cases terminal
  · intro undecided
    have pending := tracks.outcome
    rw [undecided] at pending
    simp only [AggregationState.ofOutcome, ite_self] at pending
    rw [isTerminal, pending] at terminal
    cases terminal

/-- Receiving a vote of a new runner keeps track of it, whether or not it is
dropped. -/
theorem Tracks.receiveVote (tracks : aggregator.Tracks received threshold stake)
    (fits : totalStake stake ≤ maxWord) (majority : totalStake stake < 2 * threshold.toNat)
    {vote : Vote} (distinct : ((received ++ [vote]).map Vote.runnerId).Nodup) :
    (aggregator.receiveVote vote).2.Tracks (received ++ [vote]) threshold stake := by
  have some : received ++ [vote] ≠ [] := List.append_ne_nil_of_right_ne_nil _ (by simp)
  unfold Aggregator.receiveVote
  split
  · next terminal =>
      rcases tracks.decided terminal with ⟨nonempty, decided⟩
      refine ⟨tracks.sameThreshold, tracks.sameStake, ?_, ?_⟩
      · rw [if_neg some, aggregate_append_of_decided fits majority distinct decided,
          tracks.outcome, if_neg nonempty]
      · intro live
        rw [terminal] at live
        cases live
  · next live =>
      have held := tracks.held (Bool.eq_false_iff.mpr live)
      refine ⟨tracks.sameThreshold, tracks.sameStake, ?_, ?_⟩
      · rw [if_neg some, ← held, ← tracks.sameThreshold, ← tracks.sameStake]
      · intro _
        rw [held]

/-- A whole run of votes of distinct runners. -/
theorem Tracks.final (tracks : aggregator.Tracks received threshold stake)
    (fits : totalStake stake ≤ maxWord) (majority : totalStake stake < 2 * threshold.toNat)
    {arriving : List Vote} (distinct : ((received ++ arriving).map Vote.runnerId).Nodup) :
    (machine.final aggregator arriving).Tracks (received ++ arriving) threshold stake := by
  induction arriving generalizing aggregator received with
  | nil =>
      rw [List.append_nil]
      exact tracks
  | cons vote rest ih =>
      have reordered : received ++ vote :: rest = (received ++ [vote]) ++ rest := by simp
      rw [reordered] at distinct ⊢
      have first : ((received ++ [vote]).map Vote.runnerId).Nodup := by
        rw [List.map_append] at distinct
        exact (List.nodup_append.mp distinct).1
      exact ih (tracks.receiveVote fits majority first) distinct

/-- Confluence: votes of distinct runners, received in any order, end in the state of
the quorum function on all of them; without a vote the aggregator stays pending. -/
theorem final_state_of_perm (stake : StakeMap) (threshold : Weight) (votes arrived : List Vote)
    (fits : totalStake stake ≤ maxWord) (majority : totalStake stake < 2 * threshold.toNat)
    (distinct : (votes.map Vote.runnerId).Nodup) (perm : arrived.Perm votes) :
    (machine.final (new threshold stake) arrived).state =
      if votes = [] then .pending else .ofOutcome (aggregate votes threshold stake) := by
  have arrivedDistinct := (perm.map Vote.runnerId).nodup_iff.mpr distinct
  have tracks := (tracks_new threshold stake).final fits majority
    (by rw [List.nil_append]; exact arrivedDistinct)
  have state := tracks.outcome
  rw [List.nil_append, aggregate_eq_of_perm perm distinct] at state
  have sameEmptiness : arrived = [] ↔ votes = [] := by
    constructor
    · rintro rfl
      exact perm.symm.eq_nil
    · rintro rfl
      exact perm.eq_nil
  rw [state]
  simp only [sameEmptiness]

/-- Three runners of stake one; the third vote arrives first. -/
def evenStake : StakeMap :=
  Table.collect [(1, 1), (2, 1), (3, 1)]

theorem final_state_of_perm_late :
    (machine.final (new 2 evenStake) [⟨3, .fail⟩, ⟨1, .pass⟩, ⟨2, .pass⟩]).state = .pass := by
  rw [final_state_of_perm evenStake 2 [⟨1, .pass⟩, ⟨2, .pass⟩, ⟨3, .fail⟩]
    [⟨3, .fail⟩, ⟨1, .pass⟩, ⟨2, .pass⟩] (by decide) (by decide) (by decide) (by decide)]
  decide

/-- A threshold beyond the whole stake cannot be reached, but an aggregator that has
received no vote has not noticed. -/
theorem fresh_aggregator_pending :
    totalStake evenStake < 2 * (4 : Weight).toNat ∧
      (machine.final (new 4 evenStake) []).state = .pending ∧
      AggregationState.ofOutcome (aggregate [] 4 evenStake) = .escalate := by
  decide

/-! ## The whole life cycle -/

/-- A call on an aggregator. -/
inductive Call where
  | receiveVote (vote : Vote)
  | triggerAggregation
  | timeout
  deriving DecidableEq, Repr

/-- The aggregator under all of its calls. -/
def lifecycle : Machine Aggregator Call AggregationState where
  step aggregator
    | .receiveVote vote => aggregator.receiveVote vote
    | .triggerAggregation => aggregator.triggerAggregation
    | .timeout => aggregator.timeout

/-- A terminal aggregator ignores every call. -/
theorem step_of_terminal {aggregator : Aggregator} (terminal : aggregator.isTerminal = true)
    (call : Call) : lifecycle.step aggregator call = (aggregator.state, aggregator) := by
  cases call with
  | receiveVote vote => exact if_pos terminal
  | triggerAggregation => exact if_pos terminal
  | timeout => exact if_pos terminal

theorem final_of_terminal {aggregator : Aggregator} (terminal : aggregator.isTerminal = true)
    (calls : List Call) : lifecycle.final aggregator calls = aggregator := by
  induction calls with
  | nil => rfl
  | cons call rest ih => rw [Machine.final, step_of_terminal terminal, ih]

/-- What a call can do to an aggregator that is still pending. -/
theorem step_of_live {aggregator : Aggregator} (live : ¬aggregator.isTerminal = true)
    (call : Call) :
    (lifecycle.step aggregator call).2.threshold = aggregator.threshold ∧
      (lifecycle.step aggregator call).2.stake = aggregator.stake ∧
      ((lifecycle.step aggregator call).2.state = .escalate ∨
        (lifecycle.step aggregator call).2.state = .ofOutcome
          (aggregate (lifecycle.step aggregator call).2.votes aggregator.threshold
            aggregator.stake)) := by
  cases call with
  | receiveVote vote =>
      have step : lifecycle.step aggregator (.receiveVote vote) = _ := if_neg live
      rw [step]
      exact ⟨rfl, rfl, Or.inr rfl⟩
  | triggerAggregation =>
      have step : lifecycle.step aggregator .triggerAggregation = _ := if_neg live
      rw [step]
      cases outcome : aggregate aggregator.votes aggregator.threshold aggregator.stake with
      | pass => exact ⟨rfl, rfl, Or.inr (congrArg AggregationState.ofOutcome outcome).symm⟩
      | fail => exact ⟨rfl, rfl, Or.inr (congrArg AggregationState.ofOutcome outcome).symm⟩
      | escalate => exact ⟨rfl, rfl, Or.inl rfl⟩
      | retry =>
          refine ⟨rfl, rfl, ?_⟩
          dsimp only
          split
          · exact Or.inl rfl
          · exact Or.inr (congrArg AggregationState.ofOutcome outcome).symm
  | timeout =>
      have step : lifecycle.step aggregator .timeout = _ := if_neg live
      rw [step]
      cases outcome : aggregate aggregator.votes aggregator.threshold aggregator.stake with
      | pass => exact ⟨rfl, rfl, Or.inr (congrArg AggregationState.ofOutcome outcome).symm⟩
      | fail => exact ⟨rfl, rfl, Or.inr (congrArg AggregationState.ofOutcome outcome).symm⟩
      | retry => exact ⟨rfl, rfl, Or.inl rfl⟩
      | escalate => exact ⟨rfl, rfl, Or.inl rfl⟩

/-- Only the votes held by the aggregator make it pass or fail. -/
structure Justified (aggregator : Aggregator) (threshold : Weight) (stake : StakeMap) :
    Prop where
  sameThreshold : aggregator.threshold = threshold
  sameStake : aggregator.stake = stake
  passes : aggregator.state = .pass → aggregate aggregator.votes threshold stake = .pass
  fails : aggregator.state = .fail → aggregate aggregator.votes threshold stake = .fail

theorem justified_withMaxRetries (threshold : Weight) (stake : StakeMap) (maxRetries : UInt32) :
    (withMaxRetries threshold stake maxRetries).Justified threshold stake := by
  constructor
  · rfl
  · rfl
  · intro passed
    cases passed
  · intro failed
    cases failed

theorem Justified.step {aggregator : Aggregator} {threshold : Weight} {stake : StakeMap}
    (justified : aggregator.Justified threshold stake) (call : Call) :
    (lifecycle.step aggregator call).2.Justified threshold stake := by
  by_cases terminal : aggregator.isTerminal = true
  · rw [step_of_terminal terminal]
    exact justified
  · rcases step_of_live terminal call with ⟨sameThreshold, sameStake, reached⟩
    rw [justified.sameThreshold, justified.sameStake] at reached
    refine ⟨sameThreshold.trans justified.sameThreshold,
      sameStake.trans justified.sameStake, ?_, ?_⟩
    · intro passed
      rw [passed] at reached
      rcases reached with escalated | decided
      · cases escalated
      · exact AggregationState.ofOutcome_eq_pass.mp decided.symm
    · intro failed
      rw [failed] at reached
      rcases reached with escalated | decided
      · cases escalated
      · exact AggregationState.ofOutcome_eq_fail.mp decided.symm

/-- A trigger that leaves the aggregator pending. -/
def pendingTrigger : Call → AggregationState → Option Unit
  | .triggerAggregation, .pending => some ()
  | _, _ => none

theorem pendingTrigger_of_terminal {aggregator : Aggregator}
    (terminal : aggregator.isTerminal = true) (call : Call) :
    pendingTrigger call aggregator.state = none := by
  cases call with
  | receiveVote vote => rfl
  | timeout => rfl
  | triggerAggregation =>
      cases state : aggregator.state with
      | pending =>
          rw [isTerminal, state] at terminal
          cases terminal
      | pass => rfl
      | fail => rfl
      | escalate => rfl

theorem pendingTriggers_of_terminal {aggregator : Aggregator}
    (terminal : aggregator.isTerminal = true) (calls : List Call) :
    lifecycle.observe pendingTrigger aggregator calls = [] := by
  induction calls with
  | nil => rfl
  | cons call rest ih =>
      rw [Machine.observe_cons, step_of_terminal terminal,
        pendingTrigger_of_terminal terminal, ih]
      rfl

/-- A call either ends the job, or moves the counter by the pending trigger that it is and
stays within the budget. -/
def Budgeted (aggregator : Aggregator) (call : Call)
    (result : AggregationState × Aggregator) : Prop :=
  result.2.maxRetries = aggregator.maxRetries ∧
    ((result.2.isTerminal = true ∧ pendingTrigger call result.1 = none) ∨
      (result.2.retries.toNat =
          aggregator.retries.toNat + (pendingTrigger call result.1).toList.length ∧
        result.2.retries.toNat ≤ aggregator.maxRetries.toNat))

section Budget

variable {aggregator : Aggregator} (bounded : aggregator.maxRetries.toNat < 2 ^ 32 - 1)
  (within : aggregator.retries.toNat ≤ aggregator.maxRetries.toNat)

include bounded within in
theorem budgeted_triggerAggregation (live : ¬aggregator.isTerminal = true) :
    Budgeted aggregator .triggerAggregation aggregator.triggerAggregation := by
  rw [triggerAggregation, if_neg live]
  cases aggregate aggregator.votes aggregator.threshold aggregator.stake with
  | pass => exact ⟨rfl, Or.inl ⟨rfl, rfl⟩⟩
  | fail => exact ⟨rfl, Or.inl ⟨rfl, rfl⟩⟩
  | escalate => exact ⟨rfl, Or.inl ⟨rfl, rfl⟩⟩
  | retry =>
      -- The counter is below its maximum, so that it does not saturate.
      have counted := toNat_nextRetry (within.trans_lt bounded)
      dsimp only
      by_cases exhausted : aggregator.maxRetries < nextRetry aggregator.retries
      · rw [if_pos exhausted]
        exact ⟨rfl, Or.inl ⟨rfl, rfl⟩⟩
      · rw [if_neg exhausted]
        rw [UInt32.not_lt, UInt32.le_iff_toNat_le] at exhausted
        exact ⟨rfl, Or.inr ⟨counted, exhausted⟩⟩

include bounded within in
theorem budgeted_step (call : Call) :
    Budgeted aggregator call (lifecycle.step aggregator call) := by
  by_cases terminal : aggregator.isTerminal = true
  · rw [step_of_terminal terminal]
    exact ⟨rfl, Or.inl ⟨terminal, pendingTrigger_of_terminal terminal call⟩⟩
  cases call with
  | receiveVote vote =>
      have step : lifecycle.step aggregator (.receiveVote vote) = _ := if_neg terminal
      rw [step]
      exact ⟨rfl, Or.inr ⟨rfl, within⟩⟩
  | timeout =>
      have step : lifecycle.step aggregator .timeout = _ := if_neg terminal
      rw [step]
      cases aggregate aggregator.votes aggregator.threshold aggregator.stake <;>
        exact ⟨rfl, Or.inl ⟨rfl, rfl⟩⟩
  | triggerAggregation => exact budgeted_triggerAggregation bounded within terminal

include bounded within in
/-- The triggers that leave an aggregator pending are paid for by its retry budget. -/
theorem length_pendingTriggers_le (calls : List Call) :
    aggregator.retries.toNat + (lifecycle.observe pendingTrigger aggregator calls).length ≤
      aggregator.maxRetries.toNat := by
  induction calls generalizing aggregator with
  | nil => exact within
  | cons call rest ih =>
      rw [Machine.observe_cons, List.length_append]
      rcases budgeted_step bounded within call with
        ⟨sameBound, ⟨ended, uncounted⟩ | ⟨counted, left⟩⟩
      · rw [uncounted, pendingTriggers_of_terminal ended]
        exact within
      · rw [← sameBound] at bounded left
        have later := ih bounded left
        rw [sameBound] at later
        omega

end Budget

/-- Over every sequence of calls: a terminal aggregator is never changed again, it passes
or fails only as the votes it holds do, and the triggers that leave it pending are at
most its retries. -/
theorem lifecycle_spec (threshold : Weight) (stake : StakeMap) (maxRetries : UInt32)
    (bounded : maxRetries < 0xffffffff) (calls : List Call) :
    (∀ before after, calls = before ++ after →
      (lifecycle.final (withMaxRetries threshold stake maxRetries) before).isTerminal = true →
      lifecycle.final (withMaxRetries threshold stake maxRetries) calls =
        lifecycle.final (withMaxRetries threshold stake maxRetries) before) ∧
    (lifecycle.final (withMaxRetries threshold stake maxRetries) calls).Justified threshold
      stake ∧
    (lifecycle.observe pendingTrigger (withMaxRetries threshold stake maxRetries)
      calls).length ≤ maxRetries.toNat := by
  refine ⟨?_, ?_, ?_⟩
  · rintro before after rfl terminal
    rw [Machine.final_append, final_of_terminal terminal]
  · apply lifecycle.final_of_step (fun aggregator => aggregator.Justified threshold stake)
    · intro aggregator call justified
      exact justified.step call
    · exact justified_withMaxRetries threshold stake maxRetries
  · have room : maxRetries.toNat < 2 ^ 32 - 1 := UInt32.lt_iff_toNat_lt.mp bounded
    have counted := @length_pendingTriggers_le (withMaxRetries threshold stake maxRetries) room
      (Nat.zero_le _) calls
    exact (Nat.le_add_left _ _).trans counted

/-- With one retry, the second fruitless trigger escalates and the votes after it are
dropped. -/
theorem lifecycle_spec_exhausted :
    (lifecycle.final (withMaxRetries 2 evenStake 1)
      [.receiveVote ⟨1, .pass⟩, .triggerAggregation, .triggerAggregation]).isTerminal = true ∧
    lifecycle.final (withMaxRetries 2 evenStake 1)
      [.receiveVote ⟨1, .pass⟩, .triggerAggregation, .triggerAggregation,
        .receiveVote ⟨2, .pass⟩, .timeout] =
      lifecycle.final (withMaxRetries 2 evenStake 1)
        [.receiveVote ⟨1, .pass⟩, .triggerAggregation, .triggerAggregation] := by
  have ended : (lifecycle.final (withMaxRetries 2 evenStake 1)
      [.receiveVote ⟨1, .pass⟩, .triggerAggregation,
        .triggerAggregation]).isTerminal = true := by
    decide
  refine ⟨ended, ?_⟩
  exact (lifecycle_spec 2 evenStake 1 (by decide)
    [.receiveVote ⟨1, .pass⟩, .triggerAggregation, .triggerAggregation,
      .receiveVote ⟨2, .pass⟩, .timeout]).1 _ [.receiveVote ⟨2, .pass⟩, .timeout] rfl ended

end Aggregator

end Cosaci.State
