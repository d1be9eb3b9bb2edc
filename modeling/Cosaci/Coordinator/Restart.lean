import Cosaci.Coordinator.HonestCommittee
import Cosaci.Coordinator.Phases

/-!
# Restarting the coordinator

What a coordinator that starts again can read from the journal.  The journal is shared
by all sessions, but each session numbers its jobs from one; and the list of jobs to
anchor again contains every aggregated job, whatever its outcome.
-/

namespace Cosaci.Coordinator

open Foundation Cosaci.Core State

/-! ## Sessions on one journal -/

/-- A session that ends after some number of its durable writes. -/
structure JournaledSession where
  verifiers : Verifiers
  state : CoordinatorState
  maxJobs : UInt64
  incoming : List Dispatch
  cut : Nat

namespace JournaledSession

def jobs (session : JournaledSession) : List Dispatch :=
  jobLoop session.maxJobs 0 session.incoming

def writes (session : JournaledSession) : List DurableWrite :=
  (sessionWrites session.verifiers session.state session.jobs).take session.cut

/-- The entries that the session adds to the journal. -/
def journal (session : JournaledSession) : List JournalEntry :=
  journalOf session.writes

theorem inPhase_writes (session : JournaledSession) : InPhase session.writes :=
  (inPhase_sessionWrites session.verifiers session.state
    (nodup_jobIds_jobLoop session.maxJobs 0 session.incoming)).take session.cut

/-- Whatever a session journals begins with its job number one. -/
theorem jobSubmitted_one_mem {session : JournaledSession} (active : session.journal ≠ []) :
    .jobSubmitted 1 ∈ session.journal := by
  rcases session with ⟨verifiers, state, maxJobs, incoming, cut⟩
  cases cut with
  | zero => exact False.elim (active rfl)
  | succ cut =>
      cases incoming with
      | nil => exact False.elim (active rfl)
      | cons next rest =>
          simp only [journal, writes, jobs, jobLoop] at active ⊢
          split
          · exact List.mem_cons_self
          · next limited =>
              rw [if_neg limited] at active
              exact False.elim (active rfl)

end JournaledSession

/-- The shared journal. -/
def history (sessions : List JournaledSession) : List JournalEntry :=
  sessions.flatMap JournaledSession.journal

/-- Jobs of different sessions have different numbers, and an anchored job stays
anchored where it is. -/
structure SurvivesRestarts (sessions : List JournaledSession) : Prop where
  numbers : sessions.Pairwise fun first second =>
    ∀ entry ∈ first.journal, ∀ other ∈ second.journal, entry.jobId ≠ other.jobId
  anchored : ∀ early late, early ≤ late → ∀ jobId position,
    (reconstructState ((history sessions).take early)).stateOf jobId = some (.anchored position) →
    (reconstructState ((history sessions).take late)).stateOf jobId = some (.anchored position)

/-- Every initial part of a journal belongs to an initial part of the writes. -/
theorem exists_take_journalOf (writes : List DurableWrite) (count : Nat) :
    ∃ cut, journalOf (writes.take cut) = (journalOf writes).take count := by
  induction writes generalizing count with
  | nil => exact ⟨0, by simp⟩
  | cons write rest ih =>
      cases write with
      | journal entry =>
          cases count with
          | zero => exact ⟨0, rfl⟩
          | succ count =>
              rcases ih count with ⟨cut, same⟩
              exact ⟨cut + 1, congrArg (entry :: ·) same⟩
      | append jobId artifact =>
          rcases ih count with ⟨cut, same⟩
          exact ⟨cut + 1, same⟩

variable {position : Nat} {writes : List DurableWrite} {jobId : JobId} {artifactHex : String}
  {journaled : JournalOutcome} {outcome : JournalOutcome}

/-- Nothing happens to an anchored job any more. -/
theorem JobPhase.eq_of_walk_anchored {last : JobPhase}
    (walked : (JobPhase.anchored position).walk writes = some last) :
    last = .anchored position := by
  cases writes with
  | nil =>
      cases walked
      rfl
  | cons write rest => cases walked

/-- An anchored job stays anchored while the session goes on. -/
theorem InPhase.anchored_of_take (inPhase : InPhase writes) {cut : Nat}
    (anchored : (reconstructState (journalOf (writes.take cut))).stateOf jobId =
      some (.anchored position)) :
    (reconstructState (journalOf writes)).stateOf jobId = some (.anchored position) := by
  rcases inPhase.take cut jobId with ⟨before, reached⟩
  rcases inPhase jobId with ⟨after, walked⟩
  rw [stateOf_phase reached] at anchored
  rw [stateOf_phase walked]
  rw [phaseOf, ← List.take_append_drop cut writes, List.filter_append, JobPhase.walk_append]
    at walked
  rw [phaseOf] at reached
  rw [reached] at walked
  cases before <;> cases anchored
  rw [JobPhase.eq_of_walk_anchored walked]
  rfl

/-- Within a session, longer journals agree on the anchored jobs. -/
theorem InPhase.anchored_stays (inPhase : InPhase writes) {early late : Nat}
    (ordered : early ≤ late)
    (anchored : (reconstructState ((journalOf writes).take early)).stateOf jobId =
      some (.anchored position)) :
    (reconstructState ((journalOf writes).take late)).stateOf jobId =
      some (.anchored position) := by
  have shorter : ((journalOf writes).take late).take early = (journalOf writes).take early := by
    rw [List.take_take, Nat.min_eq_left ordered]
  rcases exists_take_journalOf writes late with ⟨lateCut, lateJournal⟩
  rcases exists_take_journalOf (writes.take lateCut) early with ⟨earlyCut, earlyJournal⟩
  rw [lateJournal, shorter] at earlyJournal
  rw [← earlyJournal] at anchored
  rw [← lateJournal]
  exact (inPhase.take lateCut).anchored_of_take anchored

/-- When at most one session journals anything, the history is its journal. -/
theorem history_eq {sessions : List JournaledSession}
    (single : sessions.Pairwise fun first second => first.journal = [] ∨ second.journal = []) :
    history sessions = [] ∨ ∃ session ∈ sessions, history sessions = session.journal := by
  induction sessions with
  | nil => exact Or.inl rfl
  | cons session rest ih =>
      rcases List.pairwise_cons.mp single with ⟨first, others⟩
      by_cases silent : session.journal = []
      · have same : history (session :: rest) = history rest := by
          rw [history, List.flatMap_cons, silent]
          rfl
        rw [same]
        rcases ih others with none | ⟨other, member, journal⟩
        · exact Or.inl none
        · exact Or.inr ⟨other, List.mem_cons_of_mem _ member, journal⟩
      · have nothing : rest.flatMap JournaledSession.journal = [] := by
          rw [List.flatMap_eq_nil_iff]
          intro other member
          exact (first other member).resolve_left silent
        refine Or.inr ⟨session, List.mem_cons_self, ?_⟩
        rw [history, List.flatMap_cons, nothing, List.append_nil]

/-- Job history survives restarts exactly when at most one of the sessions journals
anything. -/
theorem survivesRestarts_iff (sessions : List JournaledSession) :
    SurvivesRestarts sessions ↔
      sessions.Pairwise fun first second => first.journal = [] ∨ second.journal = [] := by
  constructor
  · rintro ⟨numbers, -⟩
    apply numbers.imp
    intro first second apart
    by_contra active
    rw [not_or] at active
    exact apart _ (JournaledSession.jobSubmitted_one_mem active.1) _
      (JournaledSession.jobSubmitted_one_mem active.2) rfl
  · intro single
    constructor
    · apply single.imp
      rintro first second (silent | silent) entry member other among
      · rw [silent] at member
        cases member
      · rw [silent] at among
        cases among
    · intro early late ordered jobId position anchored
      rcases history_eq single with none | ⟨session, -, journal⟩
      · rw [none, List.take_nil] at anchored
        cases anchored
      · rw [journal] at anchored ⊢
        exact session.inPhase_writes.anchored_stays ordered anchored

/-- A session with one job, which passes, and one that finds no runners; its journal
ends with the number of the new job. -/
def restartedSessions : List JournaledSession :=
  [⟨modelVerifiers, honestState 2, 1, [⟨.stored, failingJob⟩], 7⟩,
    ⟨modelVerifiers, { honestState 2 with agents := [] }, 1, [⟨.stored, failingJob⟩], 1⟩]

/-- The anchored job of the first session is taken for a new one. -/
theorem anchored_job_forgotten :
    (reconstructState ((history restartedSessions).take 6)).stateOf 1 = some (.anchored 0) ∧
      (reconstructState ((history restartedSessions).take 7)).stateOf 1 = some .submitted ∧
      ¬SurvivesRestarts restartedSessions := by
  have before : (reconstructState ((history restartedSessions).take 6)).stateOf 1 =
      some (.anchored 0) := by decide +kernel
  have after : (reconstructState ((history restartedSessions).take 7)).stateOf 1 =
      some .submitted := by decide +kernel
  refine ⟨before, after, ?_⟩
  rintro ⟨-, anchored⟩
  have stays := anchored 6 7 (by decide) 1 0 before
  rw [after] at stays
  cases stays

/-! ## Jobs offered for anchoring -/

/-- The outcomes of a session, by job. -/
def outcomes (verifiers : Verifiers) (state : CoordinatorState) (jobs : List Dispatch) :
    List (JobId × Outcome) :=
  (dispatchMachine verifiers).observe
    (fun next run => run.report.map fun report => (next.job.jobId, report.outcome)) state jobs

theorem outcome_of_mem_concludeWrites {order : IterationOrder Hash UInt32} {job : JobCall}
    {committee : List RunnerId} {received : List Delivery} {log : LogBackend} {ledger : StakeLedger}
    (member : .journal (.aggregated jobId journaled artifactHex) ∈
      concludeWrites order job committee received log ledger) :
    journaled = outcomeToJournal (outcomeOf committee received ledger.asStakeMap) := by
  unfold concludeWrites at member
  dsimp only at member
  rcases List.mem_cons.mp member with same | member
  · cases same
    rfl
  split at member
  · split at member
    · cases member
    · simp at member
  · cases member

/-- The journaled outcome of a job is the one it reports. -/
theorem report_of_aggregated {verifiers : Verifiers} {order : IterationOrder Hash UInt32}
    {job : JobCall} {state : CoordinatorState}
    (member : .journal (.aggregated jobId journaled artifactHex) ∈
      durableWrites verifiers order job state) :
    jobId = job.jobId ∧ ∃ report, (runOneJob verifiers order job state).report = some report ∧
      journaled = outcomeToJournal report.outcome := by
  refine ⟨jobId_durableWrites _ _ _ member, ?_⟩
  have same : (state.journalAppend [.jobSubmitted job.jobId]).agents = state.agents := rfl
  unfold durableWrites at member
  unfold runOneJob
  dsimp only
  rw [same]
  rcases convened : convene verifiers job state.agents
    with ⟨kind | _ | ⟨committee, kind⟩ | committee, agents⟩
  · simp [convened] at member
  · simp [convened] at member
  · simp [convened] at member
  · simp only [convened, List.cons_append, List.mem_cons, List.mem_append, List.mem_map,
      DurableWrite.journal.injEq, reduceCtorEq, and_false, exists_false, false_or] at member
    dsimp only
    rw [report_conclude]
    exact ⟨_, rfl, outcome_of_mem_concludeWrites member⟩

section Outcomes

variable {verifiers : Verifiers} {state : CoordinatorState} {jobs : List Dispatch}

theorem outcome_of_aggregated (member : .journal (.aggregated jobId journaled artifactHex) ∈
      sessionWrites verifiers state jobs) :
    ∃ outcome, (jobId, outcome) ∈ outcomes verifiers state jobs ∧
      journaled = outcomeToJournal outcome := by
  induction jobs generalizing state with
  | nil => cases member
  | cons next rest ih =>
      rw [outcomes, Machine.observe_cons]
      rcases List.mem_append.mp member with here | later
      · rcases report_of_aggregated here with ⟨named, report, reported, same⟩
        refine ⟨report.outcome, List.mem_append_left _ ?_, same⟩
        simp [dispatchMachine, reported, named]
      · rcases ih later with ⟨outcome, listed, same⟩
        exact ⟨outcome, List.mem_append_right _ listed, same⟩

theorem jobIds_outcomes_sublist (verifiers : Verifiers) (state : CoordinatorState)
    (jobs : List Dispatch) :
    ((outcomes verifiers state jobs).map Prod.fst).Sublist
      (jobs.map fun next => next.job.jobId) := by
  induction jobs generalizing state with
  | nil => exact List.Sublist.refl _
  | cons next rest ih =>
      rw [outcomes, Machine.observe_cons, List.map_append, List.map_cons]
      cases ((dispatchMachine verifiers).step state next).1.report with
      | none => exact (ih _).cons _
      | some report => exact (ih _).cons_cons _

/-- A job has one outcome. -/
theorem outcome_unique (distinct : (jobs.map fun next => next.job.jobId).Nodup)
    {first second : Outcome} (one : (jobId, first) ∈ outcomes verifiers state jobs)
    (two : (jobId, second) ∈ outcomes verifiers state jobs) : first = second := by
  have unique := distinct.sublist (jobIds_outcomes_sublist verifiers state jobs)
  exact congrArg Prod.snd (List.inj_on_of_nodup_map unique one two rfl)

end Outcomes

theorem outcomeToJournal_injective {first second : Outcome}
    (same : outcomeToJournal first = outcomeToJournal second) : first = second := by
  cases first <;> cases second <;> first | rfl | cases same

theorem JobPhase.next_aggregated {phase later : JobPhase}
    (step : phase.next (.journal (.aggregated jobId outcome artifactHex)) = some later) :
    later = .aggregated outcome artifactHex := by
  cases phase with
  | selected => exact (Option.some.inj step).symm
  | aggregated earlier hex => cases earlier <;> cases step
  | fresh => cases step
  | submitted => cases step
  | appended hex => cases step
  | anchored position => cases step

/-- A job that did not pass stays aggregated. -/
theorem JobPhase.eq_of_walk_aggregated (unpassed : outcome ≠ .pass) {last : JobPhase}
    (walked : (JobPhase.aggregated outcome artifactHex).walk writes = some last) :
    last = .aggregated outcome artifactHex := by
  cases writes with
  | nil =>
      cases walked
      rfl
  | cons write rest =>
      cases outcome with
      | pass => exact False.elim (unpassed rfl)
      | fail => cases walked
      | escalate => cases walked
      | retry => cases walked

/-- A journaled outcome other than `Pass` is the last word on its job. -/
theorem InPhase.stateOf_of_aggregated (inPhase : InPhase writes)
    (member : .aggregated jobId outcome artifactHex ∈ journalOf writes)
    (unpassed : outcome ≠ .pass) :
    (reconstructState (journalOf writes)).stateOf jobId =
      some (.aggregatedNotAnchored outcome artifactHex) := by
  have written : DurableWrite.journal (.aggregated jobId outcome artifactHex) ∈
      writes.filter fun write => write.jobId = jobId := by
    rw [List.mem_filter]
    exact ⟨mem_journalOf.mp member, decide_eq_true rfl⟩
  rcases inPhase jobId with ⟨last, reached⟩
  rw [stateOf_phase reached]
  rcases List.append_of_mem written with ⟨earlier, later, split⟩
  rw [phaseOf, split, JobPhase.walk_append, Option.bind_eq_some_iff] at reached
  rcases reached with ⟨before, -, walked⟩
  rcases Option.bind_eq_some_iff.mp walked with ⟨after, step, remaining⟩
  rw [JobPhase.next_aggregated step] at remaining
  rw [JobPhase.eq_of_walk_aggregated unpassed remaining]
  rfl

/-- A job that did not pass is offered for anchoring once its outcome is journaled. -/
theorem InPhase.pending_of_aggregated (inPhase : InPhase writes) {outcome : Outcome}
    (member : .aggregated jobId (outcomeToJournal outcome) artifactHex ∈ journalOf writes)
    (unpassed : outcome ≠ .pass) :
    jobId ∈ (reconstructState (journalOf writes)).pendingReAnchor := by
  rw [JournalState.mem_pendingReAnchor]
  refine ⟨outcomeToJournal outcome, artifactHex, inPhase.stateOf_of_aggregated member ?_⟩
  intro passed
  exact unpassed (outcomeToJournal_injective (passed.trans rfl))

/-- Only passed jobs are offered for anchoring exactly when every job whose outcome has
been journaled passed. -/
theorem offers_only_passed_iff (verifiers : Verifiers) (state : CoordinatorState)
    (maxJobs : UInt64) (incoming : List Dispatch) (count : Nat) :
    let jobs := jobLoop maxJobs 0 incoming
    let journal := (journalOf (sessionWrites verifiers state jobs)).take count
    (∀ jobId ∈ (reconstructState journal).pendingReAnchor,
      (jobId, Outcome.pass) ∈ outcomes verifiers state jobs) ↔
    ∀ jobId outcome, (jobId, outcome) ∈ outcomes verifiers state jobs →
      (∃ journaled artifactHex, .aggregated jobId journaled artifactHex ∈ journal) →
      outcome = .pass := by
  intro jobs journal
  have distinct := nodup_jobIds_jobLoop maxJobs 0 incoming
  rcases exists_take_journalOf (sessionWrites verifiers state jobs) count with ⟨cut, cutJournal⟩
  have inPhase := (inPhase_sessionWrites verifiers state distinct).take cut
  have reported : ∀ jobId journaled artifactHex,
      JournalEntry.aggregated jobId journaled artifactHex ∈ journal →
        ∃ outcome, (jobId, outcome) ∈ outcomes verifiers state jobs ∧
          journaled = outcomeToJournal outcome := fun _ _ _ member =>
    outcome_of_aggregated (mem_journalOf.mp (List.mem_of_mem_take member))
  constructor
  · rintro offered jobId outcome listed ⟨journaled, artifactHex, member⟩
    rcases reported jobId journaled artifactHex member with ⟨same, alsoListed, rfl⟩
    cases outcome_unique distinct listed alsoListed
    by_contra unpassed
    have pending : jobId ∈ (reconstructState journal).pendingReAnchor := by
      simp only [journal] at member ⊢
      rw [← cutJournal] at member ⊢
      exact inPhase.pending_of_aggregated member unpassed
    exact unpassed (outcome_unique distinct listed (offered jobId pending))
  · intro passed jobId pending
    rcases JournalState.mem_pendingReAnchor.mp pending with ⟨journaled, artifactHex, state⟩
    have member := aggregated_mem_of_stateOf state
    rcases reported jobId journaled artifactHex member with ⟨outcome, listed, -⟩
    rw [← passed jobId outcome listed ⟨journaled, artifactHex, member⟩]
    exact listed

/-- One of two runners answers, so the job is to be retried; it is offered for anchoring
all the same. -/
theorem retried_job_offered :
    let jobs := jobLoop 1 0 [⟨.stored, failingJob⟩]
    let journal := (journalOf (sessionWrites modelVerifiers (honestState 1) jobs)).take 4
    outcomes modelVerifiers (honestState 1) jobs = [(1, .retry)] ∧
      (reconstructState journal).pendingReAnchor = [1] := by
  decide +kernel

end Cosaci.Coordinator
