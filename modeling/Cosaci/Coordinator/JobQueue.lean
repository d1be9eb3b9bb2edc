import Cosaci.Coordinator.Consumption
import Cosaci.Coordinator.Durable
import Cosaci.Foundation.Flow

/-!
# From standard input to the committees

A coordinator that is started with `--submit-stdin` reads submissions on one thread and
runs their jobs on another one, the main loop.  The threads share a bounded queue; a
signal sets a flag that the main loop looks at between two jobs.  Both threads together
are one machine here.  An event is a step of one of them or an act of the operator, and
the events come in any order.
-/

namespace Cosaci.Coordinator

open Foundation Cosaci.Core State

/-! ## The two threads -/

/-- Where the main loop is. -/
inductive MainPhase where
  /-- At the condition of the outer loop. -/
  | entering
  /-- At the flag, before it waits for a submission. -/
  | polling
  /-- In `recv_timeout`. -/
  | receiving
  /-- In `run_one_job`. -/
  | running (run : RunSubmission)
  | finished
  deriving DecidableEq

/-- The submission that has left the queue and whose job is not done. -/
@[simp]
def MainPhase.held : MainPhase → List RunSubmission
  | .running run => [run]
  | _ => []

structure MainState where
  reader : ReaderState
  draining : Bool
  phase : MainPhase
  completed : UInt64
  coordinator : CoordinatorState

/-- The threads have been started, and nothing has been read. -/
def MainState.start (auth : Option AuthState) (coordinator : CoordinatorState) : MainState where
  reader := ⟨auth, [], false⟩
  draining := false
  phase := .entering
  completed := 0
  coordinator := coordinator

/-- What a job meets while it runs. -/
structure Circumstances where
  order : IterationOrder Hash UInt32
  nowUnixNs : Int64
  appendIo : AppendIo

inductive MainEvent where
  /-- The reader gets a line and deals with it. -/
  | line (line : InputLine)
  | endOfInput
  /-- The operator has the registry read again. -/
  | reload (registry : TenantRegistry)
  /-- `SIGINT` or `SIGTERM`. -/
  | signal
  /-- The main loop goes on to its next phase. -/
  | turn (circumstances : Circumstances)

inductive MainOutput where
  | read (result : LineResult)
  | ran (next : Dispatch)
  | silent

/-- What the coordinator is started with. -/
structure MainLoop where
  reader : SubmissionReader
  verifiers : Verifiers
  maxJobs : UInt64
  committeeSize : Nat
  requirements : JobRequirements
  slashPolicy : SlashPolicy

namespace MainLoop

variable (loop : MainLoop)

/-- The call of `run_one_job` for a submission.  Its deadline is only logged. -/
def dispatch (jobId : UInt64) (run : RunSubmission) (circumstances : Circumstances) :
    Dispatch where
  order := circumstances.order
  job :=
    { jobId := jobId
      committeeSize := loop.committeeSize
      pipeline := run.pipeline
      requirements := loop.requirements
      slashPolicy := loop.slashPolicy
      nowUnixNs := circumstances.nowUnixNs
      appendIo := circumstances.appendIo }

/-- A step of the reader.  A queue without slots hands a submission over to the main loop
that waits for it. -/
def readLine (state : MainState) (line : InputLine) : MainOutput × MainState :=
  let (result, reader) := loop.reader.processLine state.reader
    { line with receiverWaiting := state.phase = .receiving }
  let phase :=
    match result with
    | .queued run => if loop.reader.queueCap = 0 then .running run else state.phase
    | _ => state.phase
  (.read result, { state with reader := reader, phase := phase })

/-- A step of the main loop.  A job that fails also counts as completed. -/
def takeTurn (state : MainState) (circumstances : Circumstances) : MainOutput × MainState :=
  match state.phase with
  | .entering =>
      let open_ : Bool := state.completed < loop.maxJobs && !state.draining
      (.silent, { state with phase := if open_ then .polling else .finished })
  | .polling =>
      (.silent, { state with phase := if state.draining then .finished else .receiving })
  | .receiving =>
      match state.reader.queue with
      | run :: rest =>
          (.silent, { state with
            reader := { state.reader with queue := rest }, phase := .running run })
      -- the sender is gone, or nothing comes in time
      | [] =>
          (.silent, { state with
            phase := if state.reader.stopped then .finished else .polling })
  | .running run =>
      let next := loop.dispatch (state.completed + 1) run circumstances
      (.ran next, { state with
        phase := .entering
        completed := state.completed + 1
        coordinator :=
          (runOneJob loop.verifiers next.order next.job state.coordinator).state })
  | .finished => (.silent, state)

def react (state : MainState) : MainEvent → MainOutput × MainState
  | .line line => loop.readLine state line
  | .endOfInput => (.silent, { state with reader := { state.reader with stopped := true } })
  | .reload registry =>
      let auth := state.reader.auth.map fun auth => { auth with registry := registry }
      (.silent, { state with reader := { state.reader with auth := auth } })
  | .signal => (.silent, { state with draining := true })
  | .turn circumstances => loop.takeTurn state circumstances

def machine : Machine MainState MainEvent MainOutput where
  step := loop.react

/-- The pipeline that a line puts on the queue. -/
@[simp]
def queuedPipeline (_ : MainEvent) : MainOutput → Option Jobs.Pipeline
  | .read (.queued run) => some run.pipeline
  | _ => none

@[simp]
def dispatchedJob (_ : MainEvent) : MainOutput → Option Dispatch
  | .ran next => some next
  | _ => none

/-- The pipelines of the submissions that a run puts on the queue, in order. -/
def queued (state : MainState) (events : List MainEvent) : List Jobs.Pipeline :=
  loop.machine.observe queuedPipeline state events

/-- The jobs that a run dispatches, in order. -/
def jobs (state : MainState) (events : List MainEvent) : List Dispatch :=
  loop.machine.observe dispatchedJob state events

/-! ## What one event does -/

/-- What becomes of a line: it is dropped, or its submission is sent to the queue. -/
theorem processLine_cases (reader : SubmissionReader) (state : ReaderState) (line : InputLine) :
    ((reader.processLine state line).1.isQueued = false ∧
      (reader.processLine state line).2.queue = state.queue ∧
      (state.stopped = true → (reader.processLine state line).2.stopped = true)) ∨
    ∃ run queue auth, reader.processLine state line =
        (.queued run, { state with auth := auth, queue := queue }) ∧
      state.stopped = false ∧
      reader.trySend state.queue line.receiverWaiting run = some queue := by
  rw [SubmissionReader.processLine]
  split
  · exact .inl ⟨rfl, rfl, id⟩
  next running =>
    split
    · exact .inl ⟨rfl, rfl, fun _ => rfl⟩
    · split
      · next dropped => exact .inl ⟨reader.isQueued_of_submissionOf_error dropped, rfl, id⟩
      · rw [SubmissionReader.processSubmission]
        dsimp only
        split
        · split
          · exact .inl ⟨rfl, rfl, id⟩
          · split
            · exact .inl ⟨rfl, rfl, id⟩
            · next sent =>
                exact .inr ⟨_, _, _, rfl, Bool.eq_false_iff.mpr running, sent⟩
        · exact .inl ⟨rfl, rfl, id⟩

/-- What a step of the reader does to the state of both threads. -/
inductive Reads (state : MainState) : MainOutput → MainState → Prop
  | dropped {result : LineResult} {reader : ReaderState} (unqueued : result.isQueued = false)
      (queue : reader.queue = state.reader.queue)
      (stopped : state.reader.stopped = true → reader.stopped = true) :
      Reads state (.read result) { state with reader := reader }
  | appended (run : RunSubmission) {reader : ReaderState}
      (room : state.reader.queue.length < loop.reader.queueCap)
      (queue : reader.queue = state.reader.queue ++ [run])
      (running : state.reader.stopped = false) :
      Reads state (.read (.queued run)) { state with reader := reader }
  | handed (run : RunSubmission) {reader : ReaderState} (unbuffered : loop.reader.queueCap = 0)
      (waiting : state.phase = .receiving) (queue : reader.queue = state.reader.queue)
      (running : state.reader.stopped = false) :
      Reads state (.read (.queued run)) { state with reader := reader, phase := .running run }

theorem reads_readLine (state : MainState) (line : InputLine) :
    loop.Reads state (loop.readLine state line).1 (loop.readLine state line).2 := by
  rw [readLine]
  rcases processLine_cases loop.reader state.reader
    { line with receiverWaiting := state.phase = .receiving } with
    ⟨unqueued, queue, stopped⟩ | ⟨run, queue, auth, processed, running, sent⟩
  · generalize loop.reader.processLine state.reader _ = processed at unqueued queue stopped ⊢
    obtain ⟨result, reader⟩ := processed
    cases result with
    | queued run => cases unqueued
    | _ => exact .dropped unqueued queue stopped
  · rw [processed]
    rw [SubmissionReader.trySend] at sent
    split at sent
    · next room =>
        cases sent
        have slots : loop.reader.queueCap ≠ 0 := by omega
        simp only [if_neg slots]
        exact .appended run room rfl running
    · split at sent
      · next handed =>
          cases sent
          simp only [if_pos handed.1]
          exact .handed run handed.1 (by simpa using handed.2) rfl running
      · cases sent

/-! ## Whole runs -/

/-- The counter does not overflow below the limit. -/
private theorem toNat_succ {completed maxJobs : UInt64} (below : completed < maxJobs) :
    (completed + 1).toNat = completed.toNat + 1 := by
  have bound := UInt64.lt_iff_toNat_lt.mp below
  have limit := maxJobs.toNat_lt
  rw [UInt64.toNat_add, UInt64.toNat_one]
  omega

/-- What holds between any two events. -/
structure Valid (state : MainState) : Prop where
  bounded : state.reader.queue.length ≤ loop.reader.queueCap
  capped : state.completed ≤ loop.maxJobs
  /-- The limit is checked before a submission is waited for. -/
  engaged : state.phase ≠ .entering → state.phase ≠ .finished → state.completed < loop.maxJobs
  /-- There are three reasons to stop. -/
  ended : state.phase = .finished → state.draining = true ∨ state.completed = loop.maxJobs ∨
    state.reader.stopped = true ∧ state.reader.queue = []

theorem valid_start (auth : Option AuthState) (coordinator : CoordinatorState) :
    loop.Valid (.start auth coordinator) where
  bounded := Nat.zero_le _
  capped := UInt64.zero_le
  engaged elsewhere := absurd rfl elsewhere
  ended := nofun

variable {loop}

theorem Reads.valid {state next : MainState} {output : MainOutput}
    (reads : loop.Reads state output next) (valid : loop.Valid state) : loop.Valid next := by
  cases reads with
  | dropped unqueued queue stopped =>
      refine ⟨queue ▸ valid.bounded, valid.capped, valid.engaged, fun finished => ?_⟩
      exact (valid.ended finished).imp_right (.imp_right fun closed =>
        ⟨stopped closed.1, queue.trans closed.2⟩)
  | appended run room queue running =>
      refine ⟨?_, valid.capped, valid.engaged, fun finished => ?_⟩
      · simpa [queue] using room
      · refine (valid.ended finished).imp_right (.imp_right fun closed => ?_)
        rw [running] at closed
        cases closed.1
  | handed run unbuffered waiting queue running =>
      have below : state.completed < loop.maxJobs :=
        valid.engaged (by simp [waiting]) (by simp [waiting])
      exact ⟨queue ▸ valid.bounded, valid.capped, fun _ _ => below, nofun⟩

variable {state : MainState}

theorem valid_takeTurn (valid : loop.Valid state) (circumstances : Circumstances) :
    loop.Valid (loop.takeTurn state circumstances).2 := by
  obtain ⟨bounded, capped, engaged, ended⟩ := valid
  rw [takeTurn]
  split
  · next entering =>
      by_cases below : state.completed < loop.maxJobs
      · cases draining : state.draining with
        | true => exact ⟨bounded, capped, by simp [below], by simp⟩
        | false => exact ⟨bounded, capped, by simp [below], by simp [below]⟩
      · have full := UInt64.le_antisymm capped (UInt64.not_lt.mp below)
        exact ⟨bounded, capped, by simp [below], by simp [full]⟩
  · next polling =>
      have below := engaged (by simp [polling]) (by simp [polling])
      cases draining : state.draining with
      | true => exact ⟨bounded, capped, by simp [below], by simp⟩
      | false => exact ⟨bounded, capped, by simp [below], by simp⟩
  · next receiving =>
      have below := engaged (by simp [receiving]) (by simp [receiving])
      split
      · next run rest nonempty =>
          rw [nonempty, List.length_cons] at bounded
          exact ⟨by simp; omega, capped, by simp [below], by simp⟩
      · next empty =>
          cases stopped : state.reader.stopped with
          | true => exact ⟨bounded, capped, by simp [below], by simp [stopped, empty]⟩
          | false => exact ⟨bounded, capped, by simp [below], by simp⟩
  · next run running =>
      have below := engaged (by simp [running]) (by simp [running])
      refine ⟨bounded, ?_, by simp, by simp⟩
      rw [UInt64.le_iff_toNat_le, toNat_succ below]
      exact UInt64.lt_iff_toNat_lt.mp below
  · exact ⟨bounded, capped, engaged, ended⟩

theorem valid_react (valid : loop.Valid state) (event : MainEvent) :
    loop.Valid (loop.react state event).2 := by
  cases event with
  | line line => exact (loop.reads_readLine state line).valid valid
  | endOfInput =>
      refine ⟨valid.bounded, valid.capped, valid.engaged, fun finished => ?_⟩
      exact (valid.ended finished).imp_right (.imp_right fun closed => ⟨rfl, closed.2⟩)
  | reload registry => exact ⟨valid.bounded, valid.capped, valid.engaged, valid.ended⟩
  | signal => exact ⟨valid.bounded, valid.capped, valid.engaged, fun _ => .inl rfl⟩
  | turn circumstances => exact valid_takeTurn valid circumstances

/-- The pipelines between the reader and the committees, the next one first. -/
def pending (state : MainState) : List Jobs.Pipeline :=
  (state.phase.held ++ state.reader.queue).map (·.pipeline)

/-- An event keeps the pipelines in line. -/
theorem pending_react (valid : loop.Valid state) (event : MainEvent) :
    pending state ++ (queuedPipeline event (loop.react state event).1).toList =
      ((dispatchedJob event (loop.react state event).1).map (·.job.pipeline)).toList ++
        pending (loop.react state event).2 := by
  cases event with
  | line line =>
      have reads := loop.reads_readLine state line
      rw [react]
      generalize loop.readLine state line = step at reads ⊢
      obtain ⟨output, next⟩ := step
      cases reads with
      | @dropped result reader unqueued queue stopped =>
          cases result with
          | queued run => cases unqueued
          | _ => simp [pending, queue]
      | appended run room queue running => simp [pending, queue]
      | handed run unbuffered waiting queue running =>
          have empty : state.reader.queue = [] :=
            List.length_eq_zero_iff.mp (Nat.le_zero.mp (unbuffered ▸ valid.bounded))
          simp [pending, queue, empty, waiting]
  | turn circumstances =>
      rw [react, takeTurn]
      split
      · next entering =>
          simp only [pending, entering]
          split <;> simp
      · next polling =>
          simp only [pending, polling]
          split <;> simp
      · next receiving =>
          split
          · next run rest nonempty => simp [pending, receiving, nonempty]
          · next empty =>
              simp only [pending, receiving, empty]
              split <;> simp
      · next run running => simp [pending, running, dispatch]
      · simp
  | endOfInput => simp [react, pending]
  | reload registry => simp [react, pending]
  | signal => simp [react, pending]

variable (loop)

/-- The jobs lead from one state to another one: they are numbered on from the first, and
their effects come one after the other. -/
structure Follows (state : MainState) (jobs : List Dispatch) (next : MainState) : Prop where
  numbers : jobs.map (fun job => job.job.jobId.toNat) =
    List.range' (state.completed.toNat + 1) jobs.length
  count : next.completed.toNat = state.completed.toNat + jobs.length
  effects : next.coordinator = (dispatchMachine loop.verifiers).final state.coordinator jobs

variable {loop}

theorem Follows.refl {state next : MainState} (completed : next.completed = state.completed)
    (coordinator : next.coordinator = state.coordinator) : loop.Follows state [] next :=
  ⟨rfl, congrArg UInt64.toNat completed, coordinator⟩

theorem Follows.trans {state middle next : MainState} {first second : List Dispatch}
    (before : loop.Follows state first middle) (after : loop.Follows middle second next) :
    loop.Follows state (first ++ second) next := by
  refine ⟨?_, ?_, ?_⟩
  · rw [List.map_append, before.numbers, after.numbers, before.count, List.length_append,
      Nat.add_right_comm]
    exact List.range'_append_1 ..
  · rw [after.count, before.count, List.length_append, Nat.add_assoc]
  · rw [after.effects, before.effects, Machine.final_append]

theorem follows_takeTurn (valid : loop.Valid state) (circumstances : Circumstances) :
    loop.Follows state (dispatchedJob (.turn circumstances)
      (loop.takeTurn state circumstances).1).toList (loop.takeTurn state circumstances).2 := by
  rw [takeTurn]
  split
  · exact .refl rfl rfl
  · exact .refl rfl rfl
  · split <;> exact .refl rfl rfl
  · next run running =>
      have next := toNat_succ (valid.engaged (by simp [running]) (by simp [running]))
      exact ⟨congrArg (fun number => [number]) next, next, rfl⟩
  · exact .refl rfl rfl

theorem follows_react (valid : loop.Valid state) (event : MainEvent) :
    loop.Follows state (dispatchedJob event (loop.react state event).1).toList
      (loop.react state event).2 := by
  cases event with
  | line line => exact .refl rfl rfl
  | turn circumstances => exact follows_takeTurn valid circumstances
  | endOfInput => exact .refl rfl rfl
  | reload registry => exact .refl rfl rfl
  | signal => exact .refl rfl rfl

theorem follows_final (valid : loop.Valid state) (events : List MainEvent) :
    loop.Follows state (loop.jobs state events) (loop.machine.final state events) := by
  induction events generalizing state with
  | nil => exact .refl rfl rfl
  | cons event rest ih =>
      rw [jobs, Machine.observe_cons]
      exact (follows_react valid event).trans (ih (valid_react valid event))

theorem valid_final (valid : loop.Valid state) (events : List MainEvent) :
    loop.Valid (loop.machine.final state events) :=
  loop.machine.final_of_step loop.Valid (fun _ event valid => valid_react valid event) valid events

/-- Nothing is lost, doubled or reordered between the reader and the committees. -/
theorem pending_final (valid : loop.Valid state) (events : List MainEvent) :
    pending state ++ loop.queued state events =
      (loop.jobs state events).map (·.job.pipeline) ++
        pending (loop.machine.final state events) := by
  rw [jobs, Machine.map_observe]
  exact Machine.observe_of_flow loop.Valid pending (fun _ event valid => valid_react valid event)
    (fun _ event valid => pending_react valid event) valid events

/-- In every interleaving of the two threads, the submissions that are put on the queue are
run once each, in their order, under consecutive numbers, as one session; those that are
still waiting are all in the queue or with the main loop.  A main loop that neither a signal
nor the limit has ended has run them all. -/
theorem queued_submissions_run_in_order (loop : MainLoop) (auth : Option AuthState)
    (coordinator : CoordinatorState) (events : List MainEvent) :
    let start := MainState.start auth coordinator
    let final := loop.machine.final start events
    let jobs := loop.jobs start events
    loop.queued start events = jobs.map (·.job.pipeline) ++
        (final.phase.held ++ final.reader.queue).map (·.pipeline) ∧
      final.reader.queue.length ≤ loop.reader.queueCap ∧
      jobs.map (fun job => job.job.jobId.toNat) = List.range' 1 jobs.length ∧
      jobs.length ≤ loop.maxJobs.toNat ∧
      final.coordinator = (dispatchMachine loop.verifiers).final coordinator jobs ∧
      (final.phase = .finished → final.draining = false → jobs.length < loop.maxJobs.toNat →
        loop.queued start events = jobs.map (·.job.pipeline)) := by
  intro start final jobs
  have initial := loop.valid_start auth coordinator
  have valid : loop.Valid final := valid_final initial events
  have follows : loop.Follows start jobs final := follows_final initial events
  have flow : loop.queued start events = jobs.map (·.job.pipeline) ++ pending final :=
    pending_final initial events
  have count : final.completed.toNat = jobs.length := follows.count.trans (Nat.zero_add _)
  refine ⟨flow, valid.bounded, follows.numbers, ?_, follows.effects, ?_⟩
  · rw [← count]
    exact UInt64.le_iff_toNat_le.mp valid.capped
  · intro finished undrained below
    have empty : final.reader.queue = [] := by
      rcases valid.ended finished with draining | full | closed
      · cases undrained.symm.trans draining
      · rw [← count, full] at below
        exact absurd below (Nat.lt_irrefl _)
      · exact closed.2
    rw [flow, pending, finished, empty]
    simp

end MainLoop

end Cosaci.Coordinator
