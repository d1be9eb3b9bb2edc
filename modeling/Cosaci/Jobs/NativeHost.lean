import Cosaci.Foundation.Await
import Cosaci.Jobs.CaptureLength
import Cosaci.Jobs.PipelineCodec
import Cosaci.Jobs.StepCgroup

/-!
# Native steps on a host

`execute_native_step` with the loop that waits for the child.  The loop looks at the child
every 50 milliseconds, kills it when it is over a limit, and has no other way out; the
threads that read its output go on until the pipes are closed.  Both may take forever, so
what a step does on a host is bounded by a number of rounds.

A step that returns does what `executeNativeStep` says for the fate of its child, and the
whole pipeline does what `executePipeline` says, if its fetches and WASM calls come back.
-/

namespace Cosaci.Jobs

open Foundation
open Cosaci.Core (Crypto Hash)

/-! ## Reading a pipe to its end -/

/-- The first reads of a pipe. -/
def firstReads (pipe : Nat → PipeRead) (fuel : Nat) : List PipeRead :=
  (List.range fuel).map pipe

/-- A read after which there is no other: the end of the stream, or an error. -/
def endsStream : PipeRead → Bool
  | .ok (_ :: _) => false
  | _ => true

/-- `read_capped` on a pipe that is read as long as it brings bytes. -/
def readCappedOn (cap : Nat) (pipe : Nat → PipeRead) (fuel : Nat) : Option (List UInt8) :=
  if (firstReads pipe fuel).any endsStream then some (readCapped cap (firstReads pipe fuel))
  else none

/-- All bytes that a pipe brings. -/
def drain (pipe : Nat → PipeRead) (fuel : Nat) : Option (List UInt8) :=
  if (firstReads pipe fuel).any endsStream then some (delivered (firstReads pipe fuel)) else none

/-- A pipe brings these bytes and is then closed. -/
def Closes (pipe : Nat → PipeRead) (bytes : List UInt8) : Prop :=
  Returns (drain pipe) bytes

theorem readCappedOn_drain (pipe : Nat → PipeRead) (fuel : Nat) :
    readCappedOn maxCaptureBytes pipe fuel =
      (drain pipe fuel).map (List.take maxCaptureBytes) := by
  rw [readCappedOn, drain, readCapped_eq (by decide)]
  split <;> rfl

/-- Nothing is delivered after the end of the stream. -/
theorem delivered_append {reads : List PipeRead} (ended : reads.any endsStream = true)
    (more : List PipeRead) : delivered (reads ++ more) = delivered reads := by
  induction reads with
  | nil => cases ended
  | cons read rest ih =>
      match read, ended with
      | .error _, _ => rfl
      | .ok [], _ => rfl
      | .ok (byte :: bytes), ended =>
          rw [List.cons_append, delivered, delivered, ih ended]

theorem delivered_concat_eof (reads : List PipeRead) :
    delivered (reads ++ [.ok []]) = delivered reads := by
  induction reads with
  | nil => rfl
  | cons read rest ih =>
      match read with
      | .error _ => rfl
      | .ok [] => rfl
      | .ok (byte :: bytes) => rw [List.cons_append, delivered, delivered, ih]

theorem stable_drain (pipe : Nat → PipeRead) : Stable (drain pipe) := by
  intro fuel more large bytes drained
  obtain ⟨later, rfl⟩ := Nat.exists_eq_add_of_le large
  have longer : firstReads pipe (fuel + later) =
      firstReads pipe fuel ++ ((List.range later).map (fuel + ·)).map pipe := by
    rw [firstReads, List.range_add, List.map_append]
    rfl
  unfold drain at drained ⊢
  split at drained
  · next ended =>
      rw [longer, List.any_append, ended, Bool.true_or, if_pos rfl, delivered_append ended]
      exact drained
  · cases drained

/-- A pipe whose reads are known. -/
def pipeOf (reads : List PipeRead) (round : Nat) : PipeRead :=
  reads.getD round (.ok [])

theorem closes_pipeOf (reads : List PipeRead) : Closes (pipeOf reads) (delivered reads) := by
  have first : firstReads (pipeOf reads) (reads.length + 1) = reads ++ [.ok []] := by
    apply List.ext_getElem
    · simp [firstReads]
    · intro round _ _
      by_cases inside : round < reads.length
      · simp [firstReads, pipeOf, inside]
      · have last : round = reads.length := by simp at *; omega
        simp [firstReads, pipeOf, last]
  refine (stable_drain _).returns_iff.mpr ⟨reads.length + 1, ?_⟩
  rw [drain, first, delivered_concat_eof, if_pos (by simp [endsStream])]

/-! ## The host of a step -/

/-- How a process ended: its exit code, or none when a signal ended it. -/
abbrev ExitStatus := Option Int32

/-- What the operating system answers while a native step is executed.  The rounds are those
of the loop that waits, or of the thread that reads. -/
structure NativeHost where
  /-- Spawning fails with the number of an error kind. -/
  spawn : List String → EnvVars → Except Int32 Unit
  fs : CgroupFs
  processId : UInt32
  nowNs : Nat
  /-- The blocking wait; it may never return. -/
  wait : Option (Except Unit ExitStatus)
  tryWait : Nat → Except Unit (Option ExitStatus)
  /-- Time since the loop was entered. -/
  elapsedNs : Nat → Nat
  cpuStat : Nat → List Char → Option (List Char)
  memoryEvents : List Char → Option (List Char)
  /-- A child that was sent a kill signal ends. -/
  reaps : Bool
  stdout : Nat → PipeRead
  stderr : Nat → PipeRead

inductive ExitOutcome where
  | exited (status : ExitStatus)
  | killedByWall
  | killedByCpu
  deriving DecidableEq

/-- How often the child is looked at. -/
def wallPollIntervalNs : Nat := 50000000

def Limits.wallLimitNs (limits : Limits) : Option Nat :=
  if 0 < limits.wallSeconds then some (limits.wallSeconds.toNat * 1000000000) else none

/-- Microseconds of a 32-bit number of seconds fit 64 bits. -/
def Limits.cpuLimitUsec (limits : Limits) : Option Nat :=
  if 0 < limits.cpuSeconds then some (limits.cpuSeconds.toNat * 1000000) else none

/-- What a round of the loop ends with. -/
inductive RoundEnd where
  | exited (status : ExitStatus)
  | unknown
  | overWall
  | overCpu
  deriving DecidableEq

variable {command : List String} {index : Nat} {limits : Limits}

namespace NativeHost

variable (host : NativeHost)

/-- The CPU time is compared when there is a limit, a group, and a report on the group. -/
def overCpu (cpuLimit : Option Nat) (cgroup : Option StepCgroup) (round : Nat) : Bool :=
  match cpuLimit, cgroup with
  | some limit, some group =>
      (cpuUsageUsec (host.cpuStat round (joinPath group.path "cpu.stat".toList))).any
        (limit ≤ ·.toNat)
  | _, _ => false

/-- One round of the loop. -/
def waitRound (wallLimit cpuLimit : Option Nat) (cgroup : Option StepCgroup) (round : Nat) :
    Option RoundEnd :=
  match host.tryWait round with
  | .ok (some status) => some (.exited status)
  | .error _ => some .unknown
  | .ok none =>
      if wallLimit.any (· ≤ host.elapsedNs round) then some .overWall
      else if host.overCpu cpuLimit cgroup round then some .overCpu
      else none

/-- A child over a limit is killed and waited for; a child that cannot be asked about is
left alone. -/
def settle : RoundEnd → Option ExitOutcome
  | .exited status => some (.exited status)
  | .unknown => some .killedByWall
  | .overWall => if host.reaps then some .killedByWall else none
  | .overCpu => if host.reaps then some .killedByCpu else none

def waitWithLimits (wallLimit cpuLimit : Option Nat) (cgroup : Option StepCgroup) (fuel : Nat) :
    Option ExitOutcome :=
  if wallLimit.isNone && cpuLimit.isNone then
    match host.wait with
    | none => none
    | some (.ok status) => some (.exited status)
    | some (.error _) => some .killedByWall
  else
    (await (host.waitRound wallLimit cpuLimit cgroup) fuel 0).bind host.settle

/-- The group of the step. -/
def cgroup (index : Nat) (limits : Limits) : Option StepCgroup :=
  StepCgroup.tryCreate host.fs host.processId host.nowNs (UInt32.ofNat index)
    limits.memoryMb limits.cpuSeconds

/-- The wait of a step. -/
def outcome (index : Nat) (limits : Limits) (fuel : Nat) : Option ExitOutcome :=
  host.waitWithLimits limits.wallLimitNs limits.cpuLimitUsec (host.cgroup index limits) fuel

/-- Whether the kernel says that it killed the child for its memory. -/
def oomKilled (index : Nat) (limits : Limits) : Bool :=
  (host.cgroup index limits).any fun group =>
    wasOomKilled (host.memoryEvents (joinPath group.path "memory.events.local".toList))

def executeNativeStep (crypto : Crypto) (index : Nat) (command : List String) (env : EnvVars)
    (limits : Limits) (step : Step) (fuel : Nat) : Option (StepOutput × NativeCaptures) :=
  let emptyCaps := NativeCaptures.ofBytes crypto [] []
  let output (status : StepStatus) (fields : List (List UInt8)) : StepOutput :=
    ⟨UInt32.ofNat index, status, hashCanonical crypto (Cbor.array (step.encode :: fields))⟩
  if command.isEmpty then
    some (output .failed [Cbor.text "empty_command"], emptyCaps)
  else
    match host.spawn command env with
    | .error kind =>
        some (output .failed [Cbor.text "spawn_failed", Cbor.signed kind.toInt], emptyCaps)
    | .ok () =>
        match host.outcome index limits fuel with
        | none => none
        | some (.exited status) => do
            -- The readers are joined before the memory is looked at.
            let stdout ← readCappedOn maxCaptureBytes host.stdout fuel
            let stderr ← readCappedOn maxCaptureBytes host.stderr fuel
            if host.oomKilled index limits then
              return (output (.limitExceeded .memory) [LimitKind.memory.encode], emptyCaps)
            else
              let caps := NativeCaptures.ofBytes crypto stdout stderr
              let hashes := [Cbor.byteArray caps.stdoutSha256.toList,
                Cbor.byteArray caps.stderrSha256.toList]
              if status = some 0 then
                return (output .success
                  (Cbor.text "ok" :: Cbor.signed (status.getD 0).toInt :: hashes), caps)
              else
                return (output .failed (Cbor.text "exit_nonzero" ::
                  Cbor.signed (status.getD (-1)).toInt :: hashes), caps)
        | some .killedByWall =>
            -- The readers are left behind.
            some (output (.limitExceeded .wall) [LimitKind.wall.encode], emptyCaps)
        | some .killedByCpu =>
            some (output (.limitExceeded .cpu) [LimitKind.cpu.encode], emptyCaps)

/-! ## The fate of the child -/

/-- What becomes of the child when the wait is over. -/
def aftermath (index : Nat) (limits : Limits) : ExitOutcome → Nat → Option ChildRun
  | .exited status, fuel =>
      (drain host.stdout fuel).bind fun stdout => (drain host.stderr fuel).map fun stderr =>
        .exited status stdout stderr (host.oomKilled index limits)
  | .killedByWall, _ => some .killedByWall
  | .killedByCpu, _ => some .killedByCpu

/-- What becomes of the child of a step. -/
def childRun (index : Nat) (command : List String) (env : EnvVars) (limits : Limits)
    (fuel : Nat) : Option ChildRun :=
  match host.spawn command env with
  | .error kind => some (.spawnFailed kind)
  | .ok () => (host.outcome index limits fuel).bind (host.aftermath index limits · fuel)

/-- On a host, a step does what is said for the fate of its child there. -/
theorem executeNativeStep_eq (crypto : Crypto) (world : World) (index : Nat)
    (nonempty : command ≠ []) (env : EnvVars) (limits : Limits) (step : Step) (fuel : Nat) :
    host.executeNativeStep crypto index command env limits step fuel =
      (host.childRun index command env limits fuel).map fun run =>
        Jobs.executeNativeStep crypto { world with execNative := fun _ _ _ _ => run } index command
          env limits step := by
  have given : command.isEmpty = false := List.isEmpty_eq_false_iff.mpr nonempty
  unfold executeNativeStep childRun Jobs.executeNativeStep
  simp only [given, Bool.false_eq_true, if_false]
  cases host.spawn command env with
  | error kind => rfl
  | ok _ =>
      match host.outcome index limits fuel with
      | none => rfl
      | some .killedByWall => rfl
      | some .killedByCpu => rfl
      | some (.exited status) =>
          simp only [readCappedOn_drain, aftermath, Option.bind_some]
          cases drain host.stdout fuel with
          | none => rfl
          | some stdout =>
              cases drain host.stderr fuel with
              | none => rfl
              | some stderr =>
                  cases host.oomKilled index limits with
                  | true => rfl
                  | false =>
                      by_cases success : status = some 0
                      · subst success
                        rfl
                      · simp only [Option.map_some, Option.bind_eq_bind, Option.bind_some,
                          Option.pure_def, success, if_false, Bool.false_eq_true]
                        rfl

/-! ## Steps that return -/

/-- A sleep takes its time. -/
def Ticks : Prop :=
  ∀ round, host.elapsedNs round + wallPollIntervalNs ≤ host.elapsedNs (round + 1)

variable {host}

theorem Ticks.le_elapsedNs (ticks : host.Ticks) (round : Nat) :
    round * wallPollIntervalNs ≤ host.elapsedNs round := by
  induction round with
  | zero => exact Nat.zero_le _ |>.trans' (by omega)
  | succ round ih =>
      have later := ticks round
      rw [Nat.add_mul, Nat.one_mul]
      omega

/-- Twenty rounds a second are enough to reach the limit. -/
theorem Ticks.answered (ticks : host.Ticks) (limited : 0 < limits.wallSeconds)
    (cpuLimit : Option Nat) (group : Option StepCgroup) :
    ∃ round ≤ 20 * limits.wallSeconds.toNat, ∃ found,
      Answers (host.waitRound limits.wallLimitNs cpuLimit group) round found := by
  apply exists_answers
  have reached := ticks.le_elapsedNs (20 * limits.wallSeconds.toNat)
  have passed : limits.wallSeconds.toNat * 1000000000 ≤
      host.elapsedNs (20 * limits.wallSeconds.toNat) := by
    refine le_trans (le_of_eq ?_) reached
    rw [wallPollIntervalNs, Nat.mul_comm 20, Nat.mul_assoc]
  unfold waitRound
  match host.tryWait (20 * limits.wallSeconds.toNat) with
  | .ok (some status) => rfl
  | .error _ => rfl
  | .ok none =>
      rw [Limits.wallLimitNs, if_pos limited, Option.any_some, decide_eq_true passed]
      rfl

/-- With a wall limit the wait comes to an end. -/
theorem Ticks.outcome_returns (ticks : host.Ticks) (reaps : host.reaps = true) (index : Nat)
    (limited : 0 < limits.wallSeconds) :
    ∃ outcome, Returns (host.outcome index limits) outcome := by
  obtain ⟨round, -, found, answers⟩ := ticks.answered limited limits.cpuLimitUsec
    (host.cgroup index limits)
  obtain ⟨outcome, settled⟩ : ∃ outcome, host.settle found = some outcome := by
    cases found <;> simp [settle, reaps]
  refine ⟨outcome, ?_⟩
  have polled : (limits.wallLimitNs.isNone && limits.cpuLimitUsec.isNone) = false := by
    rw [Limits.wallLimitNs, if_pos limited]
    rfl
  refine (answers.returns.bind (fun found _ => host.settle found)
    (.of_forall fun _ => settled)).congr fun fuel => ?_
  rw [NativeHost.outcome, waitWithLimits, polled]
  rfl

/-- The output of a child that exits is read to its end. -/
def Finishes (host : NativeHost) (index : Nat) (limits : Limits) : Prop :=
  ∀ status, Returns (host.outcome index limits) (.exited status) →
    (∃ stdout, Closes host.stdout stdout) ∧ ∃ stderr, Closes host.stderr stderr

theorem aftermath_exited (index : Nat) (limits : Limits) {stdout stderr : List UInt8}
    (out : Closes host.stdout stdout) (err : Closes host.stderr stderr) (status : ExitStatus) :
    Returns (host.aftermath index limits (.exited status))
      (.exited status stdout stderr (host.oomKilled index limits)) :=
  out.bind (fun stdout fuel => (drain host.stderr fuel).map fun stderr =>
    ChildRun.exited status stdout stderr (host.oomKilled index limits))
    (err.map fun stderr => ChildRun.exited status stdout stderr (host.oomKilled index limits))

theorem stable_outcome (host : NativeHost) (index : Nat) (limits : Limits) :
    Stable (host.outcome index limits) := by
  unfold outcome waitWithLimits
  split
  · exact .const _
  · exact (stable_await _).bind fun found => .const _

theorem stable_aftermath (host : NativeHost) (index : Nat) (limits : Limits)
    (outcome : ExitOutcome) : Stable (host.aftermath index limits outcome) := by
  cases outcome with
  | exited status => exact (stable_drain _).bind fun stdout => (stable_drain _).map _
  | killedByWall => exact .const _
  | killedByCpu => exact .const _

theorem stable_childRun (host : NativeHost) (index : Nat) (command : List String) (env : EnvVars)
    (limits : Limits) : Stable (host.childRun index command env limits) := by
  unfold childRun
  split
  · exact .const _
  · exact (host.stable_outcome index limits).bind (host.stable_aftermath index limits)

/-- Under a wall limit the fate of a child is known as soon as its pipes are closed, or it
is killed. -/
theorem childRun_returns_iff (ticks : host.Ticks) (reaps : host.reaps = true)
    (limited : 0 < limits.wallSeconds) {env : EnvVars} (spawned : host.spawn command env = .ok ()) :
    (∃ run, Returns (host.childRun index command env limits) run) ↔
      host.Finishes index limits := by
  have waits : host.childRun index command env limits =
      fun fuel => (host.outcome index limits fuel).bind (host.aftermath index limits · fuel) := by
    unfold childRun
    rw [spawned]
  obtain ⟨outcome, returned⟩ := ticks.outcome_returns reaps index limited
  rw [waits]
  constructor
  · rintro ⟨run, returns⟩ status exits
    -- With enough rounds for the wait and for the rest, the rest has drained both pipes.
    obtain ⟨enough, waited⟩ := exits
    obtain ⟨enough', done⟩ := returns
    have last := done (max enough enough') (le_max_right _ _)
    dsimp only at last
    rw [waited _ (le_max_left _ _), Option.bind_some] at last
    obtain ⟨stdout, out, rest⟩ := Option.bind_eq_some_iff.mp last
    obtain ⟨stderr, err, -⟩ := Option.map_eq_some_iff.mp rest
    exact ⟨⟨stdout, (stable_drain _).returns_iff.mpr ⟨_, out⟩⟩,
      ⟨stderr, (stable_drain _).returns_iff.mpr ⟨_, err⟩⟩⟩
  · intro finishes
    cases outcome with
    | exited status =>
        obtain ⟨⟨stdout, out⟩, stderr, err⟩ := finishes status returned
        exact ⟨_, returned.bind (host.aftermath index limits)
          (aftermath_exited index limits out err status)⟩
    | killedByWall =>
        exact ⟨_, returned.bind (host.aftermath index limits) (.of_forall fun _ => rfl)⟩
    | killedByCpu =>
        exact ⟨_, returned.bind (host.aftermath index limits) (.of_forall fun _ => rfl)⟩

end NativeHost

/-- A native step with a wall limit returns exactly when its child is killed or nobody keeps
a pipe of the exited child open: the limit does not bound the wait for the output. -/
theorem native_step_returns_iff (crypto : Crypto) {host : NativeHost} (ticks : host.Ticks)
    (reaps : host.reaps = true) (index : Nat) {limits : Limits}
    (limited : 0 < limits.wallSeconds) {command : List String} (nonempty : command ≠ [])
    {env : EnvVars} (spawned : host.spawn command env = .ok ()) (step : Step) :
    (∃ result, Returns (host.executeNativeStep crypto index command env limits step) result) ↔
      host.Finishes index limits := by
  have refined := host.executeNativeStep_eq crypto (printingWorld fun _ => []) index nonempty env
    limits step
  rw [← NativeHost.childRun_returns_iff ticks reaps limited spawned]
  constructor
  · rintro ⟨result, enough, done⟩
    obtain ⟨run, known, -⟩ :=
      Option.map_eq_some_iff.mp ((refined enough).symm.trans (done enough le_rfl))
    exact ⟨run, (host.stable_childRun index command env limits).returns_iff.mpr ⟨enough, known⟩⟩
  · rintro ⟨run, known⟩
    exact ⟨_, (known.map _).congr fun fuel => (refined fuel).symm⟩

/-- A host whose child exits in the third round after it printed what is given. -/
def promptHost (stdout : Nat → PipeRead) : NativeHost where
  spawn _ _ := .ok ()
  fs := ⟨fun _ => none, fun _ => false, fun _ _ => false⟩
  processId := 1
  nowNs := 0
  wait := some (.ok (some 0))
  tryWait round := .ok (if round < 2 then none else some (some 0))
  elapsedNs round := round * wallPollIntervalNs
  cpuStat _ _ := none
  memoryEvents _ := none
  reaps := true
  stdout := stdout
  stderr := pipeOf []

theorem ticks_promptHost (stdout : Nat → PipeRead) : (promptHost stdout).Ticks := by
  intro round
  exact le_of_eq (Nat.succ_mul round wallPollIntervalNs).symm

/-- One second. -/
def secondLimit : Limits := ⟨0, 0, 1, ⟨[], .deny⟩⟩

/-- A child that prints one byte is waited for; a child that leaves its output to a process
that goes on printing is not, although it exits in time. -/
theorem native_step_returns_iff_prompt :
    (∃ result, Returns ((promptHost (pipeOf [.ok [104]])).executeNativeStep Core.modelCrypto 0
      ["make"] ⟨[], .nil⟩ secondLimit (.captureLog "build")) result) ∧
    ¬∃ result, Returns ((promptHost fun _ => .ok [104]).executeNativeStep Core.modelCrypto 0
      ["make"] ⟨[], .nil⟩ secondLimit (.captureLog "build")) result := by
  constructor
  · refine (native_step_returns_iff _ (ticks_promptHost _) rfl 0 (by decide) (by decide) rfl _).mpr
      fun _ _ => ⟨⟨_, closes_pipeOf _⟩, _, closes_pipeOf []⟩
  · rw [native_step_returns_iff _ (ticks_promptHost _) rfl 0 (by decide) (by decide) rfl _]
    intro finishes
    have exits : Returns ((promptHost fun _ => .ok [104]).outcome 0 secondLimit)
        (.exited (some 0)) := by
      refine ((promptHost _).stable_outcome 0 secondLimit).returns_iff.mpr ⟨3, ?_⟩
      decide
    obtain ⟨⟨stdout, enough, drained⟩, -⟩ := finishes _ exits
    have endless (fuel : Nat) : drain (fun _ => .ok [104]) fuel = none := by
      simp [drain, firstReads, endsStream]
    cases (endless enough).symm.trans (drained enough le_rfl)

/-! ## The pipeline -/

/-- The world in which the children meet the given fates. -/
def World.withRuns (world : World) (runs : Nat → ChildRun) : World :=
  { world with execNative := fun index _ _ _ => runs index }

section Pipeline

variable (crypto : Crypto) (world : OpenWorld) (hosts : Nat → NativeHost)

/-- One round of the loop of `execute_pipeline`, with the native steps on their hosts. -/
def executeStepOn (index : Nat) (step : Step) (progress : Progress) (fuel : Nat) :
    Option (Except PipelineError Progress) :=
  match step with
  | .execNative command env limits =>
      ((hosts index).executeNativeStep crypto index command env limits
        (.execNative command env limits) fuel).map fun (output, caps) =>
          .ok ({ progress with lastNative := some caps }.push output)
  | step => executeStepIn crypto world index step progress

def executeStepsOn (index : Nat) (steps : List Step) (progress : Progress) (fuel : Nat) :
    Option (Except PipelineError Progress) :=
  executeRounds (fun index step progress => executeStepOn crypto world hosts index step progress
    fuel) index steps progress

def executePipelineOn (pipeline : Pipeline) (fuel : Nat) :
    Option (Except PipelineError PipelineResult) :=
  (executeStepsOn crypto world hosts 0 pipeline.steps ⟨[], [], none⟩ fuel).map
    (concludeRounds crypto)

/-- The fetches and the WASM calls of the steps from a position on come back. -/
def CallsReturn (index : Nat) (steps : List Step) : Prop :=
  ∀ (offset : Nat) (step : Step), steps[offset]? = some step →
    (∀ command env limits, step ≠ .execNative command env limits) → step.callsOut = true →
      world.returns (index + offset) = true

/-- The fates of the children of the native steps from a position on. -/
def Fates (runs : Nat → ChildRun) (index : Nat) (steps : List Step) : Prop :=
  ∀ offset command env limits, steps[offset]? = some (.execNative command env limits) →
    command ≠ [] →
      Returns ((hosts (index + offset)).childRun (index + offset) command env limits)
        (runs (index + offset))

variable {world hosts} {runs : Nat → ChildRun}

variable {rest : List Step} {step : Step}

theorem CallsReturn.tail (calls : CallsReturn world index (step :: rest)) :
    CallsReturn world (index + 1) rest := by
  intro offset other here foreign asks
  rw [Nat.add_right_comm]
  exact calls (offset + 1) other (by simpa using here) foreign asks

theorem Fates.tail (fates : Fates hosts runs index (step :: rest)) :
    Fates hosts runs (index + 1) rest := by
  intro offset command env limits here nonempty
  have shifted := fates (offset + 1) command env limits (by simpa using here) nonempty
  rwa [← Nat.add_assoc, Nat.add_right_comm] at shifted

/-- A native step on a host does what it does in a world that knows the fate of its child. -/
theorem executeNativeStep_returns (world : World) {host : NativeHost} {env : EnvVars}
    (fate : command ≠ [] → Returns (host.childRun index command env limits) (runs index))
    (step : Step) :
    Returns (host.executeNativeStep crypto index command env limits step)
      (executeNativeStep crypto (world.withRuns runs) index command env limits step) := by
  by_cases nonempty : command = []
  · subst nonempty
    exact .of_forall fun _ => rfl
  · have known := (fate nonempty).map fun run => executeNativeStep crypto
      { world with execNative := fun _ _ _ _ => run } index command env limits step
    exact known.congr fun fuel =>
      (host.executeNativeStep_eq crypto world index nonempty env limits step fuel).symm

theorem executeStepOn_returns (calls : CallsReturn world index (step :: rest))
    (fates : Fates hosts runs index (step :: rest)) (progress : Progress) :
    Returns (executeStepOn crypto world hosts index step progress)
      (executeStep crypto (world.withRuns runs) index step progress) := by
  cases step with
  | execNative command env limits =>
      have step := executeNativeStep_returns crypto world.toWorld (fates 0 command env limits rfl)
        (.execNative command env limits)
      exact step.map fun (output, caps) =>
        (.ok ({ progress with lastNative := some caps }.push output) :
          Except PipelineError Progress)
  | captureLog name => exact .of_forall fun _ => rfl
  | captureArtifact path name => exact .of_forall fun _ => rfl
  | _ =>
      -- a fetch or a WASM call, which comes back
      have comes : world.returns index = true := calls 0 _ rfl (by rintro _ _ _ ⟨⟩) rfl
      refine .of_forall fun _ => ?_
      simp only [executeStepOn, executeStepIn, comes, Bool.not_true, Bool.and_false]
      rfl

/-- Induction on the steps: the loop stops at the same error or comes to the same end. -/
theorem executeStepsOn_returns {steps : List Step} (calls : CallsReturn world index steps)
    (fates : Fates hosts runs index steps) (progress : Progress) :
    Returns (executeStepsOn crypto world hosts index steps progress)
      (executeSteps crypto (world.withRuns runs) index steps progress) := by
  induction steps generalizing index progress with
  | nil => exact .of_forall fun _ => rfl
  | cons step rest ih =>
      have first := executeStepOn_returns crypto calls fates progress
      rw [executeSteps]
      cases stepped : executeStep crypto (world.withRuns runs) index step progress with
      | error error =>
          rw [stepped] at first
          exact first.bind _ (.of_forall fun _ => rfl)
      | ok next =>
          rw [stepped] at first
          exact first.bind _ (ih calls.tail fates.tail next)

/-- If the fetches and the WASM calls come back, and every native step has a wall limit and
leaves no pipe open behind an exited child, then the pipeline comes to an end on its hosts,
with the result for the fates of the children there. -/
theorem pipeline_on_hosts_refines (pipeline : Pipeline)
    (calls : CallsReturn world 0 pipeline.steps) (ticks : ∀ index, (hosts index).Ticks)
    (reaps : ∀ index, (hosts index).reaps = true)
    (limited : ∀ command env limits, .execNative command env limits ∈ pipeline.steps →
      0 < limits.wallSeconds)
    (finishes : ∀ index command env limits,
      pipeline.steps[index]? = some (.execNative command env limits) →
        (hosts index).Finishes index limits) :
    ∃ runs, Fates hosts runs 0 pipeline.steps ∧
      Returns (executePipelineOn crypto world hosts pipeline)
        (executePipeline crypto (world.withRuns runs) pipeline) := by
  -- The fate of every child is known after finitely many rounds.
  have known (index : Nat) : ∃ run, ∀ command env limits,
      pipeline.steps[index]? = some (.execNative command env limits) →
        Returns ((hosts index).childRun index command env limits) run := by
    match here : pipeline.steps[index]? with
    | some (.execNative command env limits) =>
        cases spawned : (hosts index).spawn command env with
        | error kind =>
            refine ⟨.spawnFailed kind, ?_⟩
            rintro _ _ _ ⟨⟩
            refine .of_forall fun fuel => ?_
            rw [NativeHost.childRun, spawned]
        | ok _ =>
            obtain ⟨run, returns⟩ := (NativeHost.childRun_returns_iff (ticks index) (reaps index)
              (limited _ _ _ (List.mem_of_getElem? here)) spawned).mpr
                (finishes index _ _ _ here)
            refine ⟨run, ?_⟩
            rintro _ _ _ ⟨⟩
            exact returns
    | none => exact ⟨.killedByWall, nofun⟩
    | some (.execWasm _ _ _) => exact ⟨.killedByWall, nofun⟩
    | some (.sourceFetch _ _) => exact ⟨.killedByWall, nofun⟩
    | some (.captureLog _) => exact ⟨.killedByWall, nofun⟩
    | some (.captureArtifact _ _) => exact ⟨.killedByWall, nofun⟩
  choose runs known using known
  have fates : Fates hosts runs 0 pipeline.steps := by
    intro offset command env limits here _
    rw [Nat.zero_add]
    exact known offset command env limits here
  exact ⟨runs, fates, (executeStepsOn_returns crypto calls fates _).map _⟩

end Pipeline

/-- A native step of at most one second whose output is then captured. -/
def limitedPipeline : Pipeline where
  steps := [.execNative ["make"] ⟨[], EnvVars.sorted_nil⟩ secondLimit, .captureLog "build"]

theorem pipeline_on_hosts_refines_prompt :
    let hosts := fun _ => promptHost (pipeOf [.ok [104]])
    ∃ runs, Fates hosts runs 0 limitedPipeline.steps ∧
      Returns (executePipelineOn Core.modelCrypto ⟨printingWorld fun _ => [], fun _ => true⟩ hosts
          limitedPipeline)
        (executePipeline Core.modelCrypto ((printingWorld fun _ => []).withRuns runs)
          limitedPipeline) := by
  refine pipeline_on_hosts_refines _ _ (fun _ _ _ _ _ => rfl) (fun _ => ticks_promptHost _)
    (fun _ => rfl) ?_ ?_
  · intro command env limits member
    have here : Step.execNative command env limits =
        .execNative ["make"] ⟨[], .nil⟩ secondLimit := by
      simpa [limitedPipeline] using member
    cases here
    decide
  · exact fun _ _ _ _ _ _ _ => ⟨⟨_, closes_pipeOf _⟩, _, closes_pipeOf []⟩

end Cosaci.Jobs
