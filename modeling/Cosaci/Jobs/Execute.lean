import Cosaci.Foundation.Word
import Cosaci.Jobs.Pipeline

/-!
# Executing a pipeline

`execute_pipeline` and its step executors.  What git, wasmtime and the operating
system do with a step is decided by a `World`, one answer for each position of the
pipeline, so that two executions of one pipeline may differ.  In an `OpenWorld` an answer
may never come, and then neither does a result.
-/

namespace Cosaci.Jobs

open Foundation
open Cosaci.Core (Crypto Hash)

/-! ## The outside world -/

/-- Why a source fetch failed; the accompanying texts are only logged. -/
inductive SourceFetchError where
  | gitNotFound
  | cloneFailed
  | checkoutFailed
  | resolveFailed
  | io
  deriving DecidableEq, Repr

structure SourceFetchOutput where
  resolvedSha : String
  treeHash : Hash
  deriving DecidableEq

inductive ExecLimitKind where
  | cpu
  | memory
  | wall
  deriving DecidableEq, Repr

/-- Outcome of a limit-checked call of a WASM module. -/
inductive ExecOutcome where
  | ok (value : Int32)
  | limitExceeded (kind : ExecLimitKind)
  deriving DecidableEq

/-- Limits in the units of the WASM runtime. -/
structure ExecLimits where
  fuel : UInt64
  memoryBytes : UInt64
  wallSeconds : UInt64
  deriving DecidableEq, Repr

/-- What becomes of a native child process.  An exit code is missing when a signal
ended the process. -/
inductive ChildRun where
  | spawnFailed (kind : Int32)
  | exited (code : Option Int32) (stdout stderr : List UInt8) (oomKilled : Bool)
  | killedByWall
  | killedByCpu
  deriving DecidableEq

/-- The behaviour of the outside world during one execution. -/
structure World where
  sourceFetch : Nat → String → String → Except SourceFetchError SourceFetchOutput
  execWasm : Nat → List UInt8 → List UInt8 → ExecLimits → Except String ExecOutcome
  execNative : Nat → List String → EnvVars → Limits → ChildRun

/-! ## Step executors -/

/-- The encoding of a tuple. -/
private def tuple (items : List (List UInt8)) : List UInt8 :=
  Cbor.array items

def SourceFetchError.kindId : SourceFetchError → Nat
  | .gitNotFound => 0
  | .cloneFailed => 1
  | .checkoutFailed => 2
  | .resolveFailed => 3
  | .io => 4

def SourceFetchOutput.outputHash (crypto : Crypto) (output : SourceFetchOutput) : Hash :=
  let sha := utf8 output.resolvedSha.toList
  crypto.sha256 (littleEndian 8 sha.length ++ sha ++ output.treeHash.toList)

def executeSourceFetchStep (crypto : Crypto) (world : World) (index : Nat)
    (url reference : String) (step : Step) : StepOutput :=
  match world.sourceFetch index url reference with
  | .ok output => ⟨UInt32.ofNat index, .success, output.outputHash crypto⟩
  | .error kind => ⟨UInt32.ofNat index, .failed,
      hashCanonical crypto (tuple [step.encode, Cbor.unsigned kind.kindId])⟩

/-- Fuel units for one second of CPU time. -/
def fuelPerCpuSecond : UInt64 := 1000000000

/-- The limits of a step in the units of the WASM runtime.  The factors are 32-bit
values, so the products of the source never saturate. -/
def execLimits (limits : Limits) : ExecLimits where
  fuel := limits.cpuSeconds.toUInt64 * fuelPerCpuSecond
  memoryBytes := limits.memoryMb.toUInt64 * (1024 * 1024)
  wallSeconds := limits.wallSeconds.toUInt64

def ExecLimitKind.toLimitKind : ExecLimitKind → LimitKind
  | .cpu => .cpu
  | .memory => .memory
  | .wall => .wall

def moduleHash (crypto : Crypto) (module : List UInt8) : Hash :=
  crypto.sha256 module

/-- Digest of a module and its 32-bit result. -/
def wasmOutputHash (crypto : Crypto) (module : Hash) (value : Int32) : Hash :=
  crypto.sha256 (module.toList ++ littleEndian 4 value.toUInt32.toNat)

def executeWasmStep (crypto : Crypto) (world : World) (index : Nat)
    (module argsCbor : List UInt8) (limits : Limits) (step : Step) :
    Except PipelineError StepOutput :=
  match world.execWasm index module argsCbor (execLimits limits) with
  | .error detail => .error (.wasmRuntime (UInt32.ofNat index) detail)
  | .ok (.ok value) => .ok ⟨UInt32.ofNat index, .success,
      wasmOutputHash crypto (moduleHash crypto module) value⟩
  | .ok (.limitExceeded kind) => .ok ⟨UInt32.ofNat index, .limitExceeded kind.toLimitKind,
      hashCanonical crypto (tuple [step.encode, kind.toLimitKind.encode])⟩

/-- Cap on the captured bytes of each pipe. -/
def maxCaptureBytes : Nat := 16 * 1024 * 1024

/-- Captured bytes of one native step. -/
structure NativeCaptures where
  stdoutBytes : List UInt8
  stdoutSha256 : Hash
  stderrBytes : List UInt8
  stderrSha256 : Hash
  deriving DecidableEq

def NativeCaptures.ofBytes (crypto : Crypto) (stdout stderr : List UInt8) : NativeCaptures :=
  ⟨stdout, crypto.sha256 stdout, stderr, crypto.sha256 stderr⟩

def executeNativeStep (crypto : Crypto) (world : World) (index : Nat)
    (command : List String) (env : EnvVars) (limits : Limits) (step : Step) :
    StepOutput × NativeCaptures :=
  let emptyCaps := NativeCaptures.ofBytes crypto [] []
  let output (status : StepStatus) (fields : List (List UInt8)) : StepOutput :=
    ⟨UInt32.ofNat index, status, hashCanonical crypto (tuple (step.encode :: fields))⟩
  if command.isEmpty then
    (output .failed [Cbor.text "empty_command"], emptyCaps)
  else
    match world.execNative index command env limits with
    | .spawnFailed kind =>
        (output .failed [Cbor.text "spawn_failed", Cbor.signed kind.toInt], emptyCaps)
    | .exited code stdout stderr oomKilled =>
        -- The OOM counter of the cgroup outranks the exit status.
        if oomKilled then
          (output (.limitExceeded .memory) [LimitKind.memory.encode], emptyCaps)
        else
          let caps := NativeCaptures.ofBytes crypto (stdout.take maxCaptureBytes)
            (stderr.take maxCaptureBytes)
          let hashes := [Cbor.byteArray caps.stdoutSha256.toList,
            Cbor.byteArray caps.stderrSha256.toList]
          if code = some 0 then
            (output .success (Cbor.text "ok" :: Cbor.signed 0 :: hashes), caps)
          else
            (output .failed (Cbor.text "exit_nonzero" ::
              Cbor.signed (code.getD (-1)).toInt :: hashes), caps)
    | .killedByWall => (output (.limitExceeded .wall) [LimitKind.wall.encode], emptyCaps)
    | .killedByCpu => (output (.limitExceeded .cpu) [LimitKind.cpu.encode], emptyCaps)

/-- Emit the two streams of the last native step, if there was one. -/
def executeCaptureLogStep (crypto : Crypto) (index : Nat) (name : String)
    (lastNative : Option NativeCaptures) (step : Step) : StepOutput × List CapturedOutput :=
  match lastNative with
  | none => (⟨UInt32.ofNat index, .failed, hashCanonical crypto
      (tuple [step.encode, Cbor.text "no_preceding_exec_native"])⟩, [])
  | some caps =>
      (⟨UInt32.ofNat index, .success, hashCanonical crypto
        (tuple [step.encode, Cbor.text "ok", Cbor.byteArray caps.stdoutSha256.toList,
          Cbor.byteArray caps.stderrSha256.toList])⟩,
        [⟨UInt32.ofNat index, name ++ ".stdout", .stdout, caps.stdoutSha256,
            UInt64.ofNat caps.stdoutBytes.length, caps.stdoutBytes⟩,
          ⟨UInt32.ofNat index, name ++ ".stderr", .stderr, caps.stderrSha256,
            UInt64.ofNat caps.stderrBytes.length, caps.stderrBytes⟩])

def notImplemented (crypto : Crypto) (index : Nat) (step : Step) : StepOutput :=
  ⟨UInt32.ofNat index, .notImplemented, hashCanonical crypto step.encode⟩

/-! ## The pipeline loop -/

/-- What the loop has accumulated: outputs, captures and the streams of the last
native step. -/
structure Progress where
  stepOutputs : List StepOutput
  captures : List CapturedOutput
  lastNative : Option NativeCaptures

def Progress.push (progress : Progress) (output : StepOutput) : Progress :=
  { progress with stepOutputs := progress.stepOutputs ++ [output] }

/-- One round of the loop. -/
def executeStep (crypto : Crypto) (world : World) (index : Nat) (step : Step)
    (progress : Progress) : Except PipelineError Progress :=
  match step with
  | .execWasm module argsCbor limits =>
      (executeWasmStep crypto world index module argsCbor limits step).map progress.push
  | .sourceFetch url reference =>
      .ok (progress.push (executeSourceFetchStep crypto world index url reference step))
  | .execNative command env limits =>
      let (output, caps) := executeNativeStep crypto world index command env limits step
      .ok ({ progress with lastNative := some caps }.push output)
  | .captureLog name =>
      let (output, captured) :=
        executeCaptureLogStep crypto index name progress.lastNative step
      .ok ({ progress with captures := progress.captures ++ captured }.push output)
  | .captureArtifact _ _ => .ok (progress.push (notImplemented crypto index step))

/-- The remaining rounds, from a given position on. -/
def executeSteps (crypto : Crypto) (world : World) :
    Nat → List Step → Progress → Except PipelineError Progress
  | _, [], progress => .ok progress
  | index, step :: rest, progress =>
      match executeStep crypto world index step progress with
      | .error error => .error error
      | .ok progress => executeSteps crypto world (index + 1) rest progress

/-- Execute every step of a pipeline in order. -/
def executePipeline (crypto : Crypto) (world : World) (pipeline : Pipeline) :
    Except PipelineError PipelineResult :=
  (executeSteps crypto world 0 pipeline.steps ⟨[], [], none⟩).map fun progress =>
    ⟨progress.stepOutputs,
      hashCanonical crypto (Cbor.array (progress.stepOutputs.map StepOutput.encode)),
      progress.captures⟩

/-- Some step did not succeed. -/
def PipelineResult.Unsuccessful (result : PipelineResult) : Prop :=
  ∃ output ∈ result.steps, output.status ≠ .success

instance (result : PipelineResult) : Decidable result.Unsuccessful :=
  inferInstanceAs (Decidable (∃ output ∈ result.steps, _))

/-! ## What a round adds -/

variable {crypto : Crypto} {world : World}

private theorem stepIndex_executeNativeStep (index : Nat) (command : List String)
    (env : EnvVars) (limits : Limits) (step : Step) :
    (executeNativeStep crypto world index command env limits step).1.stepIndex =
      UInt32.ofNat index := by
  unfold executeNativeStep
  split
  · rfl
  · split
    · rfl
    · split
      · rfl
      · dsimp only
        split <;> rfl
    · rfl
    · rfl

/-- A round that returns adds one output. -/
theorem executeStep_outputs {index : Nat} {step : Step} {before after : Progress}
    (executed : executeStep crypto world index step before = .ok after) :
    ∃ output : StepOutput, output.stepIndex = UInt32.ofNat index ∧
      after.stepOutputs = before.stepOutputs ++ [output] := by
  cases step with
  | execWasm module argsCbor limits =>
      simp only [executeStep, executeWasmStep] at executed
      split at executed <;> cases executed <;> exact ⟨_, rfl, rfl⟩
  | sourceFetch url reference =>
      cases executed
      refine ⟨_, ?_, rfl⟩
      unfold executeSourceFetchStep
      split <;> rfl
  | execNative command env limits =>
      cases executed
      exact ⟨_, stepIndex_executeNativeStep index command env limits _, rfl⟩
  | captureLog name =>
      cases executed
      refine ⟨_, ?_, rfl⟩
      cases before.lastNative <;> rfl
  | captureArtifact path name =>
      cases executed
      exact ⟨_, rfl, rfl⟩

/-- The loop never drops an output. -/
theorem executeSteps_outputs {steps : List Step} {index : Nat} {before after : Progress}
    (executed : executeSteps crypto world index steps before = .ok after) :
    ∃ added : List StepOutput, added.length = steps.length ∧
      after.stepOutputs = before.stepOutputs ++ added := by
  induction steps generalizing index before with
  | nil =>
      cases executed
      exact ⟨[], rfl, by simp⟩
  | cons step rest ih =>
      rw [executeSteps] at executed
      split at executed
      · cases executed
      · next middle first =>
          rcases executeStep_outputs first with ⟨output, -, pushed⟩
          rcases ih executed with ⟨added, length, later⟩
          refine ⟨output :: added, by simp [length], ?_⟩
          rw [later, pushed, List.append_assoc]
          rfl

/-- File captures have no executor, so a pipeline that contains one never
succeeds as a whole, whatever the outside world does. -/
theorem unsuccessful_of_captureArtifact {steps : List Step} {path name : String} {index : Nat}
    {before after : Progress} (present : Step.captureArtifact path name ∈ steps)
    (executed : executeSteps crypto world index steps before = .ok after) :
    ∃ output ∈ after.stepOutputs, output.status ≠ .success := by
  induction steps generalizing index before with
  | nil => cases present
  | cons step rest ih =>
      rw [executeSteps] at executed
      split at executed
      · cases executed
      · next middle first =>
          rcases List.mem_cons.mp present with rfl | present
          · cases first
            rcases executeSteps_outputs executed with ⟨added, -, later⟩
            refine ⟨notImplemented crypto index (.captureArtifact path name), ?_, ?_⟩
            · simp [later, Progress.push]
            · simp [notImplemented]
          · exact ih present executed

variable {pipeline : Pipeline}

theorem executePipeline_unsuccessful {path name : String} {result : PipelineResult}
    (present : Step.captureArtifact path name ∈ pipeline.steps)
    (executed : executePipeline crypto world pipeline = .ok result) : result.Unsuccessful := by
  unfold executePipeline at executed
  cases loop : executeSteps crypto world 0 pipeline.steps ⟨[], [], none⟩ with
  | error error =>
      rw [loop] at executed
      cases executed
  | ok progress =>
      rw [loop] at executed
      cases executed
      exact unsuccessful_of_captureArtifact present loop

/-! ## Calls that never return -/

/-- A world in which the call that a step makes may never come back. -/
structure OpenWorld extends World where
  /-- Whether the call of the step at a position comes back. -/
  returns : Nat → Bool

/-- The step fetches, calls a module or starts a child. -/
def Step.callsOut : Step → Bool
  | .sourceFetch _ _ => true
  | .execWasm _ _ _ => true
  | .execNative command _ _ => !command.isEmpty
  | .captureLog _ => false
  | .captureArtifact _ _ => false

/-- One round of the loop, if it comes to an end. -/
def executeStepIn (crypto : Crypto) (world : OpenWorld) (index : Nat) (step : Step)
    (progress : Progress) : Option (Except PipelineError Progress) :=
  if step.callsOut && !world.returns index then none
  else some (executeStep crypto world.toWorld index step progress)

/-- The loop over rounds that may take forever. -/
def executeRounds (round : Nat → Step → Progress → Option (Except PipelineError Progress)) :
    Nat → List Step → Progress → Option (Except PipelineError Progress)
  | _, [], progress => some (.ok progress)
  | index, step :: rest, progress =>
      (round index step progress).bind fun
        | .error error => some (.error error)
        | .ok progress => executeRounds round (index + 1) rest progress

/-- The result of a loop that came to an end. -/
def concludeRounds (crypto : Crypto) (executed : Except PipelineError Progress) :
    Except PipelineError PipelineResult :=
  executed.map fun progress =>
    ⟨progress.stepOutputs,
      hashCanonical crypto (Cbor.array (progress.stepOutputs.map StepOutput.encode)),
      progress.captures⟩

def executePipelineIn (crypto : Crypto) (world : OpenWorld) (pipeline : Pipeline) :
    Option (Except PipelineError PipelineResult) :=
  (executeRounds (executeStepIn crypto world) 0 pipeline.steps ⟨[], [], none⟩).map
    (concludeRounds crypto)

/-- The outside world answers a step: its call comes back, and that of a module without an
error. -/
def Step.Answered (world : OpenWorld) (index : Nat) : Step → Prop
  | .sourceFetch _ _ => world.returns index = true
  | .execWasm module argsCbor limits => world.returns index = true ∧
      ∃ outcome, world.execWasm index module argsCbor (execLimits limits) = .ok outcome
  | .execNative command _ _ => command = [] ∨ world.returns index = true
  | .captureLog _ => True
  | .captureArtifact _ _ => True

section Open

variable {world : OpenWorld} {index : Nat} {before : Progress}

/-- A round goes on exactly when its step is answered. -/
theorem exists_executeStepIn_iff {step : Step} :
    (∃ after, executeStepIn crypto world index step before = some (.ok after)) ↔
      step.Answered world index := by
  cases step with
  | execWasm module argsCbor limits =>
      simp only [executeStepIn, Step.callsOut, Step.Answered, executeStep, executeWasmStep]
      cases world.returns index with
      | false => simp
      | true =>
          cases world.execWasm index module argsCbor (execLimits limits) with
          | error detail => simp [Except.map]
          | ok outcome => cases outcome <;> simp [Except.map]
  | sourceFetch url reference =>
      cases answered : world.returns index <;>
        simp [executeStepIn, Step.callsOut, Step.Answered, executeStep, answered]
  | execNative command env limits =>
      cases answered : world.returns index <;> cases command <;>
        simp [executeStepIn, Step.callsOut, Step.Answered, executeStep, answered]
  | captureLog name => simp [executeStepIn, Step.callsOut, Step.Answered, executeStep]
  | captureArtifact path name => simp [executeStepIn, Step.callsOut, Step.Answered, executeStep]

/-- Induction on the steps: the loop gets to its end exactly when every step is answered. -/
theorem exists_executeRounds_iff {steps : List Step} :
    (∃ after, executeRounds (executeStepIn crypto world) index steps before = some (.ok after)) ↔
      ∀ (offset : Nat) (step : Step), steps[offset]? = some step →
        step.Answered world (index + offset) := by
  induction steps generalizing index before with
  | nil => exact iff_of_true ⟨before, rfl⟩ nofun
  | cons step rest ih =>
      have split : (∀ (offset : Nat) (other : Step), (step :: rest)[offset]? = some other →
            other.Answered world (index + offset)) ↔
          step.Answered world index ∧ ∀ (offset : Nat) (other : Step),
            rest[offset]? = some other → other.Answered world (index + 1 + offset) := by
        constructor
        · intro answered
          refine ⟨answered 0 step rfl, fun offset other here => ?_⟩
          rw [Nat.add_right_comm]
          exact answered (offset + 1) other here
        · rintro ⟨first, later⟩ (_ | offset) other here
          · cases here
            exact first
          · rw [← Nat.add_assoc, Nat.add_right_comm]
            exact later offset other here
      rw [split, ← @exists_executeStepIn_iff crypto world index before, executeRounds]
      cases executeStepIn crypto world index step before with
      | none => simp
      | some executed =>
          cases executed with
          | error error => simp
          | ok after => simp [ih]

/-- A loop that comes to an end does what it does in the world of its answers. -/
theorem executeSteps_of_executeRounds {steps : List Step} {executed : Except PipelineError Progress}
    (done : executeRounds (executeStepIn crypto world) index steps before = some executed) :
    executeSteps crypto world.toWorld index steps before = executed := by
  induction steps generalizing index before with
  | nil => exact Option.some.inj done
  | cons step rest ih =>
      rw [executeRounds] at done
      obtain ⟨first, stepped, later⟩ := Option.bind_eq_some_iff.mp done
      have same : executeStep crypto world.toWorld index step before = first := by
        rw [executeStepIn] at stepped
        split at stepped
        · cases stepped
        · exact Option.some.inj stepped
      rw [executeSteps, same]
      cases first with
      | error error => exact Option.some.inj later
      | ok after => exact ih later

theorem executePipeline_of_executePipelineIn {executed : Except PipelineError PipelineResult}
    (done : executePipelineIn crypto world pipeline = some executed) :
    executePipeline crypto world.toWorld pipeline = executed := by
  obtain ⟨progress, rounds, rfl⟩ := Option.map_eq_some_iff.mp done
  rw [executePipeline, executeSteps_of_executeRounds rounds, concludeRounds]

/-- A pipeline has a result exactly when the outside world answers every step. -/
theorem exists_executePipelineIn_iff :
    (∃ result, executePipelineIn crypto world pipeline = some (.ok result)) ↔
      ∀ (position : Nat) (step : Step), pipeline.steps[position]? = some step →
        step.Answered world position := by
  have loop := @exists_executeRounds_iff crypto world 0 ⟨[], [], none⟩ pipeline.steps
  simp only [Nat.zero_add] at loop
  rw [← loop, executePipelineIn]
  cases executeRounds (executeStepIn crypto world) 0 pipeline.steps ⟨[], [], none⟩ with
  | none => simp
  | some executed => cases executed <;> simp [concludeRounds, Except.map]

end Open

end Cosaci.Jobs
