import Cosaci.Foundation.Fallible
import Cosaci.Jobs.Execute

/-!
# What a pipeline captures

The captures of an execution as a function of the pipeline and of what the native
steps printed: each capturing step copies the streams of the native step before it,
and no other answer of the outside world matters.
-/

namespace Cosaci.Jobs

open Foundation
open Cosaci.Core (Crypto Hash)

/-- The streams retained from a native step.  Only a child that exits on its own
leaves any. -/
def World.printed (world : World) (index : Nat) (command : List String) (env : EnvVars)
    (limits : Limits) : List UInt8 × List UInt8 :=
  if command.isEmpty then
    ([], [])
  else
    match world.execNative index command env limits with
    | .exited _ stdout stderr false =>
        (stdout.take maxCaptureBytes, stderr.take maxCaptureBytes)
    | _ => ([], [])

/-- One stream as a capture. -/
def CapturedOutput.ofStream (crypto : Crypto) (index : Nat) (name : String)
    (kind : CaptureKind) (bytes : List UInt8) : CapturedOutput :=
  ⟨UInt32.ofNat index, name, kind, crypto.sha256 bytes, UInt64.ofNat bytes.length, bytes⟩

/-- The streams retained after a step. -/
def Step.streams (world : World) (index : Nat) (step : Step)
    (streams : Option (List UInt8 × List UInt8)) : Option (List UInt8 × List UInt8) :=
  match step with
  | .execNative command env limits => some (world.printed index command env limits)
  | _ => streams

/-- The captures of one step, given the retained streams. -/
def Step.captured (crypto : Crypto) (index : Nat) (step : Step)
    (streams : Option (List UInt8 × List UInt8)) : List CapturedOutput :=
  match step, streams with
  | .captureLog name, some (stdout, stderr) =>
      [.ofStream crypto index (name ++ ".stdout") .stdout stdout,
        .ofStream crypto index (name ++ ".stderr") .stderr stderr]
  | _, _ => []

/-- The captures of the steps from a given position on. -/
def capturesFrom (crypto : Crypto) (world : World) :
    Nat → List Step → Option (List UInt8 × List UInt8) → List CapturedOutput
  | _, [], _ => []
  | index, step :: rest, streams =>
      step.captured crypto index streams ++
        capturesFrom crypto world (index + 1) rest (step.streams world index streams)

/-- The captures of a whole pipeline. -/
def Pipeline.captured (crypto : Crypto) (world : World) (pipeline : Pipeline) :
    List CapturedOutput :=
  capturesFrom crypto world 0 pipeline.steps none

variable {crypto : Crypto} {world : World}

/-- The streams that the executor remembers, with their digests. -/
def loaded (crypto : Crypto) (streams : Option (List UInt8 × List UInt8)) :
    Option NativeCaptures :=
  streams.map fun pair => .ofBytes crypto pair.1 pair.2

theorem executeNativeStep_snd (index : Nat) (command : List String) (env : EnvVars)
    (limits : Limits) (step : Step) :
    (executeNativeStep crypto world index command env limits step).2 =
      .ofBytes crypto (world.printed index command env limits).1
        (world.printed index command env limits).2 := by
  unfold executeNativeStep World.printed
  by_cases empty : command.isEmpty
  · simp [empty]
  · simp only [empty]
    rcases world.execNative index command env limits with
      kind | ⟨code, stdout, stderr, oomKilled⟩ | _ | _
    · rfl
    · cases oomKilled with
      | true => rfl
      | false =>
          by_cases success : code = some 0
          · simp [success]
          · simp [success]
    · rfl
    · rfl

/-- A round captures the retained streams or retains new ones. -/
theorem captures_executeStep {step : Step} {index : Nat} {before after : Progress}
    {streams : Option (List UInt8 × List UInt8)}
    (native : before.lastNative = loaded crypto streams)
    (executed : executeStep crypto world index step before = .ok after) :
    after.captures = before.captures ++ step.captured crypto index streams ∧
      after.lastNative = loaded crypto (step.streams world index streams) := by
  cases step with
  | execWasm module argsCbor limits =>
      obtain ⟨output, -, rfl⟩ := map_eq_ok executed
      exact ⟨(List.append_nil _).symm, native⟩
  | sourceFetch url reference =>
      cases executed
      exact ⟨(List.append_nil _).symm, native⟩
  | execNative command env limits =>
      cases executed
      refine ⟨(List.append_nil _).symm, ?_⟩
      exact congrArg some (executeNativeStep_snd index command env limits _)
  | captureLog name =>
      obtain ⟨outputs, captures, lastNative⟩ := before
      subst native
      cases executed
      cases streams <;> exact ⟨rfl, rfl⟩
  | captureArtifact path name =>
      cases executed
      exact ⟨(List.append_nil _).symm, native⟩

/-- The loop captures the streams of the native steps and nothing else. -/
theorem captures_executeSteps {steps : List Step} {index : Nat} {before after : Progress}
    {streams : Option (List UInt8 × List UInt8)}
    (native : before.lastNative = loaded crypto streams)
    (executed : executeSteps crypto world index steps before = .ok after) :
    after.captures = before.captures ++ capturesFrom crypto world index steps streams := by
  induction steps generalizing index before streams with
  | nil =>
      cases executed
      exact (List.append_nil _).symm
  | cons step rest ih =>
      rw [executeSteps] at executed
      cases first : executeStep crypto world index step before with
      | error error => simp [first] at executed
      | ok middle =>
          simp only [first] at executed
          obtain ⟨captured, retained⟩ := captures_executeStep native first
          rw [ih retained executed, captured, capturesFrom, List.append_assoc]

theorem captures_executePipeline {pipeline : Pipeline} {result : PipelineResult}
    (executed : executePipeline crypto world pipeline = .ok result) :
    result.captures = pipeline.captured crypto world := by
  obtain ⟨progress, loop, rfl⟩ := map_eq_ok executed
  have start : (⟨[], [], none⟩ : Progress).lastNative = loaded crypto none := rfl
  exact captures_executeSteps start loop

/-- A native step whose streams are then captured. -/
def loggedPipeline : Pipeline where
  steps := [.execNative ["make"] ⟨[], .nil⟩ ⟨0, 0, 0, ⟨[], .deny⟩⟩, .captureLog "build"]

/-- A world in which every child prints what is given for its position. -/
def printingWorld (stdout : Nat → List UInt8) : World where
  sourceFetch _ _ _ := .error .io
  execWasm _ _ _ _ := .error "no runtime"
  execNative index _ _ _ := .exited (some 0) (stdout index) [] false

theorem captured_loggedPipeline (crypto : Crypto) (stdout : Nat → List UInt8) :
    loggedPipeline.captured crypto (printingWorld stdout) =
      [.ofStream crypto 1 ("build" ++ ".stdout") .stdout ((stdout 0).take maxCaptureBytes),
        .ofStream crypto 1 ("build" ++ ".stderr") .stderr []] := rfl

theorem exists_executePipeline_logged (crypto : Crypto) (stdout : Nat → List UInt8) :
    ∃ result, executePipeline crypto (printingWorld stdout) loggedPipeline = .ok result :=
  ⟨_, rfl⟩

def loggedResult (stdout : Nat → List UInt8) : PipelineResult :=
  (executePipeline Core.modelCrypto (printingWorld stdout) loggedPipeline).toOption.getD
    ⟨[], Core.modelHash [], []⟩

end Cosaci.Jobs
