import Cosaci.Foundation.PrefixCode
import Cosaci.Jobs.Captures

/-!
# Captures are bound by the final hash

Captured streams are not hashed into the final artifact hash directly.  They enter
it through the outputs of the capturing steps, which commit to the digests of the
streams.  Two executions of one pipeline with the same final hash therefore
captured the same bytes, unless SHA-256 collides on one of the messages that lead
from the final hash to the streams.
-/

namespace Cosaci.Jobs

open Foundation
open Cosaci.Core (Crypto Hash)

/-! ## The encodings involved delimit themselves -/

/-- Every status. -/
def StepStatus.all : List StepStatus :=
  [.success, .failed, .limitExceeded .cpu, .limitExceeded .memory, .limitExceeded .wall,
    .limitExceeded .network, .notImplemented]

theorem StepStatus.mem_all (status : StepStatus) : status ∈ all := by
  cases status with
  | limitExceeded which => cases which <;> decide
  | success => decide
  | failed => decide
  | notImplemented => decide

theorem StepStatus.encode_prefixFree : PrefixFree StepStatus.encode := by
  have checked : ∀ a ∈ all, ∀ b ∈ all, a.encode <+: b.encode → a = b := by decide +kernel
  exact fun a b => checked a a.mem_all b b.mem_all

theorem StepOutput.encode_prefixFree : PrefixFree StepOutput.encode := by
  have fields := (Cbor.uint32_prefixFree.lead (Cbor.header 5 3 ++ Cbor.text "step_index")).append
    ((StepStatus.encode_prefixFree.lead (Cbor.text "status")).append
      ((Cbor.byteArray_prefixFree 32).lead (Cbor.text "output_hash")))
  have parts : Function.Injective fun output : StepOutput =>
      (output.stepIndex, output.status, output.outputHash) := by
    rintro ⟨index, status, hash⟩ ⟨index', status', hash'⟩ same
    cases same
    rfl
  intro output output' initial
  apply fields.comp parts
  simpa only [encode, Cbor.record, List.length_cons, List.length_nil, List.flatMap_cons,
    List.flatMap_nil, List.append_nil, List.append_assoc] using initial

/-! ## The messages between the final hash and the captured bytes -/

/-- What the output hash of a capturing step commits to. -/
def captureLogMessage (step : Step) (caps : NativeCaptures) : List UInt8 :=
  Cbor.array [step.encode, Cbor.text "ok", Cbor.byteArray caps.stdoutSha256.toList,
    Cbor.byteArray caps.stderrSha256.toList]

variable {caps caps' : NativeCaptures} {messages : List (List UInt8)} {index : Nat}

/-- A capturing step tells the digests of both streams. -/
theorem captureLogMessage_inj {step : Step}
    (equal : captureLogMessage step caps = captureLogMessage step caps') :
    caps.stdoutSha256 = caps'.stdoutSha256 ∧ caps.stderrSha256 = caps'.stderrSha256 := by
  have pair := (Cbor.byteArray_prefixFree 32).append (Cbor.byteArray_prefixFree 32)
  simp only [captureLogMessage, Cbor.array, List.length_cons, List.length_nil,
    List.flatten_cons, List.flatten_nil, List.append_nil, List.append_cancel_left_eq] at equal
  have same : (caps.stdoutSha256, caps.stderrSha256) =
      (caps'.stdoutSha256, caps'.stderrSha256) := pair.injective equal
  exact Prod.mk.inj same

/-- The messages that a step hashes on behalf of its captures. -/
def Step.captureMessages (step : Step) (lastNative : Option NativeCaptures) :
    List (List UInt8) :=
  match step, lastNative with
  | .captureLog _, some caps =>
      [captureLogMessage step caps, caps.stdoutBytes, caps.stderrBytes]
  | _, _ => []

/-- The messages hashed for captures from a given position on, and the list of
outputs behind the final hash. -/
def bindingMessages (crypto : Crypto) (world : World) :
    Nat → List Step → Progress → List (List UInt8)
  | _, [], progress => [Cbor.array (progress.stepOutputs.map StepOutput.encode)]
  | index, step :: rest, progress =>
      step.captureMessages progress.lastNative ++
        match executeStep crypto world index step progress with
        | .error _ => []
        | .ok progress => bindingMessages crypto world (index + 1) rest progress

/-- The messages of a whole execution. -/
def Pipeline.bindingMessages (crypto : Crypto) (world : World) (pipeline : Pipeline) :
    List (List UInt8) :=
  Jobs.bindingMessages crypto world 0 pipeline.steps ⟨[], [], none⟩

/-! ## Two executions side by side -/

variable {crypto : Crypto} {world world' : World}

/-- The digests are those of the streams. -/
def NativeCaptures.Hashed (crypto : Crypto) (caps : NativeCaptures) : Prop :=
  caps = .ofBytes crypto caps.stdoutBytes caps.stderrBytes

theorem hashed_executeNativeStep (index : Nat) (command : List String) (env : EnvVars)
    (limits : Limits) (step : Step) :
    (executeNativeStep crypto world index command env limits step).2.Hashed crypto := by
  rw [executeNativeStep_snd]
  rfl

/-- Streams with equal digests are equal. -/
theorem NativeCaptures.Hashed.eq (free : crypto.CollisionFree messages)
    (hashed : caps.Hashed crypto) (hashed' : caps'.Hashed crypto)
    (known : caps.stdoutBytes ∈ messages ∧ caps.stderrBytes ∈ messages)
    (known' : caps'.stdoutBytes ∈ messages ∧ caps'.stderrBytes ∈ messages)
    (stdout : caps.stdoutSha256 = caps'.stdoutSha256)
    (stderr : caps.stderrSha256 = caps'.stderrSha256) : caps = caps' := by
  rw [hashed, hashed'] at stdout stderr
  have sameStdout := free _ known.1 _ known'.1 stdout
  have sameStderr := free _ known.2 _ known'.2 stderr
  rw [hashed, hashed', sameStdout, sameStderr]

/-- Two executions that have captured the same and stand at the same step. -/
structure Matched (crypto : Crypto) (progress progress' : Progress) : Prop where
  captures : progress.captures = progress'.captures
  count : progress.stepOutputs.length = progress'.stepOutputs.length
  native : progress.lastNative.isSome = progress'.lastNative.isSome
  hashed : ∀ caps ∈ progress.lastNative, caps.Hashed crypto
  hashed' : ∀ caps ∈ progress'.lastNative, caps.Hashed crypto

variable {before before' after after' : Progress}

theorem Matched.push (matched : Matched crypto before before') (output output' : StepOutput) :
    Matched crypto (before.push output) (before'.push output') where
  captures := matched.captures
  count := by simp [Progress.push, matched.count]
  native := matched.native
  hashed := matched.hashed
  hashed' := matched.hashed'

theorem Matched.loadNative (matched : Matched crypto before before') (hashed : caps.Hashed crypto)
    (hashed' : caps'.Hashed crypto) :
    Matched crypto { before with lastNative := some caps }
      { before' with lastNative := some caps' } where
  captures := matched.captures
  count := matched.count
  native := rfl
  hashed := by
    rintro _ ⟨⟩
    exact hashed
  hashed' := by
    rintro _ ⟨⟩
    exact hashed'

theorem Matched.capture (matched : Matched crypto before before')
    {captured captured' : List CapturedOutput} (same : captured = captured') :
    Matched crypto { before with captures := before.captures ++ captured }
      { before' with captures := before'.captures ++ captured' } where
  captures := congrArg₂ (· ++ ·) matched.captures same
  count := matched.count
  native := matched.native
  hashed := matched.hashed
  hashed' := matched.hashed'

/-- Outputs that end up equal were equal when they were added. -/
private theorem Matched.push_inj (matched : Matched crypto before before')
    {output output' : StepOutput}
    (same : (before.push output).stepOutputs = (before'.push output').stepOutputs) :
    output = output' := by
  have tails := (List.append_inj same matched.count).2
  exact (List.cons.inj tails).1

private theorem Matched.captureLog (matched : Matched crypto before before')
    (free : crypto.CollisionFree messages) {name : String}
    (known : (Step.captureLog name).captureMessages before.lastNative ⊆ messages)
    (known' : (Step.captureLog name).captureMessages before'.lastNative ⊆ messages)
    (same : (executeCaptureLogStep crypto index name before.lastNative (.captureLog name)).1 =
      (executeCaptureLogStep crypto index name before'.lastNative (.captureLog name)).1) :
    (executeCaptureLogStep crypto index name before.lastNative (.captureLog name)).2 =
      (executeCaptureLogStep crypto index name before'.lastNative (.captureLog name)).2 := by
  rcases before with ⟨outputs, captures, native⟩
  rcases before' with ⟨outputs', captures', native'⟩
  cases native with
  | none =>
      cases native' with
      | none => rfl
      | some caps' => cases matched.native
  | some caps =>
      cases native' with
      | none => cases matched.native
      | some caps' =>
          simp only [Step.captureMessages, List.cons_subset] at known known'
          have digest : crypto.sha256 (captureLogMessage (.captureLog name) caps) =
              crypto.sha256 (captureLogMessage (.captureLog name) caps') :=
            congrArg StepOutput.outputHash same
          have message := free _ known.1 _ known'.1 digest
          obtain ⟨stdout, stderr⟩ := captureLogMessage_inj message
          have equal := (matched.hashed caps rfl).eq free (matched.hashed' caps' rfl)
            ⟨known.2.1, known.2.2.1⟩ ⟨known'.2.1, known'.2.2.1⟩ stdout stderr
          rw [equal]

/-- A round keeps two executions together as long as their outputs agree. -/
theorem Matched.step (matched : Matched crypto before before')
    (free : crypto.CollisionFree messages) {step : Step}
    (known : step.captureMessages before.lastNative ⊆ messages)
    (known' : step.captureMessages before'.lastNative ⊆ messages)
    (executed : executeStep crypto world index step before = .ok after)
    (executed' : executeStep crypto world' index step before' = .ok after')
    (same : after.stepOutputs = after'.stepOutputs) : Matched crypto after after' := by
  cases step with
  | execWasm module argsCbor limits =>
      obtain ⟨output, -, rfl⟩ := map_eq_ok executed
      obtain ⟨output', -, rfl⟩ := map_eq_ok executed'
      exact matched.push output output'
  | sourceFetch url reference =>
      cases executed
      cases executed'
      exact matched.push _ _
  | execNative command env limits =>
      cases executed
      cases executed'
      exact (matched.loadNative (hashed_executeNativeStep index command env limits _)
        (hashed_executeNativeStep index command env limits _)).push _ _
  | captureLog name =>
      cases executed
      cases executed'
      have output := matched.push_inj same
      have captured := matched.captureLog free known known' output
      exact (matched.capture captured).push _ _
  | captureArtifact path name =>
      cases executed
      cases executed'
      exact matched.push _ _

/-- The loop keeps two executions together when they end with the same outputs. -/
theorem Matched.steps (free : crypto.CollisionFree messages) {steps : List Step}
    (matched : Matched crypto before before')
    (known : bindingMessages crypto world index steps before ⊆ messages)
    (known' : bindingMessages crypto world' index steps before' ⊆ messages)
    (executed : executeSteps crypto world index steps before = .ok after)
    (executed' : executeSteps crypto world' index steps before' = .ok after')
    (same : after.stepOutputs = after'.stepOutputs) : Matched crypto after after' := by
  induction steps generalizing index before before' with
  | nil =>
      cases executed
      cases executed'
      exact matched
  | cons step rest ih =>
      rw [executeSteps] at executed executed'
      rw [bindingMessages] at known known'
      cases first : executeStep crypto world index step before with
      | error error => simp [first] at executed
      | ok middle =>
          cases first' : executeStep crypto world' index step before' with
          | error error => simp [first'] at executed'
          | ok middle' =>
              simp only [first, first', List.append_subset] at executed executed' known known'
              -- the loop only appends, so the outputs of this round agree already
              have agree : middle.stepOutputs = middle'.stepOutputs := by
                obtain ⟨output, -, pushed⟩ := executeStep_outputs first
                obtain ⟨output', -, pushed'⟩ := executeStep_outputs first'
                obtain ⟨added, -, later⟩ := executeSteps_outputs executed
                obtain ⟨added', -, later'⟩ := executeSteps_outputs executed'
                rw [later, later'] at same
                apply (List.append_inj same _).1
                rw [pushed, pushed', List.length_append, List.length_append, matched.count]
                rfl
              exact ih (matched.step free known.1 known'.1 first first' agree) known.2 known'.2
                executed executed'

theorem mem_bindingMessages {steps : List Step}
    (executed : executeSteps crypto world index steps before = .ok after) :
    Cbor.array (after.stepOutputs.map StepOutput.encode) ∈
      bindingMessages crypto world index steps before := by
  induction steps generalizing index before with
  | nil =>
      cases executed
      exact List.mem_singleton_self _
  | cons step rest ih =>
      rw [executeSteps] at executed
      rw [bindingMessages]
      cases first : executeStep crypto world index step before with
      | error error => simp [first] at executed
      | ok middle =>
          simp only [first] at executed ⊢
          exact List.mem_append_right _ (ih executed)

/-- Executions of one pipeline with equal final hashes have equal captures. -/
theorem captures_eq_of_finalArtifactHash {pipeline : Pipeline}
    {result result' : PipelineResult}
    (free : crypto.CollisionFree (pipeline.bindingMessages crypto world ++
      pipeline.bindingMessages crypto world'))
    (executed : executePipeline crypto world pipeline = .ok result)
    (executed' : executePipeline crypto world' pipeline = .ok result')
    (same : result.finalArtifactHash = result'.finalArtifactHash) :
    result.captures = result'.captures := by
  obtain ⟨progress, loop, rfl⟩ := map_eq_ok executed
  obtain ⟨progress', loop', rfl⟩ := map_eq_ok executed'
  have message := free _ (List.mem_append_left _ (mem_bindingMessages loop)) _
    (List.mem_append_right _ (mem_bindingMessages loop')) same
  have outputs : progress.stepOutputs = progress'.stepOutputs := by
    apply Cbor.array_inj StepOutput.encode_prefixFree _ message
    obtain ⟨added, length, later⟩ := executeSteps_outputs loop
    obtain ⟨added', length', later'⟩ := executeSteps_outputs loop'
    simp [later, later', length, length']
  have start : Matched crypto ⟨[], [], none⟩ ⟨[], [], none⟩ :=
    ⟨rfl, rfl, rfl, by simp, by simp⟩
  exact (start.steps free (List.subset_append_left _ _) (List.subset_append_right _ _)
    loop loop' outputs).captures

theorem captures_eq_of_finalArtifactHash_logged :
    (loggedResult fun _ => [104, 105]).captures.length = 2 ∧
      (loggedResult fun _ => [104, 105]).captures =
        (loggedResult fun index => if index = 0 then [104, 105] else []).captures := by
  have executed : executePipeline Core.modelCrypto (printingWorld fun _ => [104, 105])
      loggedPipeline = .ok (loggedResult fun _ => [104, 105]) := by decide +kernel
  have executed' : executePipeline Core.modelCrypto
      (printingWorld fun index => if index = 0 then [104, 105] else []) loggedPipeline =
        .ok (loggedResult fun index => if index = 0 then [104, 105] else []) := by
    decide +kernel
  refine ⟨by decide +kernel, captures_eq_of_finalArtifactHash ?_ executed executed' ?_⟩
  · decide +kernel
  · decide +kernel

end Cosaci.Jobs
