import Cosaci.Foundation.CborCodes
import Cosaci.Jobs.CaptureBinding
import Cosaci.Jobs.CaptureLength

/-!
# Where two executions of a pipeline differ

The output hash of a step commits to the step and to what the outside world answered at
that position; a capturing step commits to the streams of the last native step.  No step
hashes the outputs of the steps before it.  So two executions differ in the output hash of
a step exactly when they differ in what this step reports, whatever happened before, and a
divergence ends at the first step that gets the same answer in both.
-/

namespace Cosaci.Jobs

open Foundation
open Cosaci.Core (Crypto Hash)

/-! ## What a step reports -/

/-- A report without data of its own. -/
inductive Note where
  | fetchFailed (kind : SourceFetchError)
  | limited (kind : LimitKind)
  | emptyCommand
  | nothingCaptured
  deriving DecidableEq, Repr

/-- A report that is hashed in one tuple with its step. -/
inductive Detail where
  | plain (note : Note)
  | spawnFailed (kind : Int32)
  | captured (stdout stderr : List UInt8)
  | exited (code : Int32) (stdout stderr : List UInt8)
  deriving DecidableEq

/-- What a step contributes to the hashes. -/
inductive Report where
  | fetched (output : SourceFetchOutput)
  | returned (module : List UInt8) (value : Int32)
  | noted (detail : Detail)
  | unimplemented
  deriving DecidableEq

def Note.encode : Note → List UInt8
  | .fetchFailed kind => Cbor.unsigned kind.kindId
  | .limited kind => kind.encode
  | .emptyCommand => Cbor.text "empty_command"
  | .nothingCaptured => Cbor.text "no_preceding_exec_native"

/-- How a child ended, as it is hashed. -/
def exitTag (code : Int32) : String :=
  if code = 0 then "ok" else "exit_nonzero"

/-- The items that follow the step in the hashed tuple. -/
def Detail.fields (crypto : Crypto) : Detail → List (List UInt8)
  | .plain note => [note.encode]
  | .spawnFailed kind => [Cbor.text "spawn_failed", Cbor.signed kind.toInt]
  | .captured stdout stderr =>
      [Cbor.text "ok", Cbor.byteArray (crypto.sha256 stdout).toList,
        Cbor.byteArray (crypto.sha256 stderr).toList]
  | .exited code stdout stderr =>
      [Cbor.text (exitTag code), Cbor.signed code.toInt,
        Cbor.byteArray (crypto.sha256 stdout).toList,
        Cbor.byteArray (crypto.sha256 stderr).toList]

/-- The number of these items. -/
def Detail.arity : Detail → Nat
  | .plain _ => 1
  | .spawnFailed _ => 2
  | .captured _ _ => 3
  | .exited _ _ _ => 4

theorem Detail.length_fields (crypto : Crypto) (detail : Detail) :
    (detail.fields crypto).length = detail.arity := by
  cases detail <;> rfl

theorem Detail.arity_le (detail : Detail) : detail.arity ≤ 4 := by
  cases detail <;> simp [arity]

/-- The streams of which a report hashes the digests. -/
def Detail.streams : Detail → List (List UInt8)
  | .captured stdout stderr => [stdout, stderr]
  | .exited _ stdout stderr => [stdout, stderr]
  | _ => []

/-- The message whose digest is the output hash. -/
def Report.message (crypto : Crypto) (step : Step) : Report → List UInt8
  | .fetched output =>
      littleEndian 8 (utf8 output.resolvedSha.toList).length ++
        utf8 output.resolvedSha.toList ++ output.treeHash.toList
  | .returned module value =>
      (moduleHash crypto module).toList ++ littleEndian 4 value.toUInt32.toNat
  | .noted detail => Cbor.array (step.encode :: detail.fields crypto)
  | .unimplemented => step.encode

/-- Everything that is hashed for a report. -/
def Report.hashed (crypto : Crypto) (step : Step) (report : Report) : List (List UInt8) :=
  report.message crypto step ::
    match report with
    | .noted detail => detail.streams
    | _ => []

/-- The report of a native step is what can be told of its child. -/
def ChildRun.detail : ChildRun → Detail
  | .spawnFailed kind => .spawnFailed kind
  | .exited code stdout stderr oomKilled =>
      if oomKilled then .plain (.limited .memory)
      else .exited (code.getD (-1)) (stdout.take maxCaptureBytes) (stderr.take maxCaptureBytes)
  | .killedByWall => .plain (.limited .wall)
  | .killedByCpu => .plain (.limited .cpu)

/-- The report of a step, given the streams of the last native one; a WASM error aborts the
pipeline instead. -/
def Step.report (world : World) (index : Nat) (step : Step)
    (streams : Option (List UInt8 × List UInt8)) : Option Report :=
  match step with
  | .sourceFetch url reference =>
      match world.sourceFetch index url reference with
      | .ok output => some (.fetched output)
      | .error kind => some (.noted (.plain (.fetchFailed kind)))
  | .execWasm module argsCbor limits =>
      match world.execWasm index module argsCbor (execLimits limits) with
      | .error _ => none
      | .ok (.ok value) => some (.returned module value)
      | .ok (.limitExceeded kind) => some (.noted (.plain (.limited kind.toLimitKind)))
  | .execNative command env limits =>
      if command.isEmpty then
        some (.noted (.plain .emptyCommand))
      else
        some (.noted (world.execNative index command env limits).detail)
  | .captureLog _ =>
      match streams with
      | none => some (.noted (.plain .nothingCaptured))
      | some (stdout, stderr) => some (.noted (.captured stdout stderr))
  | .captureArtifact _ _ => some .unimplemented

/-- The status that goes with a report. -/
def Report.status : Report → StepStatus
  | .fetched _ => .success
  | .returned _ _ => .success
  | .noted (.plain (.limited kind)) => .limitExceeded kind
  | .noted (.plain _) => .failed
  | .noted (.spawnFailed _) => .failed
  | .noted (.captured _ _) => .success
  | .noted (.exited code _ _) => if code = 0 then .success else .failed
  | .unimplemented => .notImplemented

def Report.output (crypto : Crypto) (index : Nat) (step : Step) (report : Report) : StepOutput :=
  ⟨UInt32.ofNat index, report.status, crypto.sha256 (report.message crypto step)⟩

/-- The reports of the steps from a given position on. -/
def reportsFrom (world : World) :
    Nat → List Step → Option (List UInt8 × List UInt8) → List (Option Report)
  | _, [], _ => []
  | index, step :: rest, streams =>
      step.report world index streams ::
        reportsFrom world (index + 1) rest (step.streams world index streams)

/-- The reports of a whole pipeline. -/
def Pipeline.reports (world : World) (pipeline : Pipeline) : List (Option Report) :=
  reportsFrom world 0 pipeline.steps none

/-- The outputs that go with the reports of the steps from a given position on. -/
def outputsOf (crypto : Crypto) : Nat → List Step → List (Option Report) → List StepOutput
  | index, step :: steps, report :: reports =>
      (report.map (Report.output crypto index step)).toList ++
        outputsOf crypto (index + 1) steps reports
  | _, _, _ => []

/-- The result of a pipeline, read off the answers of the outside world. -/
def Pipeline.outcome (crypto : Crypto) (world : World) (pipeline : Pipeline) : PipelineResult :=
  let outputs := outputsOf crypto 0 pipeline.steps (pipeline.reports world)
  ⟨outputs, hashCanonical crypto (Cbor.array (outputs.map StepOutput.encode)),
    pipeline.captured crypto world⟩

/-- The output hashes that go with the reports of some steps. -/
def outputHashes (crypto : Crypto) (steps : List Step) (reports : List (Option Report)) :
    List (Option Hash) :=
  List.zipWith (fun step report => report.map fun report =>
    crypto.sha256 (report.message crypto step)) steps reports

/-- Everything that is hashed for the reports of some steps. -/
def hashedMessages (crypto : Crypto) (steps : List Step) (reports : List (Option Report)) :
    List (List UInt8) :=
  (List.zipWith (fun step report => (report.map fun report =>
    report.hashed crypto step).getD []) steps reports).flatten

def Pipeline.hashed (crypto : Crypto) (world : World) (pipeline : Pipeline) :
    List (List UInt8) :=
  hashedMessages crypto pipeline.steps (pipeline.reports world)

/-! ## The executor hashes the reports -/

variable {crypto : Crypto} {world world' : World}

theorem output_executeNativeStep (crypto : Crypto) (world : World) (index : Nat)
    (command : List String) (env : EnvVars) (limits : Limits)
    (streams : Option (List UInt8 × List UInt8)) :
    ((Step.execNative command env limits).report world index streams).map
        (Report.output crypto index (.execNative command env limits)) =
      some (executeNativeStep crypto world index command env limits
        (.execNative command env limits)).1 := by
  unfold executeNativeStep Step.report
  by_cases empty : command.isEmpty
  · simp only [empty, if_true]
    rfl
  · simp only [empty, Bool.false_eq_true, if_false]
    rcases world.execNative index command env limits with
      kind | ⟨code, stdout, stderr, oomKilled⟩ | _ | _
    · rfl
    · cases oomKilled with
      | true => rfl
      | false =>
          by_cases success : code = some 0
          · subst success
            rfl
          · have failed : code.getD (-1) ≠ 0 := by
              cases code with
              | none => decide
              | some value => simpa using success
            simp only [ChildRun.detail, Bool.false_eq_true, if_false, success, Option.map_some,
              Report.output, Report.status, Report.message, Detail.fields, exitTag, failed]
            rfl
    · rfl
    · rfl

variable {index : Nat} {streams : Option (List UInt8 × List UInt8)} {step : Step}
  {pipeline : Pipeline} {messages : List (List UInt8)}

/-- A round adds the output of its report. -/
theorem output_executeStep {before after : Progress}
    (native : before.lastNative = loaded crypto streams)
    (executed : executeStep crypto world index step before = .ok after) :
    ∃ report, step.report world index streams = some report ∧
      after.stepOutputs = before.stepOutputs ++ [report.output crypto index step] := by
  cases step with
  | execWasm module argsCbor limits =>
      rw [executeStep, executeWasmStep] at executed
      rw [Step.report]
      cases answer : world.execWasm index module argsCbor (execLimits limits) with
      | error detail =>
          rw [answer] at executed
          cases executed
      | ok outcome =>
          rw [answer] at executed
          cases outcome with
          | ok value =>
              cases executed
              exact ⟨_, rfl, rfl⟩
          | limitExceeded kind =>
              cases executed
              exact ⟨_, rfl, rfl⟩
  | sourceFetch url reference =>
      cases executed
      simp only [Step.report, executeSourceFetchStep]
      cases world.sourceFetch index url reference <;> exact ⟨_, rfl, rfl⟩
  | execNative command env limits =>
      cases executed
      obtain ⟨report, reported, same⟩ := Option.map_eq_some_iff.mp
        (output_executeNativeStep crypto world index command env limits streams)
      exact ⟨report, reported, by rw [same]; rfl⟩
  | captureLog name =>
      obtain ⟨outputs, captures, lastNative⟩ := before
      subst native
      cases executed
      cases streams <;> exact ⟨_, rfl, rfl⟩
  | captureArtifact path name =>
      cases executed
      exact ⟨_, rfl, rfl⟩

/-- Every round of a loop that ends well has a report, and adds the output of it. -/
theorem outputs_executeSteps {steps : List Step} {before after : Progress}
    (native : before.lastNative = loaded crypto streams)
    (executed : executeSteps crypto world index steps before = .ok after) :
    (∃ values : List Report, reportsFrom world index steps streams = values.map some) ∧
      after.stepOutputs = before.stepOutputs ++
        outputsOf crypto index steps (reportsFrom world index steps streams) := by
  induction steps generalizing index before streams with
  | nil =>
      cases executed
      exact ⟨⟨[], rfl⟩, (List.append_nil _).symm⟩
  | cons step rest ih =>
      rw [executeSteps] at executed
      cases first : executeStep crypto world index step before with
      | error error => simp [first] at executed
      | ok middle =>
          simp only [first] at executed
          obtain ⟨report, reported, pushed⟩ := output_executeStep native first
          obtain ⟨⟨values, others⟩, later⟩ := ih (captures_executeStep native first).2 executed
          constructor
          · exact ⟨report :: values, by rw [reportsFrom, reported, others, List.map_cons]⟩
          · rw [later, pushed, reportsFrom, outputsOf, reported, List.append_assoc]
            rfl

theorem executePipeline_eq_outcome {result : PipelineResult}
    (executed : executePipeline crypto world pipeline = .ok result) :
    result = pipeline.outcome crypto world := by
  have captures := captures_executePipeline executed
  obtain ⟨progress, loop, rfl⟩ := map_eq_ok executed
  have start : (⟨[], [], none⟩ : Progress).lastNative = loaded crypto none := rfl
  have outputs := (outputs_executeSteps start loop).2
  rw [List.nil_append] at outputs
  rw [Pipeline.outcome, Pipeline.reports, ← outputs, ← captures]

theorem map_outputHash_outputsOf (crypto : Crypto) (index : Nat) (steps : List Step)
    (values : List Report) :
    (outputsOf crypto index steps (values.map some)).map (fun output => some output.outputHash) =
      outputHashes crypto steps (values.map some) := by
  induction steps generalizing index values with
  | nil => rfl
  | cons step rest ih =>
      cases values with
      | nil => rfl
      | cons report values => exact congrArg (List.cons _) (ih (index + 1) values)

theorem outputHashes_executePipeline {result : PipelineResult}
    (executed : executePipeline crypto world pipeline = .ok result) :
    result.steps.map (fun output => some output.outputHash) =
      outputHashes crypto pipeline.steps (pipeline.reports world) := by
  obtain ⟨progress, loop, rfl⟩ := map_eq_ok executed
  have start : (⟨[], [], none⟩ : Progress).lastNative = loaded crypto none := rfl
  obtain ⟨⟨values, reported⟩, outputs⟩ := outputs_executeSteps start loop
  rw [List.nil_append, reported] at outputs
  rw [Pipeline.reports, reported, ← map_outputHash_outputsOf crypto 0, ← outputs]

/-! ## The hashed messages tell the reports apart -/

/-- Every note. -/
def Note.all : List Note :=
  [.fetchFailed .gitNotFound, .fetchFailed .cloneFailed, .fetchFailed .checkoutFailed,
    .fetchFailed .resolveFailed, .fetchFailed .io, .limited .cpu, .limited .memory,
    .limited .wall, .limited .network, .emptyCommand, .nothingCaptured]

theorem Note.mem_all (note : Note) : note ∈ all := by
  cases note with
  | fetchFailed kind => cases kind <;> decide
  | limited kind => cases kind <;> decide
  | emptyCommand => decide
  | nothingCaptured => decide

theorem Note.encode_injective : Function.Injective Note.encode := by
  have checked : ∀ a ∈ all, ∀ b ∈ all, a.encode = b.encode → a = b := by decide +kernel
  exact fun a b => checked a a.mem_all b b.mem_all

/-- Tuples that begin with one step agree in the number and in the codes of their other
items. -/
theorem tuple_split {detail detail' : Detail}
    (equal : Cbor.array (step.encode :: detail.fields crypto) =
      Cbor.array (step.encode :: detail'.fields crypto)) :
    detail.arity = detail'.arity ∧
      (detail.fields crypto).flatten = (detail'.fields crypto).flatten := by
  have small := detail.arity_le
  have small' := detail'.arity_le
  simp only [Cbor.array, List.length_cons, List.flatten_cons, Detail.length_fields] at equal
  obtain ⟨-, count, rest⟩ := Cbor.header_split_word 4 4 equal
  rw [Nat.mod_eq_of_lt (by omega), Nat.mod_eq_of_lt (by omega)] at count
  exact ⟨Nat.succ.inj count, List.append_cancel_left rest⟩

theorem exitTag_ne {code other : Int32} (zero : code = 0) (nonzero : other ≠ 0)
    {rest others : List UInt8} :
    Cbor.text (exitTag code) ++ rest ≠ Cbor.text (exitTag other) ++ others := by
  intro equal
  rw [exitTag, exitTag, if_pos zero, if_neg nonzero, Cbor.text, Cbor.text, List.append_assoc,
    List.append_assoc] at equal
  exact absurd (Cbor.header_split_word 3 3 equal).2.1 (by decide +kernel)

theorem exited_split {code other : Int32} {rest others : List UInt8}
    (equal : Cbor.text (exitTag code) ++ (Cbor.signed code.toInt ++ rest) =
      Cbor.text (exitTag other) ++ (Cbor.signed other.toInt ++ others)) :
    code = other ∧ rest = others := by
  by_cases zero : code = 0
  · by_cases zero' : other = 0
    · rw [zero, zero'] at equal ⊢
      exact ⟨rfl, List.append_cancel_left (List.append_cancel_left equal)⟩
    · exact absurd equal (exitTag_ne zero zero')
  · by_cases zero' : other = 0
    · exact absurd equal.symm (exitTag_ne zero' zero)
    · rw [exitTag, exitTag, if_neg zero, if_neg zero'] at equal
      exact Cbor.int32_prefixFree.split (List.append_cancel_left equal)

/-- Two digests tell both streams, unless the hash collides on one of them. -/
theorem streams_of_digests (free : crypto.CollisionFree messages)
    {stdout stderr stdout' stderr' : List UInt8} (known : [stdout, stderr] ⊆ messages)
    (known' : [stdout', stderr'] ⊆ messages)
    (equal : Cbor.byteArray (crypto.sha256 stdout).toList ++
        Cbor.byteArray (crypto.sha256 stderr).toList =
      Cbor.byteArray (crypto.sha256 stdout').toList ++
        Cbor.byteArray (crypto.sha256 stderr').toList) : stdout = stdout' ∧ stderr = stderr' := by
  simp only [List.cons_subset, List.nil_subset, and_true] at known known'
  obtain ⟨first, rest⟩ := (Cbor.byteArray_prefixFree 32).split equal
  have second := (Cbor.byteArray_prefixFree 32).injective rest
  exact ⟨free _ known.1 _ known'.1 first, free _ known.2 _ known'.2 second⟩

/-- The number of items tells the kind of detail, the items its data. -/
theorem detail_eq_of_tuple (free : crypto.CollisionFree messages) {detail detail' : Detail}
    (known : detail.streams ⊆ messages) (known' : detail'.streams ⊆ messages)
    (equal : Cbor.array (step.encode :: detail.fields crypto) =
      Cbor.array (step.encode :: detail'.fields crypto)) : detail = detail' := by
  obtain ⟨count, items⟩ := tuple_split equal
  cases detail with
  | plain note =>
      cases detail' with
      | plain note' =>
          simp only [Detail.fields, List.flatten_cons, List.flatten_nil, List.append_nil] at items
          rw [Note.encode_injective items]
      | spawnFailed kind' => cases count
      | captured stdout' stderr' => cases count
      | exited code' stdout' stderr' => cases count
  | spawnFailed kind =>
      cases detail' with
      | plain note' => cases count
      | spawnFailed kind' =>
          simp only [Detail.fields, List.flatten_cons, List.flatten_nil, List.append_nil] at items
          rw [Cbor.int32_prefixFree.injective (List.append_cancel_left items)]
      | captured stdout' stderr' => cases count
      | exited code' stdout' stderr' => cases count
  | captured stdout stderr =>
      cases detail' with
      | plain note' => cases count
      | spawnFailed kind' => cases count
      | captured stdout' stderr' =>
          simp only [Detail.fields, List.flatten_cons, List.flatten_nil, List.append_nil] at items
          obtain ⟨rfl, rfl⟩ :=
            streams_of_digests free known known' (List.append_cancel_left items)
          rfl
      | exited code' stdout' stderr' => cases count
  | exited code stdout stderr =>
      cases detail' with
      | plain note' => cases count
      | spawnFailed kind' => cases count
      | captured stdout' stderr' => cases count
      | exited code' stdout' stderr' =>
          simp only [Detail.fields, List.flatten_cons, List.flatten_nil, List.append_nil] at items
          obtain ⟨rfl, digests⟩ := exited_split items
          obtain ⟨rfl, rfl⟩ := streams_of_digests free known known' digests
          rfl

/-- The two parts of a fetched source are told by the length of the message. -/
theorem fetched_inj {output output' : SourceFetchOutput}
    (equal : (Report.fetched output).message crypto step =
      (Report.fetched output').message crypto step) : output = output' := by
  simp only [Report.message] at equal
  have total := congrArg List.length equal
  simp only [List.length_append, length_littleEndian, List.Vector.toList_length] at total
  rw [List.append_assoc, List.append_assoc] at equal
  have texts := (List.append_inj equal (by simp)).2
  obtain ⟨sha, tree⟩ := List.append_inj texts (by omega)
  obtain ⟨resolved, treeHash⟩ := output
  obtain ⟨resolved', treeHash'⟩ := output'
  rw [SourceFetchOutput.mk.injEq]
  exact ⟨utf8_inj sha, List.Vector.toList_injective tree⟩

/-- The first bytes of the message of a failed fetch. -/
private theorem failed_message (crypto : Crypto) (url reference : String)
    (kind : SourceFetchError) :
    ∃ tail, (Report.noted (.plain (.fetchFailed kind))).message crypto
        (.sourceFetch url reference) =
      [0x82, 0xa1, 0x6b, 0x53, 0x6f, 0x75, 0x72, 0x63] ++
        ([0x65, 0x46, 0x65, 0x74, 0x63, 0x68] ++ 0xa2 :: tail) := by
  have step : (Step.sourceFetch url reference).encode = Cbor.record [("SourceFetch",
      Cbor.record [("url", Cbor.text url), ("reference", Cbor.text reference)])] := rfl
  have heads : Cbor.header 4 2 = [0x82] ∧ Cbor.header 5 1 = [0xa1] ∧
      Cbor.header 5 2 = [0xa2] := by decide
  have name : Cbor.text "SourceFetch" =
      [0x6b, 0x53, 0x6f, 0x75, 0x72, 0x63, 0x65, 0x46, 0x65, 0x74, 0x63, 0x68] := by
    decide +kernel
  simp only [Report.message, Detail.fields, step, Cbor.array, Cbor.record, List.length_cons,
    List.length_nil, Nat.zero_add, Nat.reduceAdd, heads, name, List.flatten_cons,
    List.flatMap_cons, List.cons_append, List.nil_append]
  exact ⟨_, rfl⟩

/-- A failed fetch hashes a tuple; read as a fetched source, it would name a commit with a
byte that no text has there. -/
theorem fetched_ne_failed {url reference : String} {output : SourceFetchOutput}
    {kind : SourceFetchError} :
    (Report.fetched output).message crypto (.sourceFetch url reference) ≠
      (Report.noted (.plain (.fetchFailed kind))).message crypto
        (.sourceFetch url reference) := by
  intro equal
  obtain ⟨tail, shape⟩ := failed_message crypto url reference kind
  rw [shape, Report.message, List.append_assoc] at equal
  obtain ⟨count, rest⟩ := List.append_inj equal (by simp)
  have long : 7 ≤ (utf8 output.resolvedSha.toList).length := by
    have low := congrArg UInt8.toNat (List.cons.inj count).1
    rw [UInt8.toNat_ofNat'] at low
    change _ = 130 at low
    omega
  obtain ⟨more, length⟩ := Nat.exists_eq_add_of_le' long
  have named := congrArg (List.take (utf8 output.resolvedSha.toList).length) rest
  rw [List.take_left, length, List.take_append, List.take_of_length_le (by simp),
    show more + 7 - [0x65, 0x46, 0x65, 0x74, 0x63, (0x68 : UInt8)].length = more + 1 by simp,
    List.take_succ_cons] at named
  exact utf8_ne_continuation rfl (by decide) _ _ named

theorem returned_inj {module : List UInt8} {value value' : Int32}
    (equal : (Report.returned module value).message crypto step =
      (Report.returned module value').message crypto step) : value = value' := by
  have bytes := congrArg ofLittleEndian (List.append_cancel_left equal)
  rw [ofLittleEndian_littleEndian (UInt32.toNat_lt _),
    ofLittleEndian_littleEndian (UInt32.toNat_lt _)] at bytes
  obtain ⟨bits⟩ := value
  obtain ⟨bits'⟩ := value'
  exact congrArg Int32.ofUInt32 (UInt32.toNat_inj.mp bytes)

/-- The step alone is longer than a digest and a result. -/
theorem returned_ne_noted {module argsCbor : List UInt8} {limits : Limits} {value : Int32}
    {detail : Detail} :
    (Report.returned module value).message crypto (.execWasm module argsCbor limits) ≠
      (Report.noted detail).message crypto (.execWasm module argsCbor limits) := by
  intro equal
  have total := congrArg List.length equal
  have step : (Step.execWasm module argsCbor limits).encode = Cbor.record [("ExecWasm",
      Cbor.record [("module", Cbor.byteArray module), ("args_cbor", Cbor.byteArray argsCbor),
        ("limits", Cbor.record [("cpu_seconds", Cbor.unsigned limits.cpuSeconds.toNat),
          ("memory_mb", Cbor.unsigned limits.memoryMb.toNat),
          ("wall_seconds", Cbor.unsigned limits.wallSeconds.toNat),
          ("network", limits.network.encode)])])] := rfl
  have names : (Cbor.text "ExecWasm").length + (Cbor.text "module").length +
      (Cbor.text "args_cbor").length + (Cbor.text "limits").length +
      (Cbor.text "cpu_seconds").length = 45 := by decide +kernel
  simp only [Report.message, step, Cbor.array, Cbor.record, List.length_append,
    List.flatten_cons, List.flatMap_cons, List.flatMap_nil, List.append_nil,
    List.Vector.toList_length, length_littleEndian] at total
  omega

/-- The shapes of a report, by the kind of its step. -/
inductive Shape : Step → Report → Prop
  | fetched {url reference : String} (output : SourceFetchOutput) :
      Shape (.sourceFetch url reference) (.fetched output)
  | failed {url reference : String} (kind : SourceFetchError) :
      Shape (.sourceFetch url reference) (.noted (.plain (.fetchFailed kind)))
  | returned {module argsCbor : List UInt8} {limits : Limits} (value : Int32) :
      Shape (.execWasm module argsCbor limits) (.returned module value)
  | limited {module argsCbor : List UInt8} {limits : Limits} (detail : Detail) :
      Shape (.execWasm module argsCbor limits) (.noted detail)
  | native {command : List String} {env : EnvVars} {limits : Limits} (detail : Detail) :
      Shape (.execNative command env limits) (.noted detail)
  | captured {name : String} (detail : Detail) : Shape (.captureLog name) (.noted detail)
  | unimplemented {path name : String} : Shape (.captureArtifact path name) .unimplemented

theorem shape_of_report {report : Report}
    (reported : step.report world index streams = some report) : Shape step report := by
  cases step with
  | sourceFetch url reference =>
      simp only [Step.report] at reported
      split at reported
      · cases reported
        exact .fetched _
      · cases reported
        exact .failed _
  | execWasm module argsCbor limits =>
      simp only [Step.report] at reported
      split at reported
      · cases reported
      · cases reported
        exact .returned _
      · cases reported
        exact .limited _
  | execNative command env limits =>
      simp only [Step.report] at reported
      repeat' split at reported
      all_goals
        cases reported
        exact .native _
  | captureLog name =>
      cases streams <;> cases reported <;> exact .captured _
  | captureArtifact path name =>
      cases reported
      exact .unimplemented

/-- Reports of one step with one message are equal, unless the hash collides on a
stream. -/
theorem report_eq_of_message (free : crypto.CollisionFree messages) {report report' : Report}
    (shape : Shape step report) (shape' : Shape step report')
    (known : report.hashed crypto step ⊆ messages) (known' : report'.hashed crypto step ⊆ messages)
    (equal : report.message crypto step = report'.message crypto step) : report = report' := by
  have noted {detail detail' : Detail}
      (known : (Report.noted detail).hashed crypto step ⊆ messages)
      (known' : (Report.noted detail').hashed crypto step ⊆ messages)
      (equal : (Report.noted detail).message crypto step =
        (Report.noted detail').message crypto step) :
      Report.noted detail = Report.noted detail' :=
    congrArg Report.noted (detail_eq_of_tuple free
      (List.subset_of_cons_subset known) (List.subset_of_cons_subset known') equal)
  cases shape with
  | fetched output =>
      cases shape' with
      | fetched output' => rw [fetched_inj equal]
      | failed kind' => exact absurd equal fetched_ne_failed
  | failed kind =>
      cases shape' with
      | fetched output' => exact absurd equal.symm fetched_ne_failed
      | failed kind' => exact noted known known' equal
  | returned value =>
      cases shape' with
      | returned value' => rw [returned_inj equal]
      | limited detail' => exact absurd equal returned_ne_noted
  | limited detail =>
      cases shape' with
      | returned value' => exact absurd equal.symm returned_ne_noted
      | limited detail' => exact noted known known' equal
  | native detail =>
      cases shape'
      exact noted known known' equal
  | captured detail =>
      cases shape'
      exact noted known known' equal
  | unimplemented =>
      cases shape'
      rfl

/-! ## The same answer -/

/-- What others can tell of the fate of a child: not which signal ended it, nor what it
printed beyond the cap, or before it was killed. -/
def ChildRun.visible : ChildRun → ChildRun
  | .exited code stdout stderr oomKilled =>
      if oomKilled then .exited none [] [] true
      else .exited (some (code.getD (-1))) (stdout.take maxCaptureBytes)
        (stderr.take maxCaptureBytes) false
  | run => run

/-- Two outside worlds give a step the same answer, as far as it is hashed. -/
def SameAnswer (world world' : World) (index : Nat) : Step → Prop
  | .sourceFetch url reference =>
      world.sourceFetch index url reference = world'.sourceFetch index url reference
  | .execWasm module argsCbor limits =>
      (world.execWasm index module argsCbor (execLimits limits)).toOption =
        (world'.execWasm index module argsCbor (execLimits limits)).toOption
  | .execNative command env limits =>
      command = [] ∨ (world.execNative index command env limits).visible =
        (world'.execNative index command env limits).visible
  | .captureLog _ => True
  | .captureArtifact _ _ => True

theorem ChildRun.detail_eq_iff {run run' : ChildRun} :
    run.detail = run'.detail ↔ run.visible = run'.visible := by
  cases run with
  | exited code stdout stderr oomKilled =>
      cases run' with
      | exited code' stdout' stderr' oomKilled' =>
          cases oomKilled <;> cases oomKilled' <;> simp [detail, visible]
      | _ => cases oomKilled <;> simp [detail, visible]
  | _ =>
      cases run' with
      | exited code' stdout' stderr' oomKilled' =>
          cases oomKilled' <;> simp [detail, visible]
      | _ => simp [detail, visible]

theorem ExecLimitKind.toLimitKind_injective : Function.Injective toLimitKind := by
  intro kind kind' same
  cases kind <;> cases kind' <;> first | rfl | cases same

/-- The report of a step tells the answer that it got. -/
theorem report_eq_iff_sameAnswer {streams streams' : Option (List UInt8 × List UInt8)}
    (same : ∀ name, step = .captureLog name → streams = streams') :
    step.report world index streams = step.report world' index streams' ↔
      SameAnswer world world' index step := by
  cases step with
  | sourceFetch url reference =>
      simp only [Step.report, SameAnswer]
      cases world.sourceFetch index url reference <;>
        cases world'.sourceFetch index url reference <;> simp
  | execWasm module argsCbor limits =>
      simp only [Step.report, SameAnswer]
      generalize world.execWasm index module argsCbor (execLimits limits) = mine
      generalize world'.execWasm index module argsCbor (execLimits limits) = theirs
      rcases mine with _ | (_ | _) <;> rcases theirs with _ | (_ | _) <;>
        simp [Except.toOption, ExecLimitKind.toLimitKind_injective.eq_iff]
  | execNative command env limits =>
      by_cases empty : command = []
      · subst empty
        exact iff_of_true rfl (Or.inl rfl)
      · have given : command.isEmpty = false := List.isEmpty_eq_false_iff.mpr empty
        simp only [Step.report, SameAnswer, given, Bool.false_eq_true, if_false, Option.some.injEq,
          Report.noted.injEq, or_iff_right empty]
        exact ChildRun.detail_eq_iff
  | captureLog name =>
      rw [same name rfl]
      exact iff_of_true rfl trivial
  | captureArtifact path name => exact iff_of_true rfl trivial

/-- The streams retained from the last native step before a position. -/
def Pipeline.retained (world : World) (pipeline : Pipeline) :
    Nat → Option (List UInt8 × List UInt8)
  | 0 => none
  | position + 1 =>
      match pipeline.steps[position]? with
      | some step => step.streams world position (pipeline.retained world position)
      | none => pipeline.retained world position

/-- A step repeats its report of another execution: it asks the outside world and gets the
same answer, it captures the same streams of the last native step, or it is not
implemented. -/
def Pipeline.Repeats (pipeline : Pipeline) (world world' : World) (position : Nat) :
    Step → Prop
  | .captureLog _ => pipeline.retained world position = pipeline.retained world' position
  | step => SameAnswer world world' position step

/-- The streams before a position are those the loop carries. -/
theorem reports_getElem? (world : World) (pipeline : Pipeline) (position : Nat) :
    (pipeline.reports world)[position]? = pipeline.steps[position]?.map fun step =>
      step.report world position (pipeline.retained world position) := by
  have from_split : ∀ after before : List Step, pipeline.steps = before ++ after →
      ∀ offset : Nat, (reportsFrom world before.length after
          (pipeline.retained world before.length))[offset]? =
        after[offset]?.map fun step => step.report world (before.length + offset)
          (pipeline.retained world (before.length + offset)) := by
    intro after
    induction after with
    | nil => intros; rfl
    | cons step rest ih =>
        intro before whole offset
        cases offset with
        | zero => rfl
        | succ offset =>
            have here : pipeline.steps[before.length]? = some step := by simp [whole]
            have later := ih (before ++ [step]) (by simp [whole]) offset
            rw [List.length_append, List.length_singleton, Pipeline.retained, here,
              Nat.add_right_comm] at later
            exact later
  have whole := from_split pipeline.steps [] rfl position
  rwa [List.length_nil, Nat.zero_add] at whole

theorem report_eq_iff_repeats {position : Nat} :
    step.report world position (pipeline.retained world position) =
        step.report world' position (pipeline.retained world' position) ↔
      pipeline.Repeats world world' position step := by
  cases step with
  | captureLog name =>
      simp only [Step.report, Pipeline.Repeats]
      cases pipeline.retained world position <;> cases pipeline.retained world' position <;>
        simp [Prod.ext_iff]
  | sourceFetch url reference => exact report_eq_iff_sameAnswer nofun
  | execWasm module argsCbor limits => exact report_eq_iff_sameAnswer nofun
  | execNative command env limits => exact report_eq_iff_sameAnswer nofun
  | captureArtifact path name => exact report_eq_iff_sameAnswer nofun

/-! ## Two executions -/

/-- Every step has a report of a shape that goes with it. -/
def Shaped (steps : List Step) (reports : List (Option Report)) : Prop :=
  List.Forall₂ (fun step report => ∀ value ∈ report, Shape step value) steps reports

theorem shaped_reportsFrom (world : World) (index : Nat) (steps : List Step)
    (streams : Option (List UInt8 × List UInt8)) :
    Shaped steps (reportsFrom world index steps streams) := by
  induction steps generalizing index streams with
  | nil => exact .nil
  | cons step rest ih => exact .cons (fun _ reported => shape_of_report reported) (ih _ _)

/-- The hashes of a position agree exactly when its reports do.  Induction on the steps;
only the messages of the position itself have to be free of collisions. -/
theorem outputHashes_getElem?_eq_iff (free : crypto.CollisionFree messages) {steps : List Step}
    {reports reports' : List (Option Report)} (shaped : Shaped steps reports)
    (shaped' : Shaped steps reports') (known : hashedMessages crypto steps reports ⊆ messages)
    (known' : hashedMessages crypto steps reports' ⊆ messages) (position : Nat) :
    (outputHashes crypto steps reports)[position]? =
        (outputHashes crypto steps reports')[position]? ↔
      reports[position]? = reports'[position]? := by
  induction shaped generalizing reports' position with
  | nil =>
      cases shaped'
      exact iff_of_true rfl rfl
  | @cons step report rest reports shape shaped ih =>
      cases shaped' with
      | @cons _ report' _ reports' shape' shaped' =>
          rw [hashedMessages, List.zipWith_cons_cons, List.flatten_cons,
            List.append_subset] at known known'
          cases position with
          | succ position => exact ih shaped' known.2 known'.2 position
          | zero =>
              simp only [outputHashes, List.zipWith_cons_cons, List.getElem?_cons_zero,
                Option.some.injEq]
              cases report with
              | none => cases report' <;> simp
              | some report =>
                  cases report' with
                  | none => simp
                  | some report' =>
                      simp only [Option.map_some, Option.some.injEq]
                      refine ⟨fun hashes => ?_, fun same => by rw [same]⟩
                      have message := free _ (known.1 List.mem_cons_self) _
                        (known'.1 List.mem_cons_self) hashes
                      exact report_eq_of_message free (shape _ rfl) (shape' _ rfl) known.1
                        known'.1 message

/-- The output hashes of a step differ between two results. -/
def Diverges (result result' : PipelineResult) (position : Nat) : Prop :=
  (result.steps[position]?).map StepOutput.outputHash ≠
    (result'.steps[position]?).map StepOutput.outputHash

instance (result result' : PipelineResult) (position : Nat) :
    Decidable (Diverges result result' position) :=
  inferInstanceAs (Decidable (_ ≠ _))

theorem diverges_iff {result result' : PipelineResult}
    (free : crypto.CollisionFree (pipeline.hashed crypto world ++ pipeline.hashed crypto world'))
    (executed : executePipeline crypto world pipeline = .ok result)
    (executed' : executePipeline crypto world' pipeline = .ok result') (position : Nat) :
    Diverges result result' position ↔
      (pipeline.reports world)[position]? ≠ (pipeline.reports world')[position]? := by
  have same := outputHashes_getElem?_eq_iff free (shaped_reportsFrom world 0 pipeline.steps none)
    (shaped_reportsFrom world' 0 pipeline.steps none) (List.subset_append_left _ _)
    (List.subset_append_right _ _) position
  rw [← Pipeline.reports, ← Pipeline.reports, ← outputHashes_executePipeline executed,
    ← outputHashes_executePipeline executed', List.getElem?_map, List.getElem?_map] at same
  rw [Diverges, Ne, Ne, ← same]
  refine not_congr ?_
  cases result.steps[position]? <;> cases result'.steps[position]? <;> simp

theorem diverges_iff_not_repeats {result result' : PipelineResult}
    (free : crypto.CollisionFree (pipeline.hashed crypto world ++ pipeline.hashed crypto world'))
    (executed : executePipeline crypto world pipeline = .ok result)
    (executed' : executePipeline crypto world' pipeline = .ok result') {position : Nat}
    (here : pipeline.steps[position]? = some step) :
    Diverges result result' position ↔ ¬pipeline.Repeats world world' position step := by
  rw [diverges_iff free executed executed', reports_getElem?, reports_getElem?, here,
    Option.map_some, Option.map_some, Ne, Option.some.injEq, report_eq_iff_repeats]

/-- No step hashes the outputs before it, so a divergence at one step is followed by a
divergence at every later one exactly when no later step repeats its report. -/
theorem divergence_propagates_iff (crypto : Crypto) (world world' : World) (pipeline : Pipeline)
    (result result' : PipelineResult)
    (free : crypto.CollisionFree (pipeline.hashed crypto world ++ pipeline.hashed crypto world'))
    (executed : executePipeline crypto world pipeline = .ok result)
    (executed' : executePipeline crypto world' pipeline = .ok result') (first : Nat)
    (start : Step) (here : pipeline.steps[first]? = some start) :
    (Diverges result result' first → ∀ later, first < later → later < pipeline.steps.length →
        Diverges result result' later) ↔
      pipeline.Repeats world world' first start ∨
        ∀ later step, first < later → pipeline.steps[later]? = some step →
          ¬pipeline.Repeats world world' later step := by
  rw [diverges_iff_not_repeats free executed executed' here, ← or_iff_not_imp_left]
  refine or_congr_right ?_
  constructor
  · intro propagates later step after found
    obtain ⟨inside, -⟩ := List.getElem?_eq_some_iff.mp found
    exact (diverges_iff_not_repeats free executed executed' found).mp
      (propagates later after inside)
  · intro fresh later after inside
    have found := List.getElem?_eq_getElem inside
    exact (diverges_iff_not_repeats free executed executed' found).mpr
      (fresh later _ after found)

/-- A captured log follows the streams of its native step. -/
theorem divergence_propagates_iff_logged :
    Diverges (loggedResult fun _ => [104, 105]) (loggedResult fun _ => [104]) 0 ∧
      ∀ later, 0 < later → later < loggedPipeline.steps.length →
        Diverges (loggedResult fun _ => [104, 105]) (loggedResult fun _ => [104]) later := by
  have diverged : Diverges (loggedResult fun _ => [104, 105]) (loggedResult fun _ => [104]) 0 := by
    decide +kernel
  refine ⟨diverged, (divergence_propagates_iff Core.modelCrypto
    (printingWorld fun _ => [104, 105]) (printingWorld fun _ => [104]) loggedPipeline _ _
    (by decide +kernel) (by decide +kernel) (by decide +kernel) 0 _ rfl).mpr (Or.inr ?_) diverged⟩
  intro later step after found
  obtain rfl : later = 1 := by
    obtain ⟨inside, -⟩ := List.getElem?_eq_some_iff.mp found
    change later < 2 at inside
    omega
  cases found
  change ¬loggedPipeline.retained _ 1 = loggedPipeline.retained _ 1
  decide +kernel

/-- A source fetch, followed by a WASM step. -/
def fetchThenRun : Pipeline where
  steps := [.sourceFetch "url" "main", .execWasm [0] [] ⟨0, 0, 0, ⟨[], .deny⟩⟩]

/-- A world in which the reference stands for the given commit and every call returns
five. -/
def fetchingWorld (commit : String) : World where
  sourceFetch _ _ _ := .ok ⟨commit, Core.modelHash []⟩
  execWasm _ _ _ _ := .ok (.ok 5)
  execNative _ _ _ _ := .killedByWall

def fetchedResult (commit : String) : PipelineResult :=
  (executePipeline Core.modelCrypto (fetchingWorld commit) fetchThenRun).toOption.getD
    ⟨[], Core.modelHash [], []⟩

/-- The fetched commits differ, and with them the hashes of the first step; the WASM step
does not notice. -/
theorem divergence_stops :
    executePipeline Core.modelCrypto (fetchingWorld "one") fetchThenRun =
        .ok (fetchedResult "one") ∧
      executePipeline Core.modelCrypto (fetchingWorld "two") fetchThenRun =
        .ok (fetchedResult "two") ∧
      Core.modelCrypto.CollisionFree (fetchThenRun.hashed Core.modelCrypto (fetchingWorld "one") ++
        fetchThenRun.hashed Core.modelCrypto (fetchingWorld "two")) ∧
      Diverges (fetchedResult "one") (fetchedResult "two") 0 ∧
      ¬Diverges (fetchedResult "one") (fetchedResult "two") 1 := by
  decide +kernel

end Cosaci.Jobs
