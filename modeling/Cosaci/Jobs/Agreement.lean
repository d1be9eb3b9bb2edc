import Cosaci.Jobs.Divergence
import Cosaci.Jobs.SourceFetch

/-!
# What an agreed artifact hash means

Runners vote with the hash of their step outputs.  Unless SHA-256 collides, two runners
vote for the same hash exactly when every step did the same on both: the fetches resolved
to the same commit and the same files, the calls returned the same values, and the children
ended alike and printed the same.
-/

namespace Cosaci.Jobs

open Foundation
open Cosaci.Core (Crypto Hash)

/-! ## The vote -/

section Reports

variable {crypto : Crypto} {world world' : World}

/-- What is hashed to the vote. -/
def PipelineResult.message (result : PipelineResult) : List UInt8 :=
  Cbor.array (result.steps.map StepOutput.encode)

variable {pipeline : Pipeline}

theorem finalArtifactHash_executePipeline {result : PipelineResult}
    (executed : executePipeline crypto world pipeline = .ok result) :
    result.finalArtifactHash = crypto.sha256 result.message ∧
      result.steps.length = pipeline.steps.length := by
  obtain ⟨progress, loop, rfl⟩ := map_eq_ok executed
  obtain ⟨added, length, later⟩ := executeSteps_outputs loop
  refine ⟨rfl, ?_⟩
  rw [← length, later]
  rfl

/-- Two runners vote alike exactly when all their steps report alike. -/
theorem finalArtifactHash_eq_iff {result result' : PipelineResult} {messages : List (List UInt8)}
    (free : crypto.CollisionFree messages)
    (known : result.message :: pipeline.hashed crypto world ⊆ messages)
    (known' : result'.message :: pipeline.hashed crypto world' ⊆ messages)
    (executed : executePipeline crypto world pipeline = .ok result)
    (executed' : executePipeline crypto world' pipeline = .ok result') :
    result.finalArtifactHash = result'.finalArtifactHash ↔
      pipeline.reports world = pipeline.reports world' := by
  obtain ⟨hash, length⟩ := finalArtifactHash_executePipeline executed
  obtain ⟨hash', length'⟩ := finalArtifactHash_executePipeline executed'
  rw [List.cons_subset] at known known'
  constructor
  · intro same
    rw [hash, hash'] at same
    have steps : result.steps = result'.steps := Cbor.array_inj StepOutput.encode_prefixFree
      (length.trans length'.symm) (free _ known.1 _ known'.1 same)
    refine List.ext_getElem? fun position => ?_
    refine (outputHashes_getElem?_eq_iff free (shaped_reportsFrom world 0 pipeline.steps none)
      (shaped_reportsFrom world' 0 pipeline.steps none) known.2 known'.2 position).mp ?_
    rw [← Pipeline.reports, ← Pipeline.reports, ← outputHashes_executePipeline executed,
      ← outputHashes_executePipeline executed', steps]
  · intro reports
    rw [executePipeline_eq_outcome executed, executePipeline_eq_outcome executed',
      Pipeline.outcome, Pipeline.outcome, reports]

/-- The output of a child that exited on its own. -/
def ChildRun.streams : ChildRun → List UInt8 × List UInt8
  | .exited _ stdout stderr false => (stdout, stderr)
  | _ => ([], [])

/-- What is retained of the output of a child is visible. -/
theorem printed_eq (world : World) (index : Nat) (command : List String) (env : EnvVars)
    (limits : Limits) :
    world.printed index command env limits =
      if command.isEmpty then ([], [])
      else (world.execNative index command env limits).visible.streams := by
  unfold World.printed
  refine congrArg (ite _ _) ?_
  cases world.execNative index command env limits with
  | exited code stdout stderr oomKilled => cases oomKilled <;> rfl
  | spawnFailed kind => rfl
  | killedByWall => rfl
  | killedByCpu => rfl

theorem streams_eq_of_sameAnswer {index : Nat} {step : Step}
    (same : SameAnswer world world' index step) (streams : Option (List UInt8 × List UInt8)) :
    step.streams world index streams = step.streams world' index streams := by
  cases step with
  | execNative command env limits =>
      refine congrArg some ?_
      rw [printed_eq, printed_eq]
      rcases same with rfl | same
      · rfl
      · rw [same]
  | sourceFetch url reference => rfl
  | execWasm module argsCbor limits => rfl
  | captureLog name => rfl
  | captureArtifact path name => rfl

/-- The same answers leave the same streams. -/
theorem retained_eq_of_sameAnswer
    (same : ∀ (position : Nat) (step : Step), pipeline.steps[position]? = some step →
      SameAnswer world world' position step) (position : Nat) :
    pipeline.retained world position = pipeline.retained world' position := by
  induction position with
  | zero => rfl
  | succ position ih =>
      rw [Pipeline.retained, Pipeline.retained, ih]
      cases here : pipeline.steps[position]? with
      | none => rfl
      | some step => exact streams_eq_of_sameAnswer (same position step here) _

/-- All steps report alike exactly when all get the same answers. -/
theorem reports_eq_iff :
    pipeline.reports world = pipeline.reports world' ↔
      ∀ (position : Nat) (step : Step), pipeline.steps[position]? = some step →
        SameAnswer world world' position step := by
  constructor
  · intro reports position step here
    have same : (pipeline.reports world)[position]? = (pipeline.reports world')[position]? := by
      rw [reports]
    rw [reports_getElem?, reports_getElem?, here] at same
    have repeats := report_eq_iff_repeats.mp (Option.some.inj same)
    cases step with
    | captureLog name => trivial
    | _ => exact repeats
  · intro same
    refine List.ext_getElem? fun position => ?_
    rw [reports_getElem?, reports_getElem?]
    cases here : pipeline.steps[position]? with
    | none => rfl
    | some step =>
        have streams := retained_eq_of_sameAnswer same position
        exact congrArg some ((report_eq_iff_sameAnswer fun _ _ => streams).mpr
          (same position step here))

end Reports

/-! ## The work of a step -/

/-- The tools of a runner, for each position of a pipeline. -/
structure Tools where
  git : Nat → GitHost
  wasm : Nat → Runtime

/-- The world of a runner with these tools, whose children meet the given fates. -/
def Tools.world (crypto : Crypto) (tools : Tools) (runs : Nat → ChildRun) : World where
  sourceFetch index := executeSourceFetch crypto (tools.git index)
  execWasm index := executeWithLimits (tools.wasm index)
  execNative index _ _ _ := runs index

/-- Two runners did the same at a step. -/
def SameWork (crypto : Crypto) (tools tools' : Tools) (runs runs' : Nat → ChildRun)
    (index : Nat) : Step → Prop
  | .sourceFetch url reference => SameFetch (tools.git index) (tools'.git index)
      (executeSourceFetch crypto (tools.git index) url reference)
      (executeSourceFetch crypto (tools'.git index) url reference)
  | .execWasm module argsCbor limits =>
      (executeWithLimits (tools.wasm index) module argsCbor (execLimits limits)).toOption =
        (executeWithLimits (tools'.wasm index) module argsCbor (execLimits limits)).toOption
  | .execNative command _ _ => command = [] ∨ (runs index).visible = (runs' index).visible
  | .captureLog _ => True
  | .captureArtifact _ _ => True

/-- The checkouts of two runners at a position can be told apart by their hashes. -/
structure Comparable (crypto : Crypto) (git git' : GitHost) : Prop where
  named : Utf8Named metadataDirs git.tree.entries
  named' : Utf8Named metadataDirs git'.tree.entries
  free : crypto.CollisionFree (git.messages crypto ++ git'.messages crypto)

theorem sameAnswer_iff_sameWork {crypto : Crypto} {tools tools' : Tools}
    {runs runs' : Nat → ChildRun} {index : Nat} {step : Step}
    (comparable : ∀ url reference, step = .sourceFetch url reference →
      Comparable crypto (tools.git index) (tools'.git index)) :
    SameAnswer (tools.world crypto runs) (tools'.world crypto runs') index step ↔
      SameWork crypto tools tools' runs runs' index step := by
  cases step with
  | sourceFetch url reference =>
      obtain ⟨named, named', free⟩ := comparable url reference rfl
      exact executeSourceFetch_eq_iff named named' free
  | execWasm module argsCbor limits => exact Iff.rfl
  | execNative command env limits => exact Iff.rfl
  | captureLog name => exact Iff.rfl
  | captureArtifact path name => exact Iff.rfl

/-- Everything that a runner hashes for a pipeline. -/
def Tools.messages (crypto : Crypto) (tools : Tools) (runs : Nat → ChildRun)
    (pipeline : Pipeline) (result : PipelineResult) : List (List UInt8) :=
  result.message :: pipeline.hashed crypto (tools.world crypto runs)

/-- Unless SHA-256 collides, two runners of one pipeline vote for the same artifact hash
exactly when they did the same at every step. -/
theorem artifact_hash_agrees_iff (crypto : Crypto) (tools tools' : Tools)
    (runs runs' : Nat → ChildRun) (pipeline : Pipeline) (result result' : PipelineResult)
    (comparable : ∀ index url reference,
      pipeline.steps[index]? = some (.sourceFetch url reference) →
        Comparable crypto (tools.git index) (tools'.git index))
    (free : crypto.CollisionFree (tools.messages crypto runs pipeline result ++
      tools'.messages crypto runs' pipeline result'))
    (executed : executePipeline crypto (tools.world crypto runs) pipeline = .ok result)
    (executed' : executePipeline crypto (tools'.world crypto runs') pipeline = .ok result') :
    result.finalArtifactHash = result'.finalArtifactHash ↔
      ∀ index step, pipeline.steps[index]? = some step →
        SameWork crypto tools tools' runs runs' index step := by
  rw [finalArtifactHash_eq_iff free (List.subset_append_left _ _) (List.subset_append_right _ _)
    executed executed', reports_eq_iff]
  refine forall_congr' fun index => forall_congr' fun step => imp_congr_right fun here => ?_
  exact sameAnswer_iff_sameWork fun url reference same =>
    comparable index url reference (same ▸ here)

/-- A host on which git prints a commit and leaves the given tree. -/
def sampleGit (tree : WorkingTree) : GitHost :=
  ⟨.ok (), fun _ => .ok ⟨true, [49, 102, 10], []⟩, tree⟩

def sampleTools (tree : WorkingTree) : Tools where
  git _ := sampleGit tree
  wasm _ := spinningRuntime [] (.ok ())

/-- The checkout in two orders of listing, once with its metadata. -/
def listedTree : WorkingTree := ⟨sampleTree, by decide +kernel⟩

def relistedTree : WorkingTree := ⟨rebuiltTree, by decide +kernel⟩

def buildPipeline : Pipeline where
  steps := [.sourceFetch "url" "main", .execNative ["make"] ⟨[], EnvVars.sorted_nil⟩ secondLimit,
    .captureLog "build"]

/-- The result of a runner whose child has the given fate. -/
def buildResult (tree : WorkingTree) (run : ChildRun) : PipelineResult :=
  (executePipeline Core.modelCrypto ((sampleTools tree).world Core.modelCrypto fun _ => run)
    buildPipeline).toOption.getD ⟨[], Core.modelHash [], []⟩

/-- Both children are killed for their memory, one of them after it printed something: that
is the same vote. -/
theorem artifact_hash_agrees_iff_build :
    (buildResult listedTree (.exited none [104] [] true)).finalArtifactHash =
      (buildResult relistedTree (.exited none [] [] true)).finalArtifactHash := by
  have shown : ∀ file ∈ files metadataDirs sampleTree ++ files metadataDirs rebuiltTree,
      ∀ name ∈ file.path, name.bytes = utf8 name.lossy := by decide +kernel
  have perm : (files metadataDirs sampleTree).Perm (files metadataDirs rebuiltTree) := by
    decide +kernel
  have free : Core.modelCrypto.CollisionFree ((sampleGit listedTree).messages Core.modelCrypto ++
      (sampleGit relistedTree).messages Core.modelCrypto) := by decide +kernel
  have fetched : executeSourceFetch Core.modelCrypto (sampleGit listedTree) "url" "main" =
      .ok ⟨"1f", Core.modelHash (treeStream (treeRecords Core.modelCrypto metadataDirs
        sampleTree))⟩ := by decide +kernel
  have fetched' : executeSourceFetch Core.modelCrypto (sampleGit relistedTree) "url" "main" =
      .ok ⟨"1f", Core.modelHash (treeStream (treeRecords Core.modelCrypto metadataDirs
        rebuiltTree))⟩ := by decide +kernel
  refine (artifact_hash_agrees_iff Core.modelCrypto (sampleTools listedTree)
    (sampleTools relistedTree) (fun _ => .exited none [104] [] true)
    (fun _ => .exited none [] [] true) buildPipeline _ _ ?_ ?_ ?_ ?_).mpr ?_
  · exact fun _ _ _ _ => ⟨fun file member name inside =>
        ⟨name.lossy, shown file (List.mem_append_left _ member) name inside⟩,
      fun file member name inside =>
        ⟨name.lossy, shown file (List.mem_append_right _ member) name inside⟩, free⟩
  · decide +kernel
  · decide +kernel
  · decide +kernel
  · intro index step here
    have member := List.mem_of_getElem? here
    simp only [buildPipeline, List.mem_cons, List.not_mem_nil, or_false] at member
    rcases member with rfl | rfl | rfl
    · change SameFetch (sampleGit listedTree) (sampleGit relistedTree)
        (executeSourceFetch Core.modelCrypto (sampleGit listedTree) "url" "main")
        (executeSourceFetch Core.modelCrypto (sampleGit relistedTree) "url" "main")
      rw [fetched, fetched']
      exact ⟨rfl, fun _ => perm.mem_iff⟩
    · exact Or.inr rfl
    · trivial

end Cosaci.Jobs
