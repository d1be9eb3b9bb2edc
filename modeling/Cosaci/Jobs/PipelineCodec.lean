import Cosaci.Foundation.CborShapes
import Cosaci.Jobs.Pipeline

/-!
# Reading pipelines and captures

The reader side of the pipeline language: how a job is taken from the message that
assigns it, and captured output from the messages and files that carry it.  The writers
are those of `Jobs.Pipeline`.
-/

namespace Cosaci.Jobs

open Foundation
open Foundation.Cbor (Code Fields Variant)

/-! ## Network policies -/

def Scheme.name : Scheme → String
  | .http => "Http"
  | .https => "Https"
  | .tcp => "Tcp"

def Scheme.shape : Cbor.Shape Scheme :=
  .units [.http, .https, .tcp] name (by intro scheme; cases scheme <;> simp) (by decide)

namespace EgressTarget

def hostShape : Cbor.Shape (String × UInt16 × Scheme) :=
  (Cbor.Shape.record (.both (.one "hostname" .text)
    (.both (.one "port" .uint16) (.one "scheme" Scheme.shape))) (by decide)).total
      fun _ => ⟨trivial, trivial, trivial⟩

def cidrShape : Cbor.Shape (String × UInt16 × UInt16) :=
  (Cbor.Shape.record (.both (.one "cidr" .text)
    (.both (.one "port_range_start" .uint16) (.one "port_range_end" .uint16))) (by decide)).total
      fun _ => ⟨trivial, trivial, trivial⟩

def hostVariant : Variant EgressTarget :=
  .holding "Host" hostShape fun (hostname, port, scheme) => .host hostname port scheme

def cidrVariant : Variant EgressTarget :=
  .holding "Cidr" cidrShape fun (block, portRangeStart, portRangeEnd) =>
    .cidr block portRangeStart portRangeEnd

def pick : (target : EgressTarget) → Variant.Pick [hostVariant, cidrVariant] target
  | .host hostname port scheme => ⟨hostVariant, (hostname, port, scheme), by simp, rfl⟩
  | .cidr block portRangeStart portRangeEnd =>
      ⟨cidrVariant, (block, portRangeStart, portRangeEnd), by simp, rfl⟩

def shape : Cbor.Shape EgressTarget :=
  (Cbor.Shape.enum _ pick (by decide)).total fun target => by cases target <;> trivial

theorem bytes_shape (target : EgressTarget) : (shape.write target).bytes = target.encode := by
  cases target with
  | host hostname port scheme => cases scheme <;> rfl
  | cidr block portRangeStart portRangeEnd => rfl

end EgressTarget

def EgressDefault.name : EgressDefault → String
  | .deny => "Deny"
  | .audit => "Audit"

def EgressDefault.shape : Cbor.Shape EgressDefault :=
  .units [.deny, .audit] name (by intro choice; cases choice <;> simp) (by decide)

def NetworkPolicy.shape : Cbor.Shape NetworkPolicy :=
  ((Cbor.Shape.record (.both (.one "allow" EgressTarget.shape.list)
    (.one "default" EgressDefault.shape)) (by decide)).convert
      (fun policy : NetworkPolicy => (policy.allow, policy.default))
      (fun (allow, choice) => ⟨allow, choice⟩) fun _ => rfl).total
        fun _ => ⟨fun _ _ => trivial, trivial⟩

def Limits.shape : Cbor.Shape Limits :=
  ((Cbor.Shape.record (.both (.one "cpu_seconds" .uint32) (.both (.one "memory_mb" .uint32)
    (.both (.one "wall_seconds" .uint32) (.one "network" NetworkPolicy.shape))))
      (by decide)).convert
      (fun limits : Limits =>
        (limits.cpuSeconds, limits.memoryMb, limits.wallSeconds, limits.network))
      (fun (cpuSeconds, memoryMb, wallSeconds, network) =>
        ⟨cpuSeconds, memoryMb, wallSeconds, network⟩) fun _ => rfl).total
        fun _ => ⟨trivial, trivial, trivial, trivial⟩

/-- The network policy is written as the message format has it. -/
theorem NetworkPolicy.bytes_shape (policy : NetworkPolicy) :
    (shape.write policy).bytes = policy.encode := by
  have targets : (EgressTarget.shape.list.write policy.allow).bytes =
      Cbor.array (policy.allow.map EgressTarget.encode) := by
    rw [Cbor.Shape.bytes_list]
    exact congrArg _ (List.map_congr_left fun target _ => target.bytes_shape)
  obtain ⟨allow, choice⟩ := policy
  rw [NetworkPolicy.encode, ← targets]
  cases choice <;> rfl

theorem Limits.bytes_shape (limits : Limits) : (shape.write limits).bytes = limits.encode := by
  rw [Limits.encode, ← limits.network.bytes_shape]
  rfl

/-! ## Environment variables -/

namespace EnvVars

/-- Put an entry where it belongs; the value of a name that is there is replaced. -/
def insertEntry (entry : String × String) : List (String × String) → List (String × String)
  | [] => [entry]
  | first :: rest =>
      if entry.1 < first.1 then entry :: first :: rest
      else if first.1 < entry.1 then first :: insertEntry entry rest
      else entry :: rest

variable {entries : List (String × String)}

theorem mem_insertEntry {entry other : String × String}
    (member : other ∈ insertEntry entry entries) : other = entry ∨ other ∈ entries := by
  induction entries with
  | nil => exact Or.inl (List.mem_singleton.mp member)
  | cons first rest ih =>
      rw [insertEntry] at member
      split at member
      · exact List.mem_cons.mp member
      · split at member
        · rcases List.mem_cons.mp member with rfl | member
          · exact Or.inr List.mem_cons_self
          · exact (ih member).imp_right (List.mem_cons_of_mem _)
        · exact (List.mem_cons.mp member).imp_right (List.mem_cons_of_mem _)

theorem sorted_insertEntry (entry : String × String)
    (sorted : entries.Pairwise fun first second => first.1 < second.1) :
    (insertEntry entry entries).Pairwise fun first second => first.1 < second.1 := by
  induction entries with
  | nil => exact List.pairwise_singleton _ _
  | cons first rest ih =>
      obtain ⟨least, others⟩ := List.pairwise_cons.mp sorted
      rw [insertEntry]
      split
      · next before =>
          refine List.pairwise_cons.mpr ⟨?_, sorted⟩
          intro other member
          rcases List.mem_cons.mp member with rfl | member
          · exact before
          · exact String.lt_trans before (least other member)
      · next notBefore =>
          split
          · next after =>
              refine List.pairwise_cons.mpr ⟨?_, ih others⟩
              intro other member
              rcases mem_insertEntry member with rfl | member
              · exact after
              · exact least other member
          · next notAfter =>
              have same : entry.1 = first.1 := String.le_antisymm notAfter notBefore
              refine List.pairwise_cons.mpr ⟨?_, others⟩
              intro other member
              rw [same]
              exact least other member

/-- `BTreeMap::insert` -/
def insert (env : EnvVars) (entry : String × String) : EnvVars :=
  ⟨insertEntry entry env.1, sorted_insertEntry entry env.2⟩

theorem sorted_nil : ([] : List (String × String)).Pairwise fun first second =>
    first.1 < second.1 :=
  .nil

def ofEntries (entries : List (String × String)) : EnvVars :=
  entries.foldl insert ⟨[], sorted_nil⟩

/-- An entry behind all others is put last. -/
theorem insertEntry_of_greater {entry : String × String}
    (greater : ∀ other ∈ entries, other.1 < entry.1) :
    insertEntry entry entries = entries ++ [entry] := by
  induction entries with
  | nil => rfl
  | cons first rest ih =>
      rw [List.forall_mem_cons] at greater
      rw [insertEntry, if_neg (String.lt_asymm greater.1), if_pos greater.1, ih greater.2,
        List.cons_append]

theorem foldl_insert (entries : List (String × String)) (env : EnvVars)
    (sorted : (env.1 ++ entries).Pairwise fun first second => first.1 < second.1) :
    (entries.foldl insert env).1 = env.1 ++ entries := by
  induction entries generalizing env with
  | nil => exact (List.append_nil _).symm
  | cons entry rest ih =>
      have last : (insert env entry).1 = env.1 ++ [entry] := by
        apply insertEntry_of_greater
        intro other member
        exact (List.pairwise_append.mp sorted).2.2 other member entry List.mem_cons_self
      rw [List.foldl_cons, ih, last, List.append_assoc, List.singleton_append]
      rwa [last, List.append_assoc, List.singleton_append]

/-- Sorted entries are put back as they are. -/
theorem ofEntries_entries (env : EnvVars) : ofEntries env.1 = env :=
  Subtype.ext (foldl_insert env.1 ⟨[], sorted_nil⟩ env.2)

def shape : Cbor.Shape EnvVars :=
  (Cbor.Shape.text.entries.convert Subtype.val ofEntries ofEntries_entries).total
    fun _ _ _ => trivial

end EnvVars

/-! ## Steps -/

namespace Step

def sourceFetchShape : Cbor.Shape (String × String) :=
  (Cbor.Shape.record (.both (.one "url" .text) (.one "reference" .text)) (by decide)).total
    fun _ => ⟨trivial, trivial⟩

def execWasmShape : Cbor.Shape (List UInt8 × List UInt8 × Limits) :=
  (Cbor.Shape.record (.both (.one "module" .bytes)
    (.both (.one "args_cbor" .bytes) (.one "limits" Limits.shape))) (by decide)).total
      fun _ => ⟨trivial, trivial, trivial⟩

def execNativeShape : Cbor.Shape (List String × EnvVars × Limits) :=
  (Cbor.Shape.record (.both (.one "command" Cbor.Shape.text.list)
    (.both (.one "env" EnvVars.shape) (.one "limits" Limits.shape))) (by decide)).total
      fun _ => ⟨fun _ _ => trivial, trivial, trivial⟩

def captureLogShape : Cbor.Shape String :=
  (Cbor.Shape.record (.one "name" .text) (by decide)).total fun _ => trivial

def captureArtifactShape : Cbor.Shape (String × String) :=
  (Cbor.Shape.record (.both (.one "path" .text) (.one "name" .text)) (by decide)).total
    fun _ => ⟨trivial, trivial⟩

def sourceFetchVariant : Variant Step :=
  .holding "SourceFetch" sourceFetchShape fun (url, reference) => .sourceFetch url reference

def execWasmVariant : Variant Step :=
  .holding "ExecWasm" execWasmShape fun (module, argsCbor, limits) =>
    .execWasm module argsCbor limits

def execNativeVariant : Variant Step :=
  .holding "ExecNative" execNativeShape fun (command, env, limits) =>
    .execNative command env limits

def captureLogVariant : Variant Step :=
  .holding "CaptureLog" captureLogShape .captureLog

def captureArtifactVariant : Variant Step :=
  .holding "CaptureArtifact" captureArtifactShape fun (path, name) => .captureArtifact path name

def variants : List (Variant Step) :=
  [sourceFetchVariant, execWasmVariant, execNativeVariant, captureLogVariant,
    captureArtifactVariant]

def pick : (step : Step) → Variant.Pick variants step
  | .sourceFetch url reference => ⟨sourceFetchVariant, (url, reference), by simp [variants], rfl⟩
  | .execWasm module argsCbor limits =>
      ⟨execWasmVariant, (module, argsCbor, limits), by simp [variants], rfl⟩
  | .execNative command env limits =>
      ⟨execNativeVariant, (command, env, limits), by simp [variants], rfl⟩
  | .captureLog name => ⟨captureLogVariant, name, by simp [variants], rfl⟩
  | .captureArtifact path name => ⟨captureArtifactVariant, (path, name), by simp [variants], rfl⟩

def shape : Cbor.Shape Step :=
  (Cbor.Shape.enum variants pick (by decide)).total fun step => by cases step <;> trivial

theorem bytes_shape (step : Step) : (shape.write step).bytes = step.encode := by
  cases step with
  | sourceFetch url reference => rfl
  | execWasm module argsCbor limits =>
      rw [encode, ← Cbor.Shape.bytes_bytes, ← Cbor.Shape.bytes_bytes, ← limits.bytes_shape]
      rfl
  | execNative command env limits =>
      have assigned : (EnvVars.shape.write env).bytes =
          Cbor.record (env.1.map fun entry => (entry.1, Cbor.text entry.2)) :=
        Cbor.Shape.text.bytes_entries env.1
      have words : (Cbor.Shape.text.list.write command).bytes =
          Cbor.array (command.map Cbor.text) :=
        Cbor.Shape.text.bytes_list command
      rw [encode, ← assigned, ← words, ← limits.bytes_shape]
      rfl
  | captureLog name => rfl
  | captureArtifact path name => rfl

end Step

def Pipeline.shape : Cbor.Shape Pipeline :=
  ((Cbor.Shape.record (.one "steps" Step.shape.list) (by decide)).convert Pipeline.steps Pipeline.mk
    fun _ => rfl).total fun _ _ _ => trivial

theorem Pipeline.bytes_shape (pipeline : Pipeline) :
    (shape.write pipeline).bytes = canonicalEncoding pipeline := by
  have steps : (Step.shape.list.write pipeline.steps).bytes =
      Cbor.array (pipeline.steps.map Step.encode) := by
    rw [Cbor.Shape.bytes_list]
    exact congrArg _ (List.map_congr_left fun step _ => step.bytes_shape)
  rw [canonicalEncoding, ← steps]
  rfl

/-! ## Captured output -/

def CaptureKind.name : CaptureKind → String
  | .stdout => "Stdout"
  | .stderr => "Stderr"
  | .artifact => "Artifact"

def CaptureKind.shape : Cbor.Shape CaptureKind :=
  .units [.stdout, .stderr, .artifact] name (by intro kind; cases kind <;> simp) (by decide)

namespace CapturedOutput

def shape : Cbor.Shape CapturedOutput :=
  ((Cbor.Shape.record (.both (.one "step_index" .uint32) (.both (.one "name" .text)
    (.both (.one "kind" CaptureKind.shape) (.both (.one "sha256" (.fixedBytes 32))
    (.both (.one "length" .uint64) (.one "bytes_inline" .bytes)))))) (by decide)).convert
      (fun output : CapturedOutput => (output.stepIndex, output.name, output.kind, output.sha256,
        output.length, output.bytesInline))
      (fun (stepIndex, name, kind, sha256, length, bytesInline) =>
        ⟨stepIndex, name, kind, sha256, length, bytesInline⟩) fun _ => rfl).total
        fun _ => ⟨trivial, trivial, trivial, trivial, trivial, trivial⟩

theorem bytes_shape (output : CapturedOutput) : (shape.write output).bytes = output.encode := by
  rw [encode, ← Cbor.Shape.bytes_bytes, ← Cbor.Shape.bytes_bytes]
  obtain ⟨stepIndex, name, kind, sha256, length, bytesInline⟩ := output
  cases kind <;> rfl

end CapturedOutput

end Cosaci.Jobs
