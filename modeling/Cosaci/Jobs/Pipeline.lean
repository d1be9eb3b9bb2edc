import Cosaci.Core.Attestation

/-!
# The pipeline language

The typed job pipelines of `cosaci-jobs`, the results of executing them, and
their canonical CBOR encodings.  Enumerations are externally tagged: a variant
without fields is its name, a variant with fields a one-entry map from its name to
the record of its fields.
-/

namespace Cosaci.Jobs

open Foundation
open Cosaci.Core (Crypto Hash)

/-! ## Steps -/

inductive Scheme where
  | http
  | https
  | tcp
  deriving DecidableEq, Repr

/-- One allowlist entry of a network policy. -/
inductive EgressTarget where
  | host (hostname : String) (port : UInt16) (scheme : Scheme)
  | cidr (cidr : String) (portRangeStart portRangeEnd : UInt16)
  deriving DecidableEq, Repr

/-- What happens to a connection that no entry allows. -/
inductive EgressDefault where
  | deny
  | audit
  deriving DecidableEq, Repr

structure NetworkPolicy where
  allow : List EgressTarget
  default : EgressDefault
  deriving DecidableEq, Repr

/-- Resource limits of one step; zero means unlimited. -/
structure Limits where
  cpuSeconds : UInt32
  memoryMb : UInt32
  wallSeconds : UInt32
  network : NetworkPolicy
  deriving DecidableEq, Repr

/-- Environment variables, sorted by name and without duplicates. -/
abbrev EnvVars :=
  { entries : List (String × String) // entries.Pairwise fun first second => first.1 < second.1 }

/-- A single pipeline step. -/
inductive Step where
  | sourceFetch (url reference : String)
  | execWasm (module argsCbor : List UInt8) (limits : Limits)
  | execNative (command : List String) (env : EnvVars) (limits : Limits)
  | captureLog (name : String)
  | captureArtifact (path name : String)
  deriving DecidableEq

/-- An ordered list of steps. -/
structure Pipeline where
  steps : List Step
  deriving DecidableEq

/-! ## Results -/

inductive LimitKind where
  | cpu
  | memory
  | wall
  | network
  deriving DecidableEq, Repr

/-- Terminal state of a step. -/
inductive StepStatus where
  | success
  | failed
  | limitExceeded (which : LimitKind)
  | notImplemented
  deriving DecidableEq, Repr

/-- Result of one step's execution. -/
structure StepOutput where
  stepIndex : UInt32
  status : StepStatus
  outputHash : Hash
  deriving DecidableEq

inductive CaptureKind where
  | stdout
  | stderr
  | artifact
  deriving DecidableEq, Repr

/-- One captured payload. -/
structure CapturedOutput where
  stepIndex : UInt32
  name : String
  kind : CaptureKind
  sha256 : Hash
  length : UInt64
  bytesInline : List UInt8
  deriving DecidableEq

/-- Output of an entire pipeline run. -/
structure PipelineResult where
  steps : List StepOutput
  finalArtifactHash : Hash
  captures : List CapturedOutput
  deriving DecidableEq

/-- The one error that executing a pipeline produces. -/
inductive PipelineError where
  | wasmRuntime (stepIndex : UInt32) (detail : String)
  deriving DecidableEq, Repr

/-! ## Canonical encodings -/

/-- A variant with fields. -/
private def tagged (name : String) (fields : List (String × List UInt8)) : List UInt8 :=
  Cbor.record [(name, Cbor.record fields)]

def Scheme.encode : Scheme → List UInt8
  | .http => Cbor.text "Http"
  | .https => Cbor.text "Https"
  | .tcp => Cbor.text "Tcp"

def EgressTarget.encode : EgressTarget → List UInt8
  | .host hostname port scheme =>
      tagged "Host" [("hostname", Cbor.text hostname), ("port", Cbor.unsigned port.toNat),
        ("scheme", scheme.encode)]
  | .cidr block portRangeStart portRangeEnd =>
      tagged "Cidr" [("cidr", Cbor.text block),
        ("port_range_start", Cbor.unsigned portRangeStart.toNat),
        ("port_range_end", Cbor.unsigned portRangeEnd.toNat)]

def EgressDefault.encode : EgressDefault → List UInt8
  | .deny => Cbor.text "Deny"
  | .audit => Cbor.text "Audit"

def NetworkPolicy.encode (policy : NetworkPolicy) : List UInt8 :=
  Cbor.record [("allow", Cbor.array (policy.allow.map EgressTarget.encode)),
    ("default", policy.default.encode)]

def Limits.encode (limits : Limits) : List UInt8 :=
  Cbor.record [("cpu_seconds", Cbor.unsigned limits.cpuSeconds.toNat),
    ("memory_mb", Cbor.unsigned limits.memoryMb.toNat),
    ("wall_seconds", Cbor.unsigned limits.wallSeconds.toNat),
    ("network", limits.network.encode)]

def Step.encode : Step → List UInt8
  | .sourceFetch url reference =>
      tagged "SourceFetch" [("url", Cbor.text url), ("reference", Cbor.text reference)]
  | .execWasm module argsCbor limits =>
      tagged "ExecWasm" [("module", Cbor.byteArray module),
        ("args_cbor", Cbor.byteArray argsCbor), ("limits", limits.encode)]
  | .execNative command env limits =>
      tagged "ExecNative" [("command", Cbor.array (command.map Cbor.text)),
        ("env", Cbor.record (env.1.map fun entry => (entry.1, Cbor.text entry.2))),
        ("limits", limits.encode)]
  | .captureLog name =>
      tagged "CaptureLog" [("name", Cbor.text name)]
  | .captureArtifact path name =>
      tagged "CaptureArtifact" [("path", Cbor.text path), ("name", Cbor.text name)]

/-- The bytes of a pipeline on the wire. -/
def canonicalEncoding (pipeline : Pipeline) : List UInt8 :=
  Cbor.record [("steps", Cbor.array (pipeline.steps.map Step.encode))]

def LimitKind.encode : LimitKind → List UInt8
  | .cpu => Cbor.text "Cpu"
  | .memory => Cbor.text "Memory"
  | .wall => Cbor.text "Wall"
  | .network => Cbor.text "Network"

def StepStatus.encode : StepStatus → List UInt8
  | .success => Cbor.text "Success"
  | .failed => Cbor.text "Failed"
  | .limitExceeded which => tagged "LimitExceeded" [("which", which.encode)]
  | .notImplemented => Cbor.text "NotImplemented"

def StepOutput.encode (output : StepOutput) : List UInt8 :=
  Cbor.record [("step_index", Cbor.unsigned output.stepIndex.toNat),
    ("status", output.status.encode),
    ("output_hash", Cbor.byteArray output.outputHash.toList)]

def CaptureKind.encode : CaptureKind → List UInt8
  | .stdout => Cbor.text "Stdout"
  | .stderr => Cbor.text "Stderr"
  | .artifact => Cbor.text "Artifact"

/-- Captured bytes travel as an array of integers. -/
def CapturedOutput.encode (output : CapturedOutput) : List UInt8 :=
  Cbor.record [("step_index", Cbor.unsigned output.stepIndex.toNat),
    ("name", Cbor.text output.name),
    ("kind", output.kind.encode),
    ("sha256", Cbor.byteArray output.sha256.toList),
    ("length", Cbor.unsigned output.length.toNat),
    ("bytes_inline", Cbor.byteArray output.bytesInline)]

/-- The digest of an encoded value. -/
def hashCanonical (crypto : Crypto) (encoded : List UInt8) : Hash :=
  crypto.sha256 encoded

end Cosaci.Jobs
