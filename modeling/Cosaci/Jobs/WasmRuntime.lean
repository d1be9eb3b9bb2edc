import Cosaci.Foundation.TextSearch
import Cosaci.Jobs.Execute

/-!
# Limits of a WASM call

`execute_with_limits` of `cosaci-wasm`.  The fuel, the epoch deadline and the memory limiter
are armed before the module is instantiated, and guest code may run and memory may be
allocated both there and in the exported call.  But only the errors of the call are
classified; an error of the instantiation is passed on as a text, whatever its cause.
-/

namespace Cosaci.Jobs

open Foundation
open Cosaci.Core (Crypto Hash)

/-! ## The engine -/

/-- The traps that are told apart. -/
inductive Trap where
  | outOfFuel
  | interrupt
  | other
  deriving DecidableEq, Repr

/-- An error of the engine: the trap it stands for, if any, its text, and its text together
with those of all its causes. -/
structure RunError where
  trap : Option Trap
  text : String
  chain : String
  deriving DecidableEq

/-- The text by which the limiter's errors are recognised. -/
def capSentinel : String := "cosaci-wasm memory cap exceeded"

/-- The limiter of a store: a memory may not grow beyond the cap; zero means no cap. -/
def memoryGrowing (maxBytes desired : UInt64) : Except String Unit :=
  if 0 < maxBytes ∧ maxBytes < desired then
    .error (capSentinel ++ (": requested " ++ Nat.repr desired.toNat ++ " > cap " ++
      Nat.repr maxBytes.toNat))
  else
    .ok ()

/-- The error for a growth that the limiter refuses. -/
def refusal (maxBytes desired : UInt64) : Option String :=
  match memoryGrowing maxBytes desired with
  | .error message => some message
  | .ok () => none

/-- What happens in a phase in which memory is allocated and guest code runs. -/
structure PhaseRun (α : Type) where
  /-- The memory sizes that the limiter is asked for, in order. -/
  growths : List UInt64
  /-- How the phase ends when all of them are granted. -/
  outcome : Except RunError α
  /-- The texts of an error that the limiter causes. -/
  wrap : String → String × String
  /-- The chain of an error contains the text of its cause. -/
  caused : ∀ message, message.toList <:+: (wrap message).2.toList

/-- A phase under a memory cap; the first refusal ends it. -/
def PhaseRun.run {α : Type} (maxBytes : UInt64) (phase : PhaseRun α) : Except RunError α :=
  match phase.growths.findSome? (refusal maxBytes) with
  | some message => .error ⟨none, (phase.wrap message).1, (phase.wrap message).2⟩
  | none => phase.outcome

/-- The switches of the engine. -/
structure EngineConfig where
  consumeFuel : Bool
  epochInterruption : Bool
  deriving DecidableEq, Repr

/-- The libraries: the decoder of the arguments and the phases of wasmtime. -/
structure Runtime where
  decodeArgs : List UInt8 → Except String (Int32 × Int32)
  engine : EngineConfig → Except String Unit
  compile : EngineConfig → List UInt8 → Except String Unit
  setFuel : UInt64 → Except String Unit
  instantiate : ExecLimits → List UInt8 → PhaseRun Unit
  typedFunc : List UInt8 → Except String Unit
  call : ExecLimits → List UInt8 → Int32 → Int32 → PhaseRun Int32

def ExecLimits.config (limits : ExecLimits) : EngineConfig where
  consumeFuel := decide (0 < limits.fuel)
  epochInterruption := decide (limits.wallSeconds ≠ 0)

/-! ## A call under limits -/

/-- The outcome of a failed call. -/
def classify (error : RunError) : Except String ExecOutcome :=
  match error.trap with
  | some .outOfFuel => .ok (.limitExceeded .cpu)
  | some .interrupt => .ok (.limitExceeded .wall)
  | _ =>
      if containsText capSentinel.toList error.chain.toList then
        .ok (.limitExceeded .memory)
      else
        .error ("call: " ++ error.chain)

def executeWithLimits (runtime : Runtime) (wasm argsCbor : List UInt8) (limits : ExecLimits) :
    Except String ExecOutcome :=
  match runtime.decodeArgs argsCbor with
  | .error error => .error ("cbor decode args: " ++ error)
  | .ok (a, b) =>
      match runtime.engine limits.config with
      | .error error => .error ("engine: " ++ error)
      | .ok () =>
          match runtime.compile limits.config wasm with
          | .error error => .error ("module: " ++ error)
          | .ok () =>
              match (if 0 < limits.fuel then runtime.setFuel limits.fuel else .ok ()) with
              | .error error => .error ("set_fuel: " ++ error)
              | .ok () =>
                  match (runtime.instantiate limits wasm).run limits.memoryBytes with
                  | .error error => .error ("instance: " ++ error.text)
                  | .ok () =>
                      match runtime.typedFunc wasm with
                      | .error error => .error ("get_typed_func add: " ++ error)
                      | .ok () =>
                          match (runtime.call limits wasm a b).run limits.memoryBytes with
                          | .ok value => .ok (.ok value)
                          | .error error => classify error

/-! ## Raised limits -/

inductive GuestPhase where
  | instantiation
  | call
  deriving DecidableEq, Repr

/-- A limit error is raised in a phase. -/
def PhaseRun.Raises {α : Type} (maxBytes : UInt64) (phase : PhaseRun α) :
    ExecLimitKind → Prop
  | .memory => ∃ desired ∈ phase.growths, refusal maxBytes desired ≠ none
  | .cpu => (∀ desired ∈ phase.growths, refusal maxBytes desired = none) ∧
      ∃ error, phase.outcome = .error error ∧ error.trap = some .outOfFuel
  | .wall => (∀ desired ∈ phase.growths, refusal maxBytes desired = none) ∧
      ∃ error, phase.outcome = .error error ∧ error.trap = some .interrupt

/-- Everything before the instantiation succeeds. -/
structure Prepared (runtime : Runtime) (wasm argsCbor : List UInt8) (limits : ExecLimits)
    (a b : Int32) : Prop where
  decoded : runtime.decodeArgs argsCbor = .ok (a, b)
  engine : runtime.engine limits.config = .ok ()
  compiled : runtime.compile limits.config wasm = .ok ()
  fuelled : (if 0 < limits.fuel then runtime.setFuel limits.fuel else .ok ()) = .ok ()

/-- A limit error is raised while a module is executed. -/
inductive Raised (runtime : Runtime) (wasm argsCbor : List UInt8) (limits : ExecLimits) :
    GuestPhase → ExecLimitKind → Prop
  | instantiation {a b : Int32} {kind : ExecLimitKind}
      (prepared : Prepared runtime wasm argsCbor limits a b)
      (raises : (runtime.instantiate limits wasm).Raises limits.memoryBytes kind) :
      Raised runtime wasm argsCbor limits .instantiation kind
  | call {a b : Int32} {kind : ExecLimitKind}
      (prepared : Prepared runtime wasm argsCbor limits a b)
      (instantiated : (runtime.instantiate limits wasm).run limits.memoryBytes = .ok ())
      (exported : runtime.typedFunc wasm = .ok ())
      (raises : (runtime.call limits wasm a b).Raises limits.memoryBytes kind) :
      Raised runtime wasm argsCbor limits .call kind

section

variable {runtime : Runtime} {wasm argsCbor : List UInt8} {limits : ExecLimits} {a b : Int32}
  {kind : ExecLimitKind}

theorem capSentinel_of_refusal {maxBytes desired : UInt64} {message : String}
    (refused : refusal maxBytes desired = some message) :
    capSentinel.toList <:+: message.toList := by
  unfold refusal memoryGrowing at refused
  split at refused
  · next raised =>
      split at raised
      · cases raised
        cases refused
        rw [String.toList_append]
        exact (List.prefix_append _ _).isInfix
      · cases raised
  · cases refused

/-- A phase in which a limit is raised ends with an error that would be classified as this
limit. -/
theorem PhaseRun.Raises.run {α : Type} {maxBytes : UInt64} {phase : PhaseRun α}
    (raises : phase.Raises maxBytes kind) :
    ∃ error, phase.run maxBytes = .error error ∧
      classify error = .ok (.limitExceeded kind) := by
  have granted (all : ∀ desired ∈ phase.growths, refusal maxBytes desired = none) :
      phase.run maxBytes = phase.outcome := by
    rw [PhaseRun.run, List.findSome?_eq_none_iff.mpr all]
  cases kind with
  | cpu =>
      obtain ⟨all, error, ended, trap⟩ := raises
      exact ⟨error, (granted all).trans ended, by rw [classify, trap]⟩
  | wall =>
      obtain ⟨all, error, ended, trap⟩ := raises
      exact ⟨error, (granted all).trans ended, by rw [classify, trap]⟩
  | memory =>
      obtain ⟨desired, asked, refused⟩ := raises
      cases found : phase.growths.findSome? (refusal maxBytes) with
      | none => exact absurd (List.findSome?_eq_none_iff.mp found desired asked) refused
      | some message =>
          obtain ⟨other, -, refusal⟩ := List.exists_of_findSome?_eq_some found
          have inside := (capSentinel_of_refusal refusal).trans (phase.caused message)
          refine ⟨_, by rw [PhaseRun.run, found], ?_⟩
          simp only [classify, containsText_iff.mpr inside, if_true]

theorem Prepared.executeWithLimits (prepared : Prepared runtime wasm argsCbor limits a b) :
    executeWithLimits runtime wasm argsCbor limits =
      match (runtime.instantiate limits wasm).run limits.memoryBytes with
      | .error error => .error ("instance: " ++ error.text)
      | .ok () =>
          match runtime.typedFunc wasm with
          | .error error => .error ("get_typed_func add: " ++ error)
          | .ok () =>
              match (runtime.call limits wasm a b).run limits.memoryBytes with
              | .ok value => .ok (.ok value)
              | .error error => classify error := by
  unfold Jobs.executeWithLimits
  simp only [prepared.decoded, prepared.engine, prepared.compiled, prepared.fuelled]

/-- A limit that is raised in the call is reported. -/
theorem executeWithLimits_of_call (raised : Raised runtime wasm argsCbor limits .call kind) :
    executeWithLimits runtime wasm argsCbor limits = .ok (.limitExceeded kind) := by
  cases raised with
  | call prepared instantiated exported raises =>
      obtain ⟨error, ended, classified⟩ := raises.run
      rw [prepared.executeWithLimits]
      simp only [instantiated, exported, ended, classified]

/-- A limit that is raised at the instantiation becomes an error. -/
theorem executeWithLimits_of_instantiation
    (raised : Raised runtime wasm argsCbor limits .instantiation kind) :
    ∃ text, executeWithLimits runtime wasm argsCbor limits = .error ("instance: " ++ text) := by
  cases raised with
  | instantiation prepared raises =>
      obtain ⟨error, ended, -⟩ := raises.run
      refine ⟨error.text, ?_⟩
      rw [prepared.executeWithLimits]
      simp only [ended]

end

/-- A raised limit is reported as one, by the runtime and by the step, exactly when it was
raised in the exported call; otherwise the pipeline is aborted. -/
theorem limits_reported_iff (runtime : Runtime) (module argsCbor : List UInt8) :
    (∀ limits phase kind, Raised runtime module argsCbor limits phase kind →
      (executeWithLimits runtime module argsCbor limits = .ok (.limitExceeded kind) ↔
        phase = .call)) ∧
      ∀ (crypto : Crypto) (world : World) (index : Nat) (limits : Limits) (step : Step) phase
        kind, Raised runtime module argsCbor (execLimits limits) phase kind →
        world.execWasm index = executeWithLimits runtime →
        ((∃ output, executeWasmStep crypto world index module argsCbor limits step = .ok output ∧
            output.status = .limitExceeded kind.toLimitKind) ↔ phase = .call) ∧
          ((∃ error, executeWasmStep crypto world index module argsCbor limits step =
            .error error) ↔ phase = .instantiation) := by
  constructor
  · intro limits phase kind raised
    cases phase with
    | call => exact iff_of_true (executeWithLimits_of_call raised) rfl
    | instantiation =>
        obtain ⟨text, failed⟩ := executeWithLimits_of_instantiation raised
        rw [failed]
        exact iff_of_false (by simp) (by simp)
  · intro crypto world index limits step phase kind raised installed
    unfold executeWasmStep
    rw [installed]
    cases phase with
    | call =>
        rw [executeWithLimits_of_call raised]
        exact ⟨iff_of_true ⟨_, rfl, rfl⟩ rfl, iff_of_false (by simp) (by simp)⟩
    | instantiation =>
        obtain ⟨text, failed⟩ := executeWithLimits_of_instantiation raised
        rw [failed]
        exact ⟨iff_of_false (by simp) (by simp), iff_of_true ⟨_, rfl⟩ rfl⟩

/-- A phase that asks for memory and then ends as given. -/
def plainPhase {α : Type} (growths : List UInt64) (outcome : Except RunError α) :
    PhaseRun α where
  growths := growths
  outcome := outcome
  wrap message := (message, message)
  caused _ := List.infix_rfl

def fuelError : RunError :=
  ⟨some .outOfFuel, "all fuel consumed by WebAssembly", "all fuel consumed by WebAssembly"⟩

/-- A runtime whose module does as given when it is instantiated, and spins when it is
called. -/
def spinningRuntime (growths : List UInt64) (start : Except RunError Unit) : Runtime where
  decodeArgs _ := .ok (2, 3)
  engine _ := .ok ()
  compile _ _ := .ok ()
  setFuel _ := .ok ()
  instantiate _ _ := plainPhase growths start
  typedFunc _ := .ok ()
  call _ _ _ _ := plainPhase [] (.error fuelError)

def spinningWorld (runtime : Runtime) : World where
  sourceFetch _ _ _ := .error .io
  execWasm _ := executeWithLimits runtime
  execNative _ _ _ _ := .killedByWall

/-- A second of CPU time and a mebibyte of memory. -/
def tightLimits : Limits := ⟨1, 1, 0, ⟨[], .deny⟩⟩

def spinningStep : Step := .execWasm [0] [] tightLimits

private theorem prepared_spinning (growths : List UInt64) (start : Except RunError Unit) :
    Prepared (spinningRuntime growths start) [0] [] (execLimits tightLimits) 2 3 :=
  ⟨rfl, rfl, rfl, rfl⟩

theorem limits_reported_iff_spinning :
    Raised (spinningRuntime [65536] (.ok ())) [0] [] (execLimits tightLimits) .call .cpu ∧
      executeWithLimits (spinningRuntime [65536] (.ok ())) [0] [] (execLimits tightLimits) =
        .ok (.limitExceeded .cpu) := by
  have raised : Raised (spinningRuntime [65536] (.ok ())) [0] [] (execLimits tightLimits) .call
      .cpu :=
    .call (prepared_spinning _ _) (by decide +kernel) rfl ⟨nofun, fuelError, rfl, rfl⟩
  exact ⟨raised, ((limits_reported_iff (spinningRuntime [65536] (.ok ())) [0] []).1 _ _ _
    raised).mpr rfl⟩

/-- A start function that uses up the fuel, and an initial memory beyond the cap: both abort
the pipeline. -/
theorem limits_lost_at_instantiation :
    (Raised (spinningRuntime [] (.error fuelError)) [0] [] (execLimits tightLimits)
        .instantiation .cpu ∧
      executeWithLimits (spinningRuntime [] (.error fuelError)) [0] [] (execLimits tightLimits) =
        .error "instance: all fuel consumed by WebAssembly" ∧
      executeWasmStep Core.modelCrypto
          (spinningWorld (spinningRuntime [] (.error fuelError))) 0 [0] [] tightLimits
          spinningStep =
        .error (.wasmRuntime 0 "instance: all fuel consumed by WebAssembly")) ∧
      Raised (spinningRuntime [2097152] (.ok ())) [0] [] (execLimits tightLimits) .instantiation
        .memory ∧
      executeWasmStep Core.modelCrypto (spinningWorld (spinningRuntime [2097152] (.ok ()))) 0
          [0] [] tightLimits spinningStep =
        .error (.wasmRuntime 0
          "instance: cosaci-wasm memory cap exceeded: requested 2097152 > cap 1048576") := by
  refine ⟨⟨?_, by decide +kernel, by decide +kernel⟩, ?_, by decide +kernel⟩
  · exact .instantiation (prepared_spinning _ _) ⟨nofun, fuelError, rfl, rfl⟩
  · exact .instantiation (prepared_spinning _ _)
      ⟨2097152, List.mem_singleton_self _, by decide +kernel⟩

end Cosaci.Jobs
