import Cosaci.Core.Attestation
import Cosaci.State.RateLimit
import Cosaci.State.Replay

/-!
# The submission gate

Tenant lookup, signature check, replay check and rate limit, in this order, for
the two wire shapes of a job submission.  The first two stages only read the
registry; the replay guard and the rate limiter are the state of the gate.
-/

namespace Cosaci.State

open Foundation
open Cosaci.Core (Crypto Hash)

/-- One tenant record. -/
structure TenantRecord where
  tenantId : TenantId
  signingFp : Hash
  rateCapacity : UInt64
  rateRefillPerSec : UInt64
  registeredAtUnixNs : UInt64
  deriving DecidableEq

/-- Tenants by identifier. -/
structure TenantRegistry where
  byId : Table TenantId TenantRecord

def TenantRegistry.get (registry : TenantRegistry) (tenantId : TenantId) :
    Option TenantRecord :=
  registry.byId.lookup tenantId

/-- Fingerprint of a signing key. -/
def fingerprint (crypto : Crypto) (pubkey : Bytes 32) : Hash :=
  crypto.sha256 pubkey.toList

/-- The signable shape of a canned job submission. -/
structure JobSubmissionPayload where
  tenantId : TenantId
  kind : String
  a : Int32
  b : Int32
  deadlineSecs : UInt32
  nonce : BitVec 128
  deriving DecidableEq

/-- The signable shape of a pipeline submission; the pipeline is opaque here. -/
structure PipelineSubmissionPayload where
  tenantId : TenantId
  pipelineCbor : List UInt8
  deadlineSecs : UInt32
  nonce : BitVec 128
  deriving DecidableEq

def canonicalBytes (payload : JobSubmissionPayload) : List UInt8 :=
  Cbor.record
    [("tenant_id", Cbor.unsigned payload.tenantId.toNat),
      ("kind", Cbor.text payload.kind),
      ("a", Cbor.signed payload.a.toInt),
      ("b", Cbor.signed payload.b.toInt),
      ("deadline_secs", Cbor.unsigned payload.deadlineSecs.toNat),
      ("nonce", Cbor.wide payload.nonce.toNat)]

def canonicalBytesPipeline (payload : PipelineSubmissionPayload) : List UInt8 :=
  Cbor.record
    [("tenant_id", Cbor.unsigned payload.tenantId.toNat),
      ("pipeline_cbor", Cbor.byteArray payload.pipelineCbor),
      ("deadline_secs", Cbor.unsigned payload.deadlineSecs.toNat),
      ("nonce", Cbor.wide payload.nonce.toNat)]

/-- Outcome of running the gate on one submission. -/
inductive AuthCheck where
  | ok
  | unknownTenant
  | badSignature
  | rateLimited
  | replayDetected
  deriving DecidableEq, Repr

/-- The replay key of a tenant's nonce: eight bytes of their joint digest. -/
def foldReplayKey (crypto : Crypto) (tenantId : TenantId) (nonce : BitVec 128) : UInt64 :=
  let digest := crypto.sha256 (littleEndian 8 tenantId.toNat ++ littleEndian 16 nonce.toNat)
  UInt64.ofNat (ofLittleEndian (digest.toList.take 8))

/-- The two stores the gate writes to. -/
structure Gate where
  rateLimiter : RateLimiter
  replayGuard : ReplayGuard

/-- The clock readings of one pass through the gate: the sweep and the check of
the replay guard, then the rate limiter. -/
structure GateReadings where
  sweepAt : UInt64
  acceptAt : UInt64
  limitAt : UInt64
  deriving DecidableEq, Repr

/-- Stages one and two: tenant lookup and signature verification. -/
def authenticate (crypto : Crypto) (registry : TenantRegistry) (tenantId : TenantId)
    (bytes : List UInt8) (pubkey : Bytes 32) (signature : Bytes 64) :
    Except AuthCheck TenantRecord :=
  match registry.get tenantId with
  | none => .error .unknownTenant
  | some tenant =>
      if fingerprint crypto pubkey ≠ tenant.signingFp then
        .error .badSignature
      else if !crypto.validKey pubkey then
        .error .badSignature
      else if !crypto.verify pubkey bytes signature then
        .error .badSignature
      else
        .ok tenant

/-- The four stages, for a submission given by its tenant, nonce and signed
bytes. -/
def passGate (crypto : Crypto) (tenantId : TenantId) (nonce : BitVec 128) (bytes : List UInt8)
    (pubkey : Bytes 32) (signature : Bytes 64) (nowNs : UInt64) (readings : GateReadings)
    (registry : TenantRegistry) (gate : Gate) : AuthCheck × Gate :=
  match authenticate crypto registry tenantId bytes pubkey signature with
  | .error verdict => (verdict, gate)
  | .ok tenant =>
      let replayKey := foldReplayKey crypto tenantId nonce
      -- The nonce is recorded here, before the rate limiter has been asked.
      let (unseen, replayGuard) :=
        gate.replayGuard.accept readings.sweepAt readings.acceptAt replayKey nowNs
      match unseen with
      | .error _ => (.replayDetected, { gate with replayGuard := replayGuard })
      | .ok () =>
          let (admitted, rateLimiter) := gate.rateLimiter.acceptWithConfig readings.limitAt
            tenantId 1 tenant.rateCapacity tenant.rateRefillPerSec
          (if admitted then .ok else .rateLimited, ⟨rateLimiter, replayGuard⟩)

def verifyAndAdmit (crypto : Crypto) (payload : JobSubmissionPayload) (pubkey : Bytes 32)
    (signature : Bytes 64) (nowNs : UInt64) (readings : GateReadings)
    (registry : TenantRegistry) (gate : Gate) : AuthCheck × Gate :=
  passGate crypto payload.tenantId payload.nonce (canonicalBytes payload) pubkey signature nowNs
    readings registry gate

def verifyAndAdmitPipeline (crypto : Crypto) (payload : PipelineSubmissionPayload)
    (pubkey : Bytes 32) (signature : Bytes 64) (nowNs : UInt64) (readings : GateReadings)
    (registry : TenantRegistry) (gate : Gate) : AuthCheck × Gate :=
  passGate crypto payload.tenantId payload.nonce (canonicalBytesPipeline payload) pubkey signature
    nowNs readings registry gate

/-! ## The gate as a machine -/

/-- A submission of either wire shape. -/
inductive Submission where
  | job (payload : JobSubmissionPayload)
  | pipeline (payload : PipelineSubmissionPayload)
  deriving DecidableEq

namespace Submission

def tenantId : Submission → TenantId
  | .job payload => payload.tenantId
  | .pipeline payload => payload.tenantId

def nonce : Submission → BitVec 128
  | .job payload => payload.nonce
  | .pipeline payload => payload.nonce

def signedBytes : Submission → List UInt8
  | .job payload => canonicalBytes payload
  | .pipeline payload => canonicalBytesPipeline payload

end Submission

/-- One call of the gate. -/
structure GateCall where
  submission : Submission
  pubkey : Bytes 32
  signature : Bytes 64
  nowNs : UInt64
  readings : GateReadings
  deriving DecidableEq

namespace Gate

variable (crypto : Crypto) (registry : TenantRegistry)

def step (gate : Gate) (call : GateCall) : AuthCheck × Gate :=
  match call.submission with
  | .job payload =>
      verifyAndAdmit crypto payload call.pubkey call.signature call.nowNs call.readings
        registry gate
  | .pipeline payload =>
      verifyAndAdmitPipeline crypto payload call.pubkey call.signature call.nowNs call.readings
        registry gate

def readings (call : GateCall) : List UInt64 :=
  [call.readings.sweepAt, call.readings.acceptAt, call.readings.limitAt]

def machine : Machine Gate GateCall AuthCheck where
  step := step crypto registry

/-- Stages one and two of a call. -/
def identify (call : GateCall) : Except AuthCheck TenantRecord :=
  authenticate crypto registry call.submission.tenantId call.submission.signedBytes call.pubkey
    call.signature

/-- The replay key of a call. -/
def replayKey (call : GateCall) : UInt64 :=
  foldReplayKey crypto call.submission.tenantId call.submission.nonce

/-- The replay guard's part of a call. -/
def checkReplay (gate : Gate) (call : GateCall) : Except AcceptError Unit × ReplayGuard :=
  gate.replayGuard.accept call.readings.sweepAt call.readings.acceptAt (replayKey crypto call)
    call.nowNs

/-- The rate limiter's part of a call. -/
def checkRate (gate : Gate) (call : GateCall) (tenant : TenantRecord) : Bool × RateLimiter :=
  gate.rateLimiter.acceptWithConfig call.readings.limitAt call.submission.tenantId 1
    tenant.rateCapacity tenant.rateRefillPerSec

/-- Both wire shapes go through the same four stages. -/
theorem step_eq (gate : Gate) (call : GateCall) :
    step crypto registry gate call =
      match identify crypto registry call with
      | .error verdict => (verdict, gate)
      | .ok tenant =>
          match (checkReplay crypto gate call).1 with
          | .error _ =>
              (.replayDetected, { gate with replayGuard := (checkReplay crypto gate call).2 })
          | .ok () =>
              (if (checkRate gate call tenant).1 then .ok else .rateLimited,
                ⟨(checkRate gate call tenant).2, (checkReplay crypto gate call).2⟩) := by
  unfold step
  cases shape : call.submission with
  | job payload =>
      simp only [verifyAndAdmit, passGate, identify, checkReplay, replayKey, checkRate, shape,
        Submission.tenantId, Submission.nonce, Submission.signedBytes]
  | pipeline payload =>
      simp only [verifyAndAdmitPipeline, passGate, identify, checkReplay, replayKey, checkRate,
        shape, Submission.tenantId, Submission.nonce, Submission.signedBytes]

/-- The call is authentic and its nonce is new, but the tenant's bucket has no
token left: it will be turned away by the last stage. -/
def TurnedAway (gate : Gate) (call : GateCall) : Prop :=
  ∃ tenant, identify crypto registry call = .ok tenant ∧
    absDiff call.readings.acceptAt call.nowNs ≤ gate.replayGuard.ttlNs ∧
    (gate.replayGuard.sweep call.readings.sweepAt).accepted.lookup
      (replayKey crypto call) = none ∧
    (((gate.rateLimiter.buckets.lookup call.submission.tenantId).getD
      (.new tenant.rateCapacity tenant.rateRefillPerSec call.readings.limitAt)).refill
        call.readings.limitAt).tokens = 0

variable {crypto registry}

variable {call : GateCall} {gate : Gate} {tenant : TenantRecord}

theorem checkRate_eq_false_iff :
    (checkRate gate call tenant).1 = false ↔
      (((gate.rateLimiter.buckets.lookup call.submission.tenantId).getD
        (.new tenant.rateCapacity tenant.rateRefillPerSec call.readings.limitAt)).refill
          call.readings.limitAt).tokens = 0 := by
  simp only [checkRate, RateLimiter.acceptWithConfig, TokenBucket.tryConsume,
    TokenBucket.consume]
  split
  · next affordable =>
      simp only [Bool.true_eq_false, false_iff]
      intro empty
      rw [empty] at affordable
      exact absurd affordable (by decide)
  · next poor =>
      simp only [true_iff]
      apply UInt64.toNat_inj.mp
      rw [UInt64.le_iff_toNat_le, UInt64.toNat_one] at poor
      rw [UInt64.toNat_zero]
      omega

/-- A call that is turned away has gone through the replay check first. -/
theorem TurnedAway.step (turned : TurnedAway crypto registry gate call) :
    ∃ tenant, identify crypto registry call = .ok tenant ∧
      (checkReplay crypto gate call).1 = .ok () ∧
      Gate.step crypto registry gate call =
        (.rateLimited, ⟨(checkRate gate call tenant).2, (checkReplay crypto gate call).2⟩) := by
  rcases turned with ⟨tenant, known, fresh, unseen, empty⟩
  have accepted : (checkReplay crypto gate call).1 = .ok () :=
    ReplayGuard.accept_eq_ok_iff.mpr ⟨fresh, unseen⟩
  refine ⟨tenant, known, accepted, ?_⟩
  simp only [step_eq, known, accepted, checkRate_eq_false_iff.mpr empty, Bool.false_eq_true,
    ↓reduceIte]

/-- An authentic call whose nonce is unknown and that finds a token is admitted exactly when
the guard reads the clock within a window of the time of the call. -/
theorem step_eq_ok_iff (known : identify crypto registry call = .ok tenant)
    (unseen : (gate.replayGuard.sweep call.readings.sweepAt).accepted.lookup
      (replayKey crypto call) = none)
    (token : (((gate.rateLimiter.buckets.lookup call.submission.tenantId).getD
      (.new tenant.rateCapacity tenant.rateRefillPerSec call.readings.limitAt)).refill
        call.readings.limitAt).tokens ≠ 0) :
    (step crypto registry gate call).1 = .ok ↔
      absDiff call.readings.acceptAt call.nowNs ≤ gate.replayGuard.ttlNs := by
  have accepted : (checkReplay crypto gate call).1 = .ok () ↔
      absDiff call.readings.acceptAt call.nowNs ≤ gate.replayGuard.ttlNs :=
    ReplayGuard.accept_eq_ok_iff.trans (and_iff_left unseen)
  have admitted : (checkRate gate call tenant).1 = true := by
    rw [← Bool.not_eq_false, checkRate_eq_false_iff]
    exact token
  rw [← accepted, step_eq]
  cases replayed : (checkReplay crypto gate call).1 with
  | error reason => simp [known]
  | ok value => simp [known, admitted]

/-- A rejection by an earlier stage leaves the rate limiter alone and at most
sweeps the replay guard. -/
theorem step_of_not_turnedAway (rejected : (step crypto registry gate call).1 ≠ .ok)
    (stays : ¬TurnedAway crypto registry gate call) :
    (step crypto registry gate call).2 = gate ∨
      (step crypto registry gate call).2 =
        { gate with replayGuard := gate.replayGuard.sweep call.readings.sweepAt } := by
  rw [step_eq] at rejected ⊢
  cases identified : identify crypto registry call with
  | error verdict => exact Or.inl rfl
  | ok tenant =>
      rw [identified] at rejected
      cases replayed : (checkReplay crypto gate call).1 with
      | error reason =>
          right
          have guard : (checkReplay crypto gate call).2 =
              gate.replayGuard.sweep call.readings.sweepAt := by
            apply ReplayGuard.accept_rejected
            change (checkReplay crypto gate call).1 ≠ .ok ()
            rw [replayed]
            nofun
          simp only [guard]
      | ok value =>
          simp only [replayed] at rejected
          have empty : (checkRate gate call tenant).1 = false := by
            cases admitted : (checkRate gate call tenant).1 with
            | false => rfl
            | true => exact absurd (by simp [admitted]) rejected
          rcases ReplayGuard.accept_eq_ok_iff.mp replayed with ⟨fresh, unseen⟩
          exact False.elim
            (stays ⟨tenant, identified, fresh, unseen, checkRate_eq_false_iff.mp empty⟩)

/-- Gates with the same buckets whose replay guards agree on the open window. -/
structure Alike (start : UInt64) (left right : Gate) : Prop where
  rateLimiter : left.rateLimiter = right.rateLimiter
  replayGuard : ReplayGuard.Alike start left.replayGuard right.replayGuard

/-- Gates that are alike answer alike and stay alike. -/
theorem Alike.step {start : UInt64} {left right : Gate} (alike : Alike start left right)
    (ordered : (start :: readings call).Pairwise (· ≤ ·)) :
    (Gate.step crypto registry left call).1 = (Gate.step crypto registry right call).1 ∧
      Alike call.readings.limitAt (Gate.step crypto registry left call).2
        (Gate.step crypto registry right call).2 := by
  simp only [readings, List.pairwise_cons, List.mem_cons, forall_eq_or_imp, List.not_mem_nil,
    false_imp_iff, implies_true, and_true] at ordered
  rcases ordered with ⟨⟨sweeps, _, passes⟩, _, limits, _⟩
  obtain ⟨verdict, guards⟩ := alike.replayGuard.accept sweeps call.readings.acceptAt
    (replayKey crypto call) call.nowNs
  have rate : ∀ tenant, checkRate left call tenant = checkRate right call tenant := by
    intro tenant
    rw [checkRate, checkRate, alike.rateLimiter]
  rw [step_eq, step_eq]
  cases identify crypto registry call with
  | error verdict => exact ⟨rfl, alike.rateLimiter, alike.replayGuard.later passes⟩
  | ok tenant =>
      have same : (checkReplay crypto left call).1 = (checkReplay crypto right call).1 := verdict
      simp only [same, rate tenant]
      cases (checkReplay crypto right call).1 with
      | error reason => exact ⟨rfl, alike.rateLimiter, guards.later limits⟩
      | ok value => exact ⟨rfl, rfl, guards.later limits⟩

/-- No run of later calls can tell the two gates apart. -/
def Indistinguishable (crypto : Crypto) (registry : TenantRegistry) (start : UInt64)
    (left right : Gate) : Prop :=
  ∀ later, Machine.Monotone readings start later →
    (machine crypto registry).run left later = (machine crypto registry).run right later

theorem Alike.indistinguishable {start : UInt64} {left right : Gate}
    (alike : Alike start left right) :
    Indistinguishable crypto registry start left right := by
  intro later monotone
  apply (machine crypto registry).run_eq_of_related readings Alike ?_ monotone alike
  intro start call left right ordered alike
  exact alike.step ordered

/-- The same signed submission, sent again when the clock reads `time`. -/
def retry (call : GateCall) (time : UInt64) : GateCall :=
  { call with nowNs := time, readings := ⟨time, time, time⟩ }

/-- Whether a retry is taken for a replay depends on the replay guard alone. -/
private theorem step_retry_replayDetected (known : identify crypto registry call = .ok tenant)
    (time : UInt64) :
    (step crypto registry gate (retry call time)).1 = .replayDetected ↔
      (gate.replayGuard.sweep time).accepted.lookup (replayKey crypto call) ≠ none := by
  have again : identify crypto registry (retry call time) = .ok tenant := known
  have fresh : absDiff time time ≤ gate.replayGuard.ttlNs := by
    rw [UInt64.le_iff_toNat_le, toNat_absDiff]
    omega
  have unseen : (checkReplay crypto gate (retry call time)).1 = .ok () ↔
      (gate.replayGuard.sweep time).accepted.lookup (replayKey crypto call) = none := by
    rw [checkReplay, ReplayGuard.accept_eq_ok_iff]
    exact ⟨And.right, fun absent => ⟨fresh, absent⟩⟩
  rw [Ne, ← unseen, step_eq, again]
  cases (checkReplay crypto gate (retry call time)).1 with
  | error reason => simp
  | ok value =>
      simp only [not_true_eq_false, iff_false]
      split <;> nofun

/-- A call that is turned away while its window is open spoils its own retry. -/
theorem TurnedAway.distinguishable (turned : TurnedAway crypto registry gate call)
    (ordered : (readings call).Pairwise (· ≤ ·))
    (windowOpen : ReplayGuard.inWindow gate.replayGuard.ttlNs call.readings.limitAt
      call.readings.acceptAt = true) :
    ¬Indistinguishable crypto registry call.readings.limitAt
      (Gate.step crypto registry gate call).2 gate := by
  rcases turned.step with ⟨tenant, known, accepted, stepped⟩
  intro same
  have retried := same [retry call call.readings.limitAt] (by
    simp [Machine.Monotone, readings, retry])
  simp only [Machine.run, machine, List.cons.injEq, and_true, stepped] at retried
  have recorded : (Gate.step crypto registry ⟨(checkRate gate call tenant).2,
      (checkReplay crypto gate call).2⟩ (retry call call.readings.limitAt)).1 =
        .replayDetected := by
    rw [step_retry_replayDetected known]
    have stored : (checkReplay crypto gate call).2.accepted.lookup (replayKey crypto call) =
        some call.readings.acceptAt := ReplayGuard.lookup_accepted accepted
    have window : (checkReplay crypto gate call).2.ttlNs = gate.replayGuard.ttlNs :=
      ReplayGuard.ttlNs_accept _ _ _ _ _
    rw [ReplayGuard.lookup_sweep, stored, window]
    simp [windowOpen]
  rw [recorded, eq_comm, step_retry_replayDetected known] at retried
  simp only [readings, List.pairwise_cons, List.mem_cons, forall_eq_or_imp] at ordered
  have unseen := (ReplayGuard.accept_eq_ok_iff.mp accepted).2
  rw [← ReplayGuard.lookup_sweep_sweep _ _ ordered.1.2.1, ReplayGuard.lookup_sweep,
    unseen] at retried
  exact retried rfl

/-- A rejected call is invisible to every later run unless it was turned away by
the rate limiter; in that case, as long as the replay window has not closed in
between, its own retry gets another verdict. -/
theorem rejected_call_invisible (crypto : Crypto) (registry : TenantRegistry) (gate : Gate)
    (call : GateCall) (ordered : (readings call).Pairwise (· ≤ ·))
    (rejected : (step crypto registry gate call).1 ≠ .ok) :
    (¬TurnedAway crypto registry gate call →
        Indistinguishable crypto registry call.readings.limitAt
          (step crypto registry gate call).2 gate) ∧
      (TurnedAway crypto registry gate call →
        ReplayGuard.inWindow gate.replayGuard.ttlNs call.readings.limitAt
          call.readings.acceptAt = true →
        ¬Indistinguishable crypto registry call.readings.limitAt
          (step crypto registry gate call).2 gate) := by
  refine ⟨?_, fun turned => turned.distinguishable ordered⟩
  intro stays
  simp only [readings, List.pairwise_cons, List.mem_cons, forall_eq_or_imp] at ordered
  apply Alike.indistinguishable
  rcases step_of_not_turnedAway rejected stays with unchanged | swept
  · rw [unchanged]
    exact ⟨rfl, .refl _ _⟩
  · rw [swept]
    exact ⟨rfl, (ReplayGuard.alike_sweep _ _).later ordered.1.2.1⟩

def soleTenantKey : Bytes 32 := List.Vector.replicate 32 7

/-- A registry with one tenant, whose bucket holds a single token. -/
def soleTenantRegistry : TenantRegistry where
  byId := Table.collect [(1, ⟨1, Core.modelHash soleTenantKey.toList, 1, 1, 0⟩)]

/-- A correctly signed submission of that tenant, sent at `time`. -/
def soleTenantCall (nonce : BitVec 128) (time : UInt64) : GateCall :=
  let payload : JobSubmissionPayload := ⟨1, "add", 2, 3, 60, nonce⟩
  { submission := .job payload
    pubkey := soleTenantKey
    signature := Core.modelSignature soleTenantKey (canonicalBytes payload)
    nowNs := time
    readings := ⟨time, time, time⟩ }

/-- A fresh gate with a replay window of one minute. -/
def freshGate : Gate where
  rateLimiter := .new 10 1
  replayGuard := .new 60000000000

theorem rejected_call_invisible_replay :
    Indistinguishable Core.modelCrypto soleTenantRegistry 1000000000
      (step Core.modelCrypto soleTenantRegistry
        (step Core.modelCrypto soleTenantRegistry freshGate (soleTenantCall 5 0)).2
        (soleTenantCall 5 1000000000)).2
      (step Core.modelCrypto soleTenantRegistry freshGate (soleTenantCall 5 0)).2 := by
  refine (rejected_call_invisible Core.modelCrypto soleTenantRegistry
    (step Core.modelCrypto soleTenantRegistry freshGate (soleTenantCall 5 0)).2
    (soleTenantCall 5 1000000000) (by decide) (by decide +kernel)).1 ?_
  intro turned
  rcases turned.step with ⟨_, _, accepted, _⟩
  revert accepted
  decide +kernel

/-- The second submission is turned away for want of a token; its retry two
seconds later is reported as a replay, while without the first attempt it would
have been admitted. -/
theorem turnedAway_retry_replayDetected :
    Machine.Monotone readings 0
        [soleTenantCall 5 0, soleTenantCall 6 0, soleTenantCall 6 2000000000] ∧
      (machine Core.modelCrypto soleTenantRegistry).run freshGate
        [soleTenantCall 5 0, soleTenantCall 6 0, soleTenantCall 6 2000000000] =
          [.ok, .rateLimited, .replayDetected] ∧
      (machine Core.modelCrypto soleTenantRegistry).run freshGate
        [soleTenantCall 5 0, soleTenantCall 6 2000000000] = [.ok, .ok] := by
  decide +kernel

end Gate

end Cosaci.State
