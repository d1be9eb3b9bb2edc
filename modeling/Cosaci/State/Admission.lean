import Cosaci.State.SubmissionAuth

/-!
# What the gate guarantees over whole runs

Submissions of both wire shapes and of all tenants go through one replay guard and
one rate limiter.  Over every run under a monotone clock, a nonce is admitted at
most once per window, every admission costs exactly one token, and a tenant cannot
tell whether other tenants use the gate.
-/

namespace Cosaci.State

open Foundation
open Cosaci.Core (Crypto)

namespace Gate

/-! ## One call -/

/-- The stage that decides a call, with the verdict and the state it leaves. -/
inductive Decided (crypto : Crypto) (registry : TenantRegistry) (gate : Gate)
    (call : GateCall) : AuthCheck → Gate → Prop
  | refused {verdict : AuthCheck} (unknown : identify crypto registry call = .error verdict)
      (rejected : verdict ≠ .ok) : Decided crypto registry gate call verdict gate
  | replayed {tenant : TenantRecord} (known : identify crypto registry call = .ok tenant)
      (seen : (checkReplay crypto gate call).1 ≠ .ok ()) :
      Decided crypto registry gate call .replayDetected
        { gate with replayGuard := (checkReplay crypto gate call).2 }
  | limited {tenant : TenantRecord} (known : identify crypto registry call = .ok tenant)
      (unseen : (checkReplay crypto gate call).1 = .ok ())
      (poor : (checkRate gate call tenant).1 = false) :
      Decided crypto registry gate call .rateLimited
        ⟨(checkRate gate call tenant).2, (checkReplay crypto gate call).2⟩
  | admitted {tenant : TenantRecord} (known : identify crypto registry call = .ok tenant)
      (unseen : (checkReplay crypto gate call).1 = .ok ())
      (paid : (checkRate gate call tenant).1 = true) :
      Decided crypto registry gate call .ok
        ⟨(checkRate gate call tenant).2, (checkReplay crypto gate call).2⟩

variable {crypto : Crypto} {registry : TenantRegistry}

/-- The first two stages have two verdicts of their own. -/
theorem identify_error {call : GateCall} {verdict : AuthCheck}
    (refused : identify crypto registry call = .error verdict) :
    verdict = .unknownTenant ∨ verdict = .badSignature := by
  unfold identify authenticate at refused
  split at refused
  · cases refused
    exact Or.inl rfl
  · right
    split at refused
    · cases refused
      rfl
    split at refused
    · cases refused
      rfl
    split at refused
    · cases refused
      rfl
    · cases refused

theorem identify_ne_error_ok (call : GateCall) :
    identify crypto registry call ≠ .error .ok := by
  intro refused
  rcases identify_error refused with wrong | wrong <;> cases wrong

theorem decided_step (gate : Gate) (call : GateCall) :
    Decided crypto registry gate call (step crypto registry gate call).1
      (step crypto registry gate call).2 := by
  rw [step_eq]
  cases identified : identify crypto registry call with
  | error verdict =>
      refine .refused identified ?_
      rintro rfl
      exact identify_ne_error_ok call identified
  | ok tenant =>
      cases replayed : (checkReplay crypto gate call).1 with
      | error reason =>
          refine .replayed identified ?_
          rw [replayed]
          simp
      | ok value =>
          cases paid : (checkRate gate call tenant).1 with
          | false =>
              simp only [paid, Bool.false_eq_true, ↓reduceIte]
              exact .limited identified replayed paid
          | true =>
              simp only [paid, ↓reduceIte]
              exact .admitted identified replayed paid

theorem ordered_iff {start : UInt64} {call : GateCall} :
    (start :: readings call).Pairwise (· ≤ ·) ↔
      start ≤ call.readings.sweepAt ∧ call.readings.sweepAt ≤ call.readings.acceptAt ∧
        call.readings.acceptAt ≤ call.readings.limitAt := by
  simp only [readings, List.pairwise_cons, List.mem_cons, forall_eq_or_imp, List.not_mem_nil,
    false_imp_iff, implies_true, and_true, List.Pairwise.nil]
  constructor
  · rintro ⟨⟨sweeps, _, _⟩, ⟨accepts, _⟩, limits⟩
    exact ⟨sweeps, accepts, limits⟩
  · rintro ⟨sweeps, accepts, limits⟩
    have before := UInt64.le_trans sweeps accepts
    exact ⟨⟨sweeps, before, UInt64.le_trans before limits⟩,
      ⟨accepts, UInt64.le_trans accepts limits⟩, limits⟩

/-! ## What a call consumes -/

/-- The call gets as far as the replay guard, which accepts its nonce and records it. -/
def Records (crypto : Crypto) (registry : TenantRegistry) (gate : Gate) (call : GateCall) :
    Prop :=
  ∃ tenant, identify crypto registry call = .ok tenant ∧ (checkReplay crypto gate call).1 = .ok ()

section

variable {gate next : Gate} {call : GateCall} {verdict : AuthCheck}

/-- A nonce is recorded also for a call that the rate limiter turns away. -/
theorem Decided.records_iff (decided : Decided crypto registry gate call verdict next) :
    Records crypto registry gate call ↔ verdict = .ok ∨ verdict = .rateLimited := by
  cases decided with
  | refused unknown rejected =>
      constructor
      · rintro ⟨tenant, known, -⟩
        rw [unknown] at known
        cases known
      · intro either
        rcases identify_error unknown with rfl | rfl <;> simp at either
  | replayed known seen =>
      constructor
      · rintro ⟨_, -, unseen⟩
        exact False.elim (seen unseen)
      · intro either
        simp at either
  | limited known unseen poor => exact ⟨fun _ => Or.inr rfl, fun _ => ⟨_, known, unseen⟩⟩
  | admitted known unseen paid => exact ⟨fun _ => Or.inl rfl, fun _ => ⟨_, known, unseen⟩⟩

theorem Decided.turnedAway_of_rateLimited
    (decided : Decided crypto registry gate call .rateLimited next) :
    TurnedAway crypto registry gate call := by
  cases decided with
  | refused unknown rejected => rcases identify_error unknown with wrong | wrong <;> cases wrong
  | limited known unseen poor =>
      rcases ReplayGuard.accept_eq_ok_iff.mp unseen with ⟨fresh, absent⟩
      exact ⟨_, known, fresh, absent, checkRate_eq_false_iff.mp poor⟩

/-- A call that records nothing leaves the gate as it was, but for the sweep. -/
theorem Decided.alike_of_not_records (decided : Decided crypto registry gate call verdict next)
    (unrecorded : ¬Records crypto registry gate call) :
    Alike call.readings.sweepAt next gate := by
  cases decided with
  | refused unknown rejected => exact ⟨rfl, .refl _ _⟩
  | replayed known seen =>
      have swept : (checkReplay crypto gate call).2 =
          gate.replayGuard.sweep call.readings.sweepAt := ReplayGuard.accept_rejected seen
      rw [swept]
      exact ⟨rfl, ReplayGuard.alike_sweep _ _⟩
  | limited known unseen poor => exact False.elim (unrecorded ⟨_, known, unseen⟩)
  | admitted known unseen paid => exact False.elim (unrecorded ⟨_, known, unseen⟩)

end

/-! ## Admissions of one nonce -/

section

variable {gate next : Gate} {call : GateCall} {verdict : AuthCheck}

theorem Decided.ttlNs (decided : Decided crypto registry gate call verdict next) :
    next.replayGuard.ttlNs = gate.replayGuard.ttlNs := by
  cases decided with
  | refused unknown rejected => rfl
  | replayed known seen => exact ReplayGuard.ttlNs_accept _ _ _ _ _
  | limited known unseen poor => exact ReplayGuard.ttlNs_accept _ _ _ _ _
  | admitted known unseen paid => exact ReplayGuard.ttlNs_accept _ _ _ _ _

/-- A call keeps the floor of every replay key. -/
theorem Decided.held (decided : Decided crypto registry gate call verdict next)
    {start nonce : UInt64} {floor : Nat} (ordered : (start :: readings call).Pairwise (· ≤ ·))
    (held : gate.replayGuard.Held nonce floor start) :
    next.replayGuard.Held nonce floor call.readings.limitAt := by
  rcases ordered_iff.mp ordered with ⟨sweeps, accepts, limits⟩
  have checked : (checkReplay crypto gate call).2.Held nonce floor call.readings.limitAt :=
    (held.accept sweeps accepts _ _).later limits
  cases decided with
  | refused unknown rejected =>
      exact held.later (UInt64.le_trans sweeps (UInt64.le_trans accepts limits))
  | replayed known seen => exact checked
  | limited known unseen poor => exact checked
  | admitted known unseen paid => exact checked

/-- An admission holds its replay key for one window. -/
theorem Decided.held_of_ok (decided : Decided crypto registry gate call .ok next)
    {start : UInt64} (ordered : (start :: readings call).Pairwise (· ≤ ·)) :
    next.replayGuard.Held (replayKey crypto call)
      (call.readings.acceptAt.toNat + gate.replayGuard.ttlNs.toNat) call.readings.limitAt := by
  rcases ordered_iff.mp ordered with ⟨_, _, limits⟩
  cases decided with
  | refused unknown rejected => exact absurd rfl rejected
  | admitted known unseen paid => exact (ReplayGuard.held_of_accepted unseen).later limits

/-- An admission comes no earlier than the floor of its replay key. -/
theorem Decided.floor_le_of_ok (decided : Decided crypto registry gate call .ok next)
    {start : UInt64} {floor : Nat} (ordered : (start :: readings call).Pairwise (· ≤ ·))
    (held : gate.replayGuard.Held (replayKey crypto call) floor start) :
    floor ≤ call.readings.acceptAt.toNat := by
  rcases ordered_iff.mp ordered with ⟨sweeps, accepts, _⟩
  cases decided with
  | refused unknown rejected => exact absurd rfl rejected
  | admitted known unseen paid =>
      have reached := (held.sweep sweeps).floor_le (ReplayGuard.accept_eq_ok_iff.mp unseen).2
      exact reached.trans (UInt64.le_iff_toNat_le.mp accepts)

end

/-- The reading at which a call admitted a tenant's nonce, if it did. -/
def admittedAt (tenantId : TenantId) (nonce : BitVec 128) (call : GateCall)
    (verdict : AuthCheck) : Option UInt64 :=
  if verdict = .ok ∧ call.submission.tenantId = tenantId ∧ call.submission.nonce = nonce then
    some call.readings.acceptAt
  else none

/-- The readings at which a run admitted a tenant's nonce, in order. -/
def admissionTimes (crypto : Crypto) (registry : TenantRegistry) (tenantId : TenantId)
    (nonce : BitVec 128) (gate : Gate) (calls : List GateCall) : List UInt64 :=
  (machine crypto registry).observe (admittedAt tenantId nonce) gate calls

variable {tenantId : TenantId}

theorem admittedAt_eq_some {nonce : BitVec 128} {call : GateCall} {verdict : AuthCheck}
    {time : UInt64} (admitted : admittedAt tenantId nonce call verdict = some time) :
    verdict = .ok ∧ replayKey crypto call = foldReplayKey crypto tenantId nonce ∧
      time = call.readings.acceptAt := by
  rw [admittedAt, Option.ite_none_right_eq_some] at admitted
  rcases admitted with ⟨⟨ok, rfl, rfl⟩, same⟩
  exact ⟨ok, rfl, (Option.some.inj same).symm⟩

/-- Admissions of one nonce are at least a window apart. -/
theorem admissionTimes_spaced (tenantId : TenantId) (nonce : BitVec 128) (gate : Gate)
    {start : UInt64} {calls : List GateCall}
    (monotone : Machine.Monotone readings start calls) :
    (admissionTimes crypto registry tenantId nonce gate calls).Pairwise fun first second =>
      first.toNat + gate.replayGuard.ttlNs.toNat ≤ second.toNat := by
  apply (machine crypto registry).observe_pairwise readings
    (fun first start state => state.replayGuard.Held (foldReplayKey crypto tenantId nonce)
      (first.toNat + gate.replayGuard.ttlNs.toNat) start)
    (fun state => state.replayGuard.ttlNs = gate.replayGuard.ttlNs)
  · intro call state window
    exact (decided_step state call).ttlNs.trans window
  · intro first start call state ordered window admitted
    rcases admittedAt_eq_some admitted with ⟨ok, key, rfl⟩
    have decided : Decided crypto registry state call .ok _ := ok ▸ decided_step state call
    rw [← key, ← window]
    exact decided.held_of_ok ordered
  · intro first start call state ordered held
    exact (decided_step state call).held ordered held
  · intro first second start call state ordered held admitted
    rcases admittedAt_eq_some admitted with ⟨ok, key, rfl⟩
    have decided : Decided crypto registry state call .ok _ := ok ▸ decided_step state call
    rw [← key] at held
    exact decided.floor_le_of_ok ordered held
  · exact monotone
  · rfl

/-! ## Tokens spent -/

/-- The submissions of a tenant that a run admitted. -/
def admissions (crypto : Crypto) (registry : TenantRegistry) (tenantId : TenantId)
    (gate : Gate) (calls : List GateCall) : List GateCall :=
  (machine crypto registry).observe (fun call verdict =>
    if verdict = .ok ∧ call.submission.tenantId = tenantId then some call else none) gate calls

/-- The tokens deducted from a tenant's bucket over a run. -/
def deductions (crypto : Crypto) (registry : TenantRegistry) (tenantId : TenantId)
    (gate : Gate) : List GateCall → Int
  | [] => 0
  | call :: rest =>
      let next := (step crypto registry gate call).2
      gate.rateLimiter.deducted next.rateLimiter tenantId +
        deductions crypto registry tenantId next rest

/-- A call takes one token from its tenant's bucket exactly when it is admitted. -/
theorem Decided.deducted {gate next : Gate} {call : GateCall} {verdict : AuthCheck}
    (decided : Decided crypto registry gate call verdict next) (tenantId : TenantId) :
    gate.rateLimiter.deducted next.rateLimiter tenantId =
      if verdict = .ok ∧ call.submission.tenantId = tenantId then 1 else 0 := by
  have rate : ∀ tenant, gate.rateLimiter.deducted (checkRate gate call tenant).2 tenantId =
      if tenantId = call.submission.tenantId ∧ (checkRate gate call tenant).1 = true then 1
      else 0 := fun _ => RateLimiter.deducted_acceptWithConfig _ _ _ _ _ _ _
  cases decided with
  | refused unknown rejected =>
      rw [RateLimiter.deducted_of_lookup_eq rfl, if_neg (fun both => rejected both.1)]
  | replayed known seen => exact RateLimiter.deducted_of_lookup_eq rfl
  | limited known unseen poor => simp [rate, poor]
  | admitted known unseen paid => simp [rate, paid, eq_comm]

theorem admissions_cons (tenantId : TenantId) (gate : Gate) (call : GateCall)
    (rest : List GateCall) :
    admissions crypto registry tenantId gate (call :: rest) =
      (if (step crypto registry gate call).1 = .ok ∧ call.submission.tenantId = tenantId then
        [call] else []) ++
        admissions crypto registry tenantId (step crypto registry gate call).2 rest := by
  rw [admissions, Machine.observe_cons]
  congr 1
  exact apply_ite Option.toList _ (some call) none

theorem deductions_eq (tenantId : TenantId) (gate : Gate) (calls : List GateCall) :
    deductions crypto registry tenantId gate calls =
      (admissions crypto registry tenantId gate calls).length := by
  induction calls generalizing gate with
  | nil => rfl
  | cons call rest ih =>
      rw [deductions, ih, (decided_step gate call).deducted, admissions_cons,
        List.length_append]
      split
      · exact (Int.natCast_add 1 _).symm
      · simp

/-- Over every run of submissions of both shapes through one gate: two admissions of
the same nonce of a tenant are at least a window apart, and the tokens deducted from
a tenant's bucket are as many as its admissions. -/
theorem admitted_once_per_window (crypto : Crypto) (registry : TenantRegistry) (gate : Gate)
    (start : UInt64) (calls : List GateCall)
    (monotone : Machine.Monotone readings start calls) :
    (∀ tenantId nonce, (admissionTimes crypto registry tenantId nonce gate calls).Pairwise
        fun first second => first.toNat + gate.replayGuard.ttlNs.toNat ≤ second.toNat) ∧
      ∀ tenantId, deductions crypto registry tenantId gate calls =
        (admissions crypto registry tenantId gate calls).length :=
  ⟨fun tenantId nonce => admissionTimes_spaced tenantId nonce gate monotone,
    fun tenantId => deductions_eq tenantId gate calls⟩

theorem admitted_once_per_window_sample :
    Machine.Monotone readings 0 [soleTenantCall 5 0, soleTenantCall 5 2000000000,
        soleTenantCall 5 60000000000] ∧
      admissionTimes Core.modelCrypto soleTenantRegistry 1 5 freshGate
        [soleTenantCall 5 0, soleTenantCall 5 2000000000, soleTenantCall 5 60000000000] =
          [0, 60000000000] ∧
      deductions Core.modelCrypto soleTenantRegistry 1 freshGate
        [soleTenantCall 5 0, soleTenantCall 5 2000000000, soleTenantCall 5 60000000000] =
          2 := by
  have monotone : Machine.Monotone readings 0 [soleTenantCall 5 0,
      soleTenantCall 5 2000000000, soleTenantCall 5 60000000000] := by decide +kernel
  refine ⟨monotone, by decide +kernel, ?_⟩
  rw [(admitted_once_per_window Core.modelCrypto soleTenantRegistry freshGate 0 _ monotone).2]
  decide +kernel

/-! ## Replay verdicts -/

section

variable {relevant : UInt64 → Prop} {start : UInt64} {left right gate : Gate} {call : GateCall}

/-- A call touches the replay guard once its signer is known, whatever the rate limiter
says. -/
theorem replayGuard_step (gate : Gate) (call : GateCall) :
    (step crypto registry gate call).2.replayGuard =
      match identify crypto registry call with
      | .error _ => gate.replayGuard
      | .ok _ => (checkReplay crypto gate call).2 := by
  rw [step_eq]
  cases identify crypto registry call with
  | error verdict => rfl
  | ok tenant =>
      dsimp only
      cases (checkReplay crypto gate call).1 with
      | error reason => rfl
      | ok value => rfl

theorem step_eq_replayDetected_iff :
    (step crypto registry gate call).1 = .replayDetected ↔
      (∃ tenant, identify crypto registry call = .ok tenant) ∧
        (checkReplay crypto gate call).1 ≠ .ok () := by
  have decided : Decided crypto registry gate call _ _ := decided_step gate call
  generalize (step crypto registry gate call).1 = verdict at decided ⊢
  generalize (step crypto registry gate call).2 = next at decided
  cases decided with
  | refused unknown rejected =>
      constructor
      · rintro rfl
        rcases identify_error unknown with wrong | wrong <;> cases wrong
      · rintro ⟨⟨tenant, known⟩, -⟩
        rw [unknown] at known
        cases known
  | replayed known seen => exact ⟨fun _ => ⟨⟨_, known⟩, seen⟩, fun _ => rfl⟩
  | limited known unseen poor => exact ⟨nofun, fun both => absurd unseen both.2⟩
  | admitted known unseen paid => exact ⟨nofun, fun both => absurd unseen both.2⟩

/-- A call with an irrelevant key goes unnoticed by the relevant ones. -/
theorem alikeOn_step_left
    (alike : ReplayGuard.AlikeOn relevant start left.replayGuard right.replayGuard)
    (ordered : (start :: readings call).Pairwise (· ≤ ·))
    (foreign : ¬relevant (replayKey crypto call)) :
    ReplayGuard.AlikeOn relevant call.readings.limitAt
      (step crypto registry left call).2.replayGuard right.replayGuard := by
  rcases ordered_iff.mp ordered with ⟨sweeps, accepts, limits⟩
  rw [replayGuard_step]
  cases identify crypto registry call with
  | error verdict => exact alike.later (UInt64.le_trans sweeps (UInt64.le_trans accepts limits))
  | ok tenant => exact (alike.accept_left sweeps accepts foreign call.nowNs).later limits

/-- Guards that agree on the relevant keys agree on them after a call. -/
theorem alikeOn_step
    (alike : ReplayGuard.AlikeOn relevant start left.replayGuard right.replayGuard)
    (ordered : (start :: readings call).Pairwise (· ≤ ·)) :
    ReplayGuard.AlikeOn relevant call.readings.limitAt
      (step crypto registry left call).2.replayGuard
      (step crypto registry right call).2.replayGuard := by
  rcases ordered_iff.mp ordered with ⟨sweeps, accepts, limits⟩
  rw [replayGuard_step, replayGuard_step]
  cases identify crypto registry call with
  | error verdict => exact alike.later (UInt64.le_trans sweeps (UInt64.le_trans accepts limits))
  | ok tenant =>
      by_cases member : relevant (replayKey crypto call)
      · exact (alike.accept sweeps call.readings.acceptAt member call.nowNs).2.later limits
      · -- The call is foreign to both sides, so it is made on one side after the other.
        have first := alike.accept_left sweeps accepts member call.nowNs
        have second := (ReplayGuard.AlikeOn.refl relevant start right.replayGuard).accept_left
          sweeps accepts member call.nowNs
        exact (first.trans second.symm).later limits

/-- A relevant key is found in both guards or in neither. -/
theorem replayDetected_congr
    (alike : ReplayGuard.AlikeOn relevant start left.replayGuard right.replayGuard)
    (ordered : (start :: readings call).Pairwise (· ≤ ·))
    (member : relevant (replayKey crypto call)) :
    (step crypto registry left call).1 = .replayDetected ↔
      (step crypto registry right call).1 = .replayDetected := by
  rcases ordered_iff.mp ordered with ⟨sweeps, -, -⟩
  have same : (checkReplay crypto left call).1 = (checkReplay crypto right call).1 :=
    (alike.accept sweeps call.readings.acceptAt member call.nowNs).1
  rw [step_eq_replayDetected_iff, step_eq_replayDetected_iff, same]

end

/-! ## Isolation of tenants -/

/-- The gates look the same to one tenant: same bucket, and the same relevant replay
keys in the open window. -/
structure SameFor (tenantId : TenantId) (relevant : UInt64 → Prop) (start : UInt64)
    (left right : Gate) : Prop where
  bucket : left.rateLimiter.buckets.lookup tenantId =
    right.rateLimiter.buckets.lookup tenantId
  replayGuard : ReplayGuard.AlikeOn relevant start left.replayGuard right.replayGuard

/-- The tenant's own submissions get the same verdicts. -/
theorem SameFor.own {relevant : UInt64 → Prop} {start : UInt64} {left right : Gate}
    (same : SameFor tenantId relevant start left right) {call : GateCall}
    (ordered : (start :: readings call).Pairwise (· ≤ ·))
    (own : call.submission.tenantId = tenantId) (key : relevant (replayKey crypto call)) :
    (step crypto registry left call).1 = (step crypto registry right call).1 ∧
      SameFor tenantId relevant call.readings.limitAt (step crypto registry left call).2
        (step crypto registry right call).2 := by
  subst own
  rcases ordered_iff.mp ordered with ⟨sweeps, accepts, limits⟩
  rcases same.replayGuard.accept sweeps call.readings.acceptAt key call.nowNs with
    ⟨verdict, guards⟩
  have checked : (checkReplay crypto left call).1 = (checkReplay crypto right call).1 := verdict
  have guards := guards.later limits
  have rate : ∀ tenant, (checkRate left call tenant).1 = (checkRate right call tenant).1 ∧
      (checkRate left call tenant).2.buckets.lookup call.submission.tenantId =
        (checkRate right call tenant).2.buckets.lookup call.submission.tenantId := by
    intro tenant
    constructor
    · simp only [checkRate, RateLimiter.acceptWithConfig, same.bucket]
    · simp only [checkRate, RateLimiter.lookup_acceptWithConfig, same.bucket]
  rw [step_eq, step_eq]
  cases identify crypto registry call with
  | error verdict =>
      have passes := UInt64.le_trans sweeps (UInt64.le_trans accepts limits)
      exact ⟨rfl, same.bucket, same.replayGuard.later passes⟩
  | ok tenant =>
      simp only [checked, (rate tenant).1]
      cases (checkReplay crypto right call).1 with
      | error reason => exact ⟨rfl, same.bucket, guards⟩
      | ok value => exact ⟨rfl, (rate tenant).2, guards⟩

/-- A submission of another tenant under an irrelevant key goes unnoticed. -/
theorem SameFor.foreign {relevant : UInt64 → Prop} {start : UInt64} {left right next : Gate}
    (same : SameFor tenantId relevant start left right) {call : GateCall} {verdict : AuthCheck}
    (ordered : (start :: readings call).Pairwise (· ≤ ·))
    (other : call.submission.tenantId ≠ tenantId) (key : ¬relevant (replayKey crypto call))
    (decided : Decided crypto registry left call verdict next) :
    SameFor tenantId relevant call.readings.limitAt next right := by
  rcases ordered_iff.mp ordered with ⟨sweeps, accepts, limits⟩
  have guards : ReplayGuard.AlikeOn relevant call.readings.limitAt
      (checkReplay crypto left call).2 right.replayGuard :=
    (same.replayGuard.accept_left sweeps accepts key call.nowNs).later limits
  have buckets : ∀ tenant, (checkRate left call tenant).2.buckets.lookup tenantId =
      right.rateLimiter.buckets.lookup tenantId := by
    intro tenant
    rw [checkRate, RateLimiter.lookup_acceptWithConfig, if_neg other.symm]
    exact same.bucket
  cases decided with
  | refused unknown rejected =>
      have passes := UInt64.le_trans sweeps (UInt64.le_trans accepts limits)
      exact ⟨same.bucket, same.replayGuard.later passes⟩
  | replayed known seen => exact ⟨same.bucket, guards⟩
  | limited known unseen poor => exact ⟨buckets _, guards⟩
  | admitted known unseen paid => exact ⟨buckets _, guards⟩

/-- Whether a submission names the tenant. -/
def names (tenantId : TenantId) (call : GateCall) : Bool :=
  decide (call.submission.tenantId = tenantId)

/-- A tenant's verdicts do not depend on the submissions that name other tenants, as
long as the replay keys of the submissions in the run do not collide. -/
theorem tenant_isolated (crypto : Crypto) (registry : TenantRegistry) (gate : Gate)
    (start : UInt64) (calls : List GateCall) (tenantId : TenantId)
    (monotone : Machine.Monotone readings start calls)
    (injective : ∀ first ∈ calls, ∀ second ∈ calls,
      replayKey crypto first = replayKey crypto second →
        first.submission.tenantId = second.submission.tenantId ∧
          first.submission.nonce = second.submission.nonce) :
    (machine crypto registry).runKept (names tenantId) gate calls =
      (machine crypto registry).run gate (calls.filter (names tenantId)) := by
  -- The keys of the tenant's own submissions are the ones that matter to it.
  let relevant : UInt64 → Prop := fun key =>
    ∃ call ∈ calls, call.submission.tenantId = tenantId ∧ replayKey crypto call = key
  apply (machine crypto registry).runKept_eq_run_filter readings (names tenantId)
    (fun _ _ call => call ∈ calls) (SameFor tenantId relevant)
  · intro start call left right named ordered present same
    have own : call.submission.tenantId = tenantId := of_decide_eq_true named
    exact same.own ordered own ⟨call, present, own, rfl⟩
  · intro start call left right unnamed ordered present same
    have other : call.submission.tenantId ≠ tenantId := of_decide_eq_false unnamed
    apply same.foreign ordered other ?_ (decided_step left call)
    rintro ⟨owned, ownedPresent, own, collides⟩
    have sameTenant := (injective owned ownedPresent call present collides).1
    exact other (sameTenant.symm.trans own)
  · exact monotone
  · exact (machine crypto registry).along_of_forall (fun _ present _ _ => present) gate gate
  · exact ⟨rfl, .refl _ _ _⟩

/-- Two tenants with one token each. -/
def twoTenantRegistry : TenantRegistry where
  byId := Table.collect
    [(1, ⟨1, Core.modelHash soleTenantKey.toList, 1, 1, 0⟩),
      (2, ⟨2, Core.modelHash soleTenantKey.toList, 1, 1, 0⟩)]

/-- A correctly signed submission of one of them, sent at `time`. -/
def tenantCall (tenantId : TenantId) (nonce : BitVec 128) (time : UInt64) : GateCall :=
  let payload : PipelineSubmissionPayload := ⟨tenantId, [1], 60, nonce⟩
  { submission := .pipeline payload
    pubkey := soleTenantKey
    signature := Core.modelSignature soleTenantKey (canonicalBytesPipeline payload)
    nowNs := time
    readings := ⟨time, time, time⟩ }

/-- The second tenant uses the nonce of the first one and empties its own bucket. -/
def interleavedCalls : List GateCall :=
  [tenantCall 2 5 0, soleTenantCall 5 1, tenantCall 2 6 2, soleTenantCall 5 3]

theorem tenant_isolated_interleaved :
    (Machine.Monotone readings 0 interleavedCalls ∧
      ∀ first ∈ interleavedCalls, ∀ second ∈ interleavedCalls,
        replayKey Core.modelCrypto first = replayKey Core.modelCrypto second →
          first.submission.tenantId = second.submission.tenantId ∧
            first.submission.nonce = second.submission.nonce) ∧
      (machine Core.modelCrypto twoTenantRegistry).run freshGate interleavedCalls =
        [.ok, .ok, .rateLimited, .replayDetected] ∧
      (machine Core.modelCrypto twoTenantRegistry).run freshGate
        [soleTenantCall 5 1, soleTenantCall 5 3] = [.ok, .replayDetected] := by
  have monotone : Machine.Monotone readings 0 interleavedCalls := by decide +kernel
  have injective : ∀ first ∈ interleavedCalls, ∀ second ∈ interleavedCalls,
      replayKey Core.modelCrypto first = replayKey Core.modelCrypto second →
        first.submission.tenantId = second.submission.tenantId ∧
          first.submission.nonce = second.submission.nonce := by decide +kernel
  have isolated := tenant_isolated Core.modelCrypto twoTenantRegistry freshGate 0
    interleavedCalls 1 monotone injective
  refine ⟨⟨monotone, injective⟩, by decide +kernel, ?_⟩
  exact isolated.symm.trans (by decide +kernel)

end Gate

end Cosaci.State
