import Cosaci.State.RateLimit

/-!
# Refills that cannot be observed

A refill restarts the clock of a bucket, so an extra one can discard the part of
a token earned so far.  This module says when extra refills, caused by balance
queries and rejected requests, leave every verdict of a run unchanged.
-/

namespace Cosaci.State

open Foundation

namespace TokenBucket

/-- A refill at `nowNs` drops no part of a token, or fills the bucket anyway. -/
def Lossless (bucket : TokenBucket) (nowNs : UInt64) : Prop :=
  bucket.fraction nowNs = 0 ∨
    bucket.capacity.toNat ≤ bucket.tokens.toNat + bucket.earned nowNs

/-- The credit of a refill at `nowNs` survives the cast to 64 bits. -/
def Representable (bucket : TokenBucket) (nowNs : UInt64) : Prop :=
  bucket.earned nowNs < 2 ^ 64

instance (bucket : TokenBucket) (nowNs : UInt64) : Decidable (bucket.Lossless nowNs) :=
  inferInstanceAs (Decidable (_ ∨ _))

instance (bucket : TokenBucket) (nowNs : UInt64) : Decidable (bucket.Representable nowNs) :=
  inferInstanceAs (Decidable (_ < _))

/-- `polled` is `plain` after extra refills, the last of them at
`polled.lastRefillNs`, none of which lost anything that counts. -/
structure Ahead (polled plain : TokenBucket) : Prop where
  capacity : polled.capacity = plain.capacity
  refillPerSec : polled.refillPerSec = plain.refillPerSec
  order : plain.lastRefillNs ≤ polled.lastRefillNs
  balance : polled.tokens.toNat =
    min plain.capacity.toNat (plain.tokens.toNat + plain.earned polled.lastRefillNs)
  lossless : plain.Lossless polled.lastRefillNs

theorem Ahead.refl (bucket : TokenBucket) : Ahead bucket bucket where
  capacity := rfl
  refillPerSec := rfl
  order := UInt64.le_refl _
  balance := by
    have bounded := UInt64.le_iff_toNat_le.mp bucket.bounded
    simp [earned, bounded]
  lossless := Or.inl (by simp [fraction])

variable {nowNs : UInt64}

/-- Cutting a stretch of time where no fraction is dropped loses no token. -/
private theorem earned_split {polled plain : TokenBucket}
    (rate : polled.refillPerSec = plain.refillPerSec)
    (order : plain.lastRefillNs ≤ polled.lastRefillNs) (passes : polled.lastRefillNs ≤ nowNs)
    (whole : plain.fraction polled.lastRefillNs = 0) :
    plain.earned nowNs = plain.earned polled.lastRefillNs + polled.earned nowNs ∧
      plain.fraction nowNs = polled.fraction nowNs := by
  have first := UInt64.le_iff_toNat_le.mp order
  have second := UInt64.le_iff_toNat_le.mp passes
  have cut : nowNs.toNat - plain.lastRefillNs.toNat =
      (polled.lastRefillNs.toNat - plain.lastRefillNs.toNat) +
        (nowNs.toNat - polled.lastRefillNs.toNat) := by
    omega
  have divides : nanosPerSec ∣
      (polled.lastRefillNs.toNat - plain.lastRefillNs.toNat) * plain.refillPerSec.toNat :=
    Nat.dvd_of_mod_eq_zero whole
  simp only [earned, fraction, cut, rate, Nat.add_mul]
  exact ⟨Nat.add_div_of_dvd_right divides, by
    rw [Nat.add_mod, Nat.mod_eq_zero_of_dvd divides, Nat.zero_add, Nat.mod_mod]⟩

private theorem earned_mono (bucket : TokenBucket) {early late : UInt64}
    (passes : early ≤ late) : bucket.earned early ≤ bucket.earned late := by
  have order := UInt64.le_iff_toNat_le.mp passes
  apply Nat.div_le_div_right
  apply Nat.mul_le_mul_right
  omega

/-- What the plain bucket is worth at `nowNs` is what the polled one is worth. -/
private theorem Ahead.worth {polled plain : TokenBucket} (ahead : Ahead polled plain)
    (passes : polled.lastRefillNs ≤ nowNs) :
    min plain.capacity.toNat (plain.tokens.toNat + plain.earned nowNs) =
      min polled.capacity.toNat (polled.tokens.toNat + polled.earned nowNs) := by
  have balance := ahead.balance
  rw [ahead.capacity]
  rcases ahead.lossless with whole | full
  · have split := (earned_split ahead.refillPerSec ahead.order passes whole).1
    omega
  · have more := earned_mono plain passes
    omega

/-- Once both are refilled, a polled bucket is the plain one. -/
theorem Ahead.refill_eq {polled plain : TokenBucket} (ahead : Ahead polled plain)
    (passes : polled.lastRefillNs ≤ nowNs) (polledFits : polled.Representable nowNs)
    (plainFits : plain.Representable nowNs) : polled.refill nowNs = plain.refill nowNs := by
  have tokens : (polled.refill nowNs).tokens = (plain.refill nowNs).tokens := by
    apply UInt64.toNat_inj.mp
    rw [toNat_tokens_refill polledFits, toNat_tokens_refill plainFits, ahead.worth passes]
  exact TokenBucket.ext ahead.capacity ahead.refillPerSec tokens rfl

/-- A lossless refill keeps a polled bucket in step with the plain one. -/
theorem Ahead.poll {polled plain : TokenBucket} (ahead : Ahead polled plain)
    (passes : polled.lastRefillNs ≤ nowNs) (fits : polled.Representable nowNs)
    (lossless : polled.Lossless nowNs) :
    Ahead (polled.refill nowNs) plain where
  capacity := ahead.capacity
  refillPerSec := ahead.refillPerSec
  order := UInt64.le_trans ahead.order passes
  balance := by
    rw [toNat_tokens_refill fits]
    exact (ahead.worth passes).symm
  lossless := by
    have worth := ahead.worth passes
    have balance := ahead.balance
    have capacity := congrArg UInt64.toNat ahead.capacity
    have more := earned_mono plain passes
    simp only [Lossless] at lossless ⊢
    simp only [refill]
    rcases ahead.lossless with whole | full
    · rcases lossless with wholeAgain | filled
      · have split := (earned_split ahead.refillPerSec ahead.order passes whole).2
        exact Or.inl (split.trans wholeAgain)
      · exact Or.inr (by omega)
    · exact Or.inr (by omega)

end TokenBucket

/-- The parameters of a tenant's bucket. -/
structure BucketConfig where
  capacity : UInt64
  refillPerSec : UInt64
  deriving DecidableEq, Repr

namespace RateLimiter

/-- How a tenant's bucket may differ between a run with inserted calls, on the
left, and the run without them. -/
inductive Polled (config : BucketConfig) (start : UInt64) :
    Option TokenBucket → Option TokenBucket → Prop where
  | absent : Polled config start none none
  | created {polled : TokenBucket}
      (capacity : polled.capacity = config.capacity)
      (refillPerSec : polled.refillPerSec = config.refillPerSec)
      (full : polled.tokens = polled.capacity)
      (past : polled.lastRefillNs ≤ start) : Polled config start (some polled) none
  | ahead {polled plain : TokenBucket} (ahead : polled.Ahead plain)
      (past : polled.lastRefillNs ≤ start) : Polled config start (some polled) (some plain)

namespace Polled

variable {config : BucketConfig} {start now : UInt64} {left right : Option TokenBucket}

theorem later (related : Polled config start left right) (passes : start ≤ now) :
    Polled config now left right := by
  cases related with
  | absent => exact .absent
  | created capacity refillPerSec full past =>
      exact .created capacity refillPerSec full (UInt64.le_trans past passes)
  | ahead ahead past => exact .ahead ahead (UInt64.le_trans past passes)

/-- A kept request finds the same bucket in both runs. -/
theorem refill_eq (related : Polled config start left right) (passes : start ≤ now)
    (leftFits : ∀ bucket ∈ left, bucket.Representable now)
    (rightFits : ∀ bucket ∈ right, bucket.Representable now) :
    (left.getD (.new config.capacity config.refillPerSec now)).refill now =
      (right.getD (.new config.capacity config.refillPerSec now)).refill now := by
  cases related with
  | absent => rfl
  | @created polled capacity refillPerSec full past =>
      have leftFull := TokenBucket.tokens_refill_of_full now full
      have rightFull : ((TokenBucket.new config.capacity config.refillPerSec now).refill
          now).tokens = config.capacity :=
        TokenBucket.tokens_refill_of_full now rfl
      refine TokenBucket.ext capacity refillPerSec ?_ rfl
      exact leftFull.trans (capacity.trans rightFull.symm)
  | ahead ahead past =>
      exact ahead.refill_eq (UInt64.le_trans past passes) (leftFits _ rfl) (rightFits _ rfl)

/-- An inserted request that takes nothing only refills the left bucket. -/
theorem request (related : Polled config start left right) (passes : start ≤ now)
    (fits : ∀ bucket ∈ left, bucket.Representable now)
    (lossless : ∀ bucket ∈ left, bucket.Lossless now) :
    Polled config now
      (some ((left.getD (.new config.capacity config.refillPerSec now)).refill now)) right := by
  cases related with
  | absent =>
      exact .created rfl rfl (TokenBucket.tokens_refill_of_full now rfl) (UInt64.le_refl now)
  | created capacity refillPerSec full past =>
      exact .created capacity refillPerSec (TokenBucket.tokens_refill_of_full now full)
        (UInt64.le_refl now)
  | ahead ahead past =>
      exact .ahead (ahead.poll (UInt64.le_trans past passes) (fits _ rfl) (lossless _ rfl))
        (UInt64.le_refl now)

/-- An inserted balance query refills the left bucket if there is one. -/
theorem query (related : Polled config start left right) (passes : start ≤ now)
    (fits : ∀ bucket ∈ left, bucket.Representable now)
    (lossless : ∀ bucket ∈ left, bucket.Lossless now) :
    Polled config now (left.map fun bucket => bucket.refill now) right := by
  cases left with
  | none => exact related.later passes
  | some bucket => exact related.request passes fits lossless

/-- A kept balance query refills both buckets. -/
theorem queryBoth (related : Polled config start left right) (passes : start ≤ now)
    (leftFits : ∀ bucket ∈ left, bucket.Representable now)
    (rightFits : ∀ bucket ∈ right, bucket.Representable now) :
    Polled config now (left.map fun bucket => bucket.refill now)
      (right.map fun bucket => bucket.refill now) := by
  have same := related.refill_eq passes leftFits rightFits
  cases related with
  | absent => exact .absent
  | created capacity refillPerSec full past =>
      exact .created capacity refillPerSec (TokenBucket.tokens_refill_of_full now full)
        (UInt64.le_refl now)
  | @ahead polled plain ahead past =>
      simp only [Option.map_some, Option.getD_some] at same ⊢
      rw [same]
      exact .ahead (.refl _) (UInt64.le_refl now)

end Polled

/-- The call creates its tenant's bucket with that tenant's configuration. -/
def UsesConfig (config : TenantId → BucketConfig) (limiter : RateLimiter) : Call → Prop
  | .accept _ tenant _ =>
      config tenant = ⟨limiter.defaultCapacity, limiter.defaultRefillPerSec⟩
  | .acceptWithConfig _ tenant _ capacity refillPerSec =>
      config tenant = ⟨capacity, refillPerSec⟩
  | .tokensOf _ _ => True

/-- The condition on a call: one configuration for each tenant, no credit of
`2 ^ 64` tokens or more with or without the inserted calls, and no part of a
token dropped by an inserted call unless the bucket fills up. -/
structure Exact (config : TenantId → BucketConfig) (polled plain : RateLimiter)
    (marked : Marked) : Prop where
  usesConfig : polled.UsesConfig config marked.call
  polledFits : ∀ bucket ∈ polled.buckets.lookup marked.call.tenant,
    bucket.Representable marked.call.now
  plainFits : ∀ bucket ∈ plain.buckets.lookup marked.call.tenant,
    bucket.Representable marked.call.now
  lossless : marked.inserted = true →
    ∀ bucket ∈ polled.buckets.lookup marked.call.tenant, bucket.Lossless marked.call.now

/-- An inserted call is a balance query or a rejected request. -/
def Idle (polled : RateLimiter) (marked : Marked) : Prop :=
  marked.inserted = true → (polled.step marked.call).1 ≠ some true

/-- The relation carried along a run. -/
structure InStep (config : TenantId → BucketConfig) (start : UInt64)
    (polled plain : RateLimiter) : Prop where
  defaultCapacity : polled.defaultCapacity = plain.defaultCapacity
  defaultRefillPerSec : polled.defaultRefillPerSec = plain.defaultRefillPerSec
  buckets : ∀ tenant, Polled (config tenant) start (polled.buckets.lookup tenant)
    (plain.buckets.lookup tenant)

variable {config : TenantId → BucketConfig} {start : UInt64} {polled plain : RateLimiter}

/-- A request under its tenant's configuration is answered alike in both runs. -/
private theorem InStep.accept_eq (inStep : InStep config start polled plain)
    {now : UInt64} {tenant : TenantId} (cost : UInt64) (passes : start ≤ now)
    (polledFits : ∀ bucket ∈ polled.buckets.lookup tenant, bucket.Representable now)
    (plainFits : ∀ bucket ∈ plain.buckets.lookup tenant, bucket.Representable now) :
    ((polled.buckets.lookup tenant).getD (.new (config tenant).capacity
        (config tenant).refillPerSec now)).tryConsume cost now =
      ((plain.buckets.lookup tenant).getD (.new (config tenant).capacity
        (config tenant).refillPerSec now)).tryConsume cost now := by
  simp only [TokenBucket.tryConsume]
  rw [(inStep.buckets tenant).refill_eq passes polledFits plainFits]

private theorem lastRefillNs_tryConsume (bucket : TokenBucket) (cost now : UInt64) :
    (bucket.tryConsume cost now).2.lastRefillNs = now := by
  simp only [TokenBucket.tryConsume, TokenBucket.consume]
  split <;> rfl

/-- The relation follows from what a step does to the bucket of its tenant. -/
private theorem InStep.of_tenant (inStep : InStep config start polled plain)
    {now : UInt64} (passes : start ≤ now) {tenant : TenantId} {left right : RateLimiter}
    (leftDefaults : left.defaultCapacity = polled.defaultCapacity ∧
      left.defaultRefillPerSec = polled.defaultRefillPerSec)
    (rightDefaults : right.defaultCapacity = plain.defaultCapacity ∧
      right.defaultRefillPerSec = plain.defaultRefillPerSec)
    (leftOthers : ∀ other, other ≠ tenant →
      left.buckets.lookup other = polled.buckets.lookup other)
    (rightOthers : ∀ other, other ≠ tenant →
      right.buckets.lookup other = plain.buckets.lookup other)
    (touched : Polled (config tenant) now (left.buckets.lookup tenant)
      (right.buckets.lookup tenant)) : InStep config now left right where
  defaultCapacity := by rw [leftDefaults.1, rightDefaults.1, inStep.defaultCapacity]
  defaultRefillPerSec := by rw [leftDefaults.2, rightDefaults.2, inStep.defaultRefillPerSec]
  buckets := by
    intro other
    by_cases same : other = tenant
    · subst other
      exact touched
    · rw [leftOthers other same, rightOthers other same]
      exact (inStep.buckets other).later passes

variable {call : Call}

private theorem step_request {limiter : RateLimiter} {cost : UInt64}
    (uses : limiter.UsesConfig config call) (request : call.cost = some cost) :
    limiter.step call =
      let result := limiter.acceptWithConfig call.now call.tenant cost
        (config call.tenant).capacity (config call.tenant).refillPerSec
      (some result.1, result.2) := by
  cases call with
  | accept now tenant amount =>
      cases request
      simp only [UsesConfig] at uses
      simp only [step, accept, Call.now, Call.tenant, uses]
  | acceptWithConfig now tenant amount capacity refillPerSec =>
      cases request
      simp only [UsesConfig] at uses
      simp only [step, Call.now, Call.tenant, uses]
  | tokensOf now tenant => cases request

private theorem step_query (limiter : RateLimiter) (query : call.cost = none) :
    limiter.step call = (none, (limiter.tokensOf call.now call.tenant).2) := by
  cases call with
  | accept now tenant amount => cases query
  | acceptWithConfig now tenant amount capacity refillPerSec => cases query
  | tokensOf now tenant => rfl

private theorem InStep.usesConfig (inStep : InStep config start polled plain)
    (uses : polled.UsesConfig config call) : plain.UsesConfig config call := by
  cases call with
  | accept now tenant cost =>
      simp only [UsesConfig] at uses ⊢
      rw [uses, inStep.defaultCapacity, inStep.defaultRefillPerSec]
  | acceptWithConfig now tenant cost capacity refillPerSec => exact uses
  | tokensOf now tenant => trivial

/-- A kept call gets the same verdict in both runs. -/
theorem InStep.kept_step (inStep : InStep config start polled plain) {marked : Marked}
    (passes : start ≤ marked.call.now) (exact : Exact config polled plain marked) :
    (polled.step marked.call).1 = (plain.step marked.call).1 ∧
      InStep config marked.call.now (polled.step marked.call).2 (plain.step marked.call).2 := by
  have follows := inStep.of_tenant passes (defaults_step polled marked.call)
    (defaults_step plain marked.call) (fun _ => lookup_step_of_ne) (fun _ => lookup_step_of_ne)
  cases request : marked.call.cost with
  | some cost =>
      have same := inStep.accept_eq cost passes exact.polledFits exact.plainFits
      rw [step_request exact.usesConfig request,
        step_request (inStep.usesConfig exact.usesConfig) request] at follows ⊢
      refine ⟨congrArg (fun result => some result.1) same, follows ?_⟩
      simp only [lookup_acceptWithConfig, ↓reduceIte, same]
      exact .ahead (.refl _) (by rw [lastRefillNs_tryConsume]; exact UInt64.le_refl _)
  | none =>
      rw [step_query polled request, step_query plain request] at follows ⊢
      refine ⟨rfl, follows ?_⟩
      simp only [lookup_tokensOf, ↓reduceIte]
      exact (inStep.buckets _).queryBoth passes exact.polledFits exact.plainFits

/-- An inserted call that takes no token leaves the runs in step. -/
theorem InStep.inserted_step (inStep : InStep config start polled plain) {marked : Marked}
    (inserted : marked.inserted = true) (passes : start ≤ marked.call.now)
    (exact : Exact config polled plain marked) (idle : polled.Idle marked) :
    InStep config marked.call.now (polled.step marked.call).2 plain := by
  have follows := inStep.of_tenant passes (defaults_step polled marked.call) ⟨rfl, rfl⟩
    (fun _ => lookup_step_of_ne) (fun _ _ => rfl)
  have lossless := exact.lossless inserted
  have rejected := idle inserted
  cases request : marked.call.cost with
  | some cost =>
      rw [step_request exact.usesConfig request] at follows rejected ⊢
      apply follows
      have refused : (((polled.buckets.lookup marked.call.tenant).getD
          (.new (config marked.call.tenant).capacity (config marked.call.tenant).refillPerSec
            marked.call.now)).tryConsume cost marked.call.now).1 = false := by
        simpa [acceptWithConfig] using rejected
      simp only [lookup_acceptWithConfig, ↓reduceIte, TokenBucket.tryConsume]
      rw [TokenBucket.consume_rejected refused]
      exact (inStep.buckets _).request passes exact.polledFits lossless
  | none =>
      rw [step_query polled request] at follows ⊢
      apply follows
      simp only [lookup_tokensOf, ↓reduceIte]
      exact (inStep.buckets _).query passes exact.polledFits lossless

/-- In every run under a monotone clock whose calls all meet `Exact`, balance
queries and rejected requests inserted anywhere leave every other verdict as it
was. -/
theorem verdicts_unaffected_by_polling (config : TenantId → BucketConfig)
    (capacity refillPerSec : UInt64) (calls : List Marked)
    (monotone : Machine.Monotone readings 0 calls)
    (idle : verdicts.Along kept (fun polled _ marked => polled.Idle marked)
      (new capacity refillPerSec) (new capacity refillPerSec) calls)
    (exact : verdicts.Along kept (Exact config)
      (new capacity refillPerSec) (new capacity refillPerSec) calls) :
    verdicts.runKept kept (new capacity refillPerSec) calls =
      verdicts.run (new capacity refillPerSec) (calls.filter kept) := by
  apply verdicts.runKept_eq_run_filter readings kept _ (InStep config) ?_ ?_ monotone
    (idle.and exact)
  · exact ⟨rfl, rfl, fun _ => .absent⟩
  · intro start marked left right _ ordered condition inStep
    exact inStep.kept_step (List.rel_of_pairwise_cons ordered List.mem_cons_self) condition.2
  · intro start marked left right dropped ordered condition inStep
    have inserted : marked.inserted = true := by simpa [kept] using dropped
    exact inStep.inserted_step inserted
      (List.rel_of_pairwise_cons ordered List.mem_cons_self) condition.2 condition.1

/-- Two requests for the one token of a bucket that earns one a second, with a
balance query between them. -/
def polledRun (query second : UInt64) : List Marked :=
  [⟨.accept 0 1 1, false⟩, ⟨.tokensOf query 1, true⟩, ⟨.accept second 1 1, false⟩]

theorem verdicts_unaffected_by_polling_whole :
    verdicts.runKept kept (new 1 1) (polledRun 1000000000 1500000000) =
      verdicts.run (new 1 1) ((polledRun 1000000000 1500000000).filter kept) := by
  apply verdicts_unaffected_by_polling (fun _ => ⟨1, 1⟩) 1 1
  · decide
  · exact ⟨nofun, fun _ => by decide +kernel, nofun, trivial⟩
  · refine ⟨⟨rfl, ?_, ?_, ?_⟩, ⟨trivial, ?_, ?_, ?_⟩, ⟨rfl, ?_, ?_, ?_⟩, trivial⟩ <;> decide +kernel

/-- A query half a second after the bucket was emptied discards the half token
earned so far, and the request after another half second is turned away. -/
theorem polling_changes_verdict :
    Machine.Monotone readings 0 (polledRun 500000000 1000000000) ∧
      verdicts.runKept kept (new 1 1) (polledRun 500000000 1000000000) =
        [some true, some false] ∧
      verdicts.run (new 1 1) ((polledRun 500000000 1000000000).filter kept) =
        [some true, some true] := by
  decide +kernel

end RateLimiter

end Cosaci.State
