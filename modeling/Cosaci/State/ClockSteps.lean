import Cosaci.State.RateWindow

/-!
# Rate limiting under a clock that steps back

The deployed clock is wall time.  A call at an earlier reading credits nothing, but it
moves the last refill of the bucket back, so that the time since then is credited again
once the clock has returned.  This module compares a run with the run that has one more
call, made at an earlier reading: when the next call observes more tokens because of it,
and what keeps all later balances from growing.
-/

namespace Cosaci.State

open Foundation

namespace RateLimiter

/-! ## The balance a call observes -/

/-- The balance that a call finds after its refill. -/
def observed (limiter : RateLimiter) (call : Call) : UInt64 :=
  limiter.balanceAt call.tenant call.now (call.capacity limiter)

theorem observed_eq (limiter : RateLimiter) (call : Call) :
    limiter.observed call = ((limiter.asked call).refill call.now).tokens := by
  unfold observed balanceAt asked
  cases limiter.buckets.lookup call.tenant with
  | some bucket => rfl
  | none =>
      have full : (TokenBucket.new (call.capacity limiter) (call.refillPerSec limiter)
        call.now).tokens = call.capacity limiter := rfl
      exact (TokenBucket.tokens_refill_of_full call.now full).symm

/-- A query returns the balance it observes. -/
theorem tokensOf_eq_observed (limiter : RateLimiter) (now : UInt64) (tenant : TenantId) :
    (limiter.tokensOf now tenant).1 = limiter.observed (.tokensOf now tenant) := by
  unfold tokensOf observed balanceAt
  rw [Call.tenant]
  cases limiter.buckets.lookup tenant <;> rfl

/-- A request is decided by the balance it observes. -/
theorem step_verdict (limiter : RateLimiter) (call : Call) :
    (limiter.step call).1 =
      call.cost.map fun cost => decide (cost ≤ limiter.observed call) := by
  rcases own_step limiter call with ⟨query, -, answer, -⟩ | ⟨-, answer, -⟩
  · rw [answer, query]
    rfl
  · rw [answer, observed_eq]
    cases call.cost with
    | none => rfl
    | some cost =>
        refine congrArg some ?_
        rw [Bool.eq_iff_iff, decide_eq_true_iff]
        exact TokenBucket.tryConsume_eq_true_iff

/-- The balances that the calls of a run observe. -/
def balances : Machine RateLimiter Call UInt64 where
  step limiter call := (limiter.observed call, (limiter.step call).2)

/-! ## The next call -/

/-- The tokens that a call takes out of a balance. -/
def Call.charge (call : Call) (tokens : UInt64) : Nat :=
  if call.cost.getD 0 ≤ tokens then (call.cost.getD 0).toNat else 0

/-- A call inserted at an earlier reading gives the next one more tokens than it takes.
With a bucket at hand, the time since the inserted reading is credited again, and there
is room for it.  Without one, the inserted call opens a bucket that is larger than the one
the next call would have opened. -/
def Mints (limiter : RateLimiter) (inserted next : Call) : Prop :=
  match limiter.buckets.lookup inserted.tenant with
  | some bucket =>
      bucket.tokens.toNat +
          TokenBucket.credited bucket.refillPerSec bucket.lastRefillNs next.now <
        bucket.capacity.toNat ∧
      TokenBucket.credited bucket.refillPerSec bucket.lastRefillNs next.now +
          inserted.charge bucket.tokens <
        TokenBucket.credited bucket.refillPerSec inserted.now next.now
  | none =>
      inserted.cost ≠ none ∧
      (next.capacity limiter).toNat < (inserted.capacity limiter).toNat ∧
      (next.capacity limiter).toNat + inserted.charge (inserted.capacity limiter) <
        (inserted.capacity limiter).toNat +
          TokenBucket.credited (inserted.refillPerSec limiter) inserted.now next.now

instance (limiter : RateLimiter) (inserted next : Call) :
    Decidable (Mints limiter inserted next) := by
  unfold Mints
  split <;> infer_instance

/-- An attempt at a reading before the last refill credits nothing. -/
theorem tryConsume_behind (bucket : TokenBucket) (call : Call)
    (behind : call.now ≤ bucket.lastRefillNs) :
    (bucket.tryConsume (call.cost.getD 0) call.now).2.tokens.toNat + call.charge bucket.tokens =
      bucket.tokens.toNat := by
  have ordered := UInt64.le_iff_toNat_le.mp behind
  have bounded := UInt64.le_iff_toNat_le.mp bucket.bounded
  have idle : (bucket.refill call.now).tokens = bucket.tokens := by
    apply UInt64.toNat_inj.mp
    rw [TokenBucket.toNat_tokens_refill_eq, TokenBucket.credited, Nat.sub_eq_zero_of_le ordered,
      Nat.zero_mul, Nat.zero_div, Nat.zero_mod]
    omega
  have taken := (bucket.tryConsume_spec (call.cost.getD 0) call.now).2.2
  have verdict : (bucket.tryConsume (call.cost.getD 0) call.now).1 = true ↔
      call.cost.getD 0 ≤ bucket.tokens := by
    rw [TokenBucket.tryConsume_eq_true_iff, idle]
  rw [idle] at taken
  rw [Call.charge, ← taken]
  congr 1
  exact if_congr verdict.symm rfl rfl

variable {limiter : RateLimiter} {inserted next : Call}

theorem Call.capacity_step (call other : Call) (limiter : RateLimiter) :
    call.capacity (limiter.step other).2 = call.capacity limiter := by
  cases call with
  | accept now tenant cost => exact (limiter.defaults_step other).1
  | acceptWithConfig now tenant cost capacity refillPerSec => rfl
  | tokensOf now tenant => exact (limiter.defaults_step other).1

/-- The balance after an attempt behind the last refill. -/
private theorem observed_after_attempt
    (attempt : (limiter.step inserted).2.buckets.lookup inserted.tenant =
      some ((limiter.asked inserted).tryConsume (inserted.cost.getD 0) inserted.now).2)
    (same : next.tenant = inserted.tenant)
    (behind : inserted.now ≤ (limiter.asked inserted).lastRefillNs) :
    ((limiter.step inserted).2.observed next).toNat =
      min (limiter.asked inserted).capacity.toNat
        ((limiter.asked inserted).tokens.toNat -
          inserted.charge (limiter.asked inserted).tokens +
          TokenBucket.credited (limiter.asked inserted).refillPerSec inserted.now
            next.now) := by
  obtain ⟨restarted, capacity, -⟩ :=
    (limiter.asked inserted).tryConsume_spec (inserted.cost.getD 0) inserted.now
  have left := tryConsume_behind _ _ behind
  rw [observed, balanceAt, same, attempt]
  simp only
  rw [TokenBucket.toNat_tokens_refill_eq, restarted, capacity,
    TokenBucket.refillPerSec_tryConsume]
  omega

/-- The next call observes no more than without the inserted one exactly when that one does
not mint tokens. -/
theorem observed_next_le_iff (same : next.tenant = inserted.tenant)
    (behind : ∀ bucket, limiter.buckets.lookup inserted.tenant = some bucket →
      inserted.now ≤ bucket.lastRefillNs) :
    (limiter.step inserted).2.observed next ≤ limiter.observed next ↔
      ¬Mints limiter inserted next := by
  rw [UInt64.le_iff_toNat_le]
  cases found : limiter.buckets.lookup inserted.tenant with
  | some bucket =>
      have asked : limiter.asked inserted = bucket := by rw [RateLimiter.asked, found]; rfl
      have charged := tryConsume_behind bucket inserted (behind bucket found)
      rcases own_step limiter inserted with ⟨-, unseen, -, -⟩ | ⟨-, -, attempt⟩
      · rw [unseen] at found
        cases found
      · rw [observed_after_attempt attempt same (asked ▸ behind bucket found), asked, observed,
          balanceAt, same, found]
        simp only [Mints, found, TokenBucket.toNat_tokens_refill_eq]
        omega
  | none =>
      have opened : limiter.asked inserted =
          .new (inserted.capacity limiter) (inserted.refillPerSec limiter) inserted.now := by
        rw [RateLimiter.asked, found]
        rfl
      have unopened : limiter.observed next = next.capacity limiter := by
        rw [observed, balanceAt, same, found]
      rcases own_step limiter inserted with ⟨query, -, -, unchanged⟩ | ⟨present, -, attempt⟩
      · have still : (limiter.step inserted).2.observed next = next.capacity limiter := by
          rw [observed, balanceAt, same, unchanged, next.capacity_step]
        rw [still, unopened]
        simp [Mints, found, query]
      · have request : inserted.cost ≠ none := fun query => present query found
        have now : inserted.now ≤ (limiter.asked inserted).lastRefillNs := by
          rw [opened]
          exact UInt64.le_refl _
        have charged := tryConsume_behind _ _ now
        rw [observed_after_attempt attempt same now, unopened]
        rw [opened] at charged ⊢
        simp only [Mints, found, TokenBucket.new] at charged ⊢
        simp only [ne_eq, request, not_false_eq_true, true_and]
        omega

/-! ## All later calls -/

/-- A request that the tenant can afford only in the second state, and that leaves less
there than the first state has. -/
def Spares (left right : RateLimiter) (call : Call) : Prop :=
  ∃ cost, call.cost = some cost ∧ left.observed call < cost ∧ cost ≤ right.observed call ∧
    right.observed call - cost < left.observed call

/-- Buckets of one configuration and one last refill, the first with the smaller balance. -/
structure Dominated (lower upper : TokenBucket) : Prop where
  capacity : lower.capacity = upper.capacity
  refillPerSec : lower.refillPerSec = upper.refillPerSec
  lastRefillNs : lower.lastRefillNs = upper.lastRefillNs
  tokens : lower.tokens ≤ upper.tokens

/-- Buckets of one configuration, the first with the smaller balance at a reading. -/
structure DominatedAt (nowNs : UInt64) (lower upper : TokenBucket) : Prop where
  capacity : lower.capacity = upper.capacity
  refillPerSec : lower.refillPerSec = upper.refillPerSec
  tokens : (lower.refill nowNs).tokens ≤ (upper.refill nowNs).tokens

/-- The buckets of a tenant in two runs.  Only where every call names one configuration may
the bucket be missing in the second run. -/
inductive Below (capacity refillPerSec : UInt64) (single : Prop)
    (compare : TokenBucket → TokenBucket → Prop) :
    Option TokenBucket → Option TokenBucket → Prop
  | absent : Below capacity refillPerSec single compare none none
  | opened {bucket : TokenBucket} (uniform : single) (ownCapacity : bucket.capacity = capacity)
      (ownRefill : bucket.refillPerSec = refillPerSec) :
      Below capacity refillPerSec single compare (some bucket) none
  | present {lower upper : TokenBucket} (below : compare lower upper) :
      Below capacity refillPerSec single compare (some lower) (some upper)

/-- Two limiters of one configuration whose buckets of a tenant compare. -/
structure NotAhead (capacity refillPerSec : UInt64) (tenant : TenantId) (single : Prop)
    (compare : TokenBucket → TokenBucket → Prop) (left right : RateLimiter) : Prop where
  leftDefaults : left.defaultCapacity = capacity ∧ left.defaultRefillPerSec = refillPerSec
  rightDefaults : right.defaultCapacity = capacity ∧ right.defaultRefillPerSec = refillPerSec
  buckets : Below capacity refillPerSec single compare (left.buckets.lookup tenant)
    (right.buckets.lookup tenant)

variable {capacity refillPerSec : UInt64} {single : Prop} {left right : RateLimiter}
  {call : Call}

theorem Dominated.refill {lower upper : TokenBucket} (below : Dominated lower upper)
    (nowNs : UInt64) : DominatedAt nowNs lower upper := by
  have tokens := UInt64.le_iff_toNat_le.mp below.tokens
  refine ⟨below.capacity, below.refillPerSec, ?_⟩
  rw [UInt64.le_iff_toNat_le, TokenBucket.toNat_tokens_refill_eq,
    TokenBucket.toNat_tokens_refill_eq, below.capacity, below.refillPerSec, below.lastRefillNs]
  omega

variable {tenant : TenantId} {calls : List Call}

theorem NotAhead.refill (ahead : NotAhead capacity refillPerSec tenant single Dominated left right)
    (nowNs : UInt64) :
    NotAhead capacity refillPerSec tenant single (DominatedAt nowNs) left right := by
  refine ⟨ahead.leftDefaults, ahead.rightDefaults, ?_⟩
  have buckets := ahead.buckets
  generalize left.buckets.lookup tenant = lower at buckets ⊢
  generalize right.buckets.lookup tenant = upper at buckets ⊢
  cases buckets with
  | absent => exact .absent
  | opened uniform ownCapacity ownRefill => exact .opened uniform ownCapacity ownRefill
  | present below => exact .present (below.refill nowNs)

/-- After an attempt at one reading the smaller balance is still the smaller one, unless
only the larger one could pay and is now below. -/
theorem DominatedAt.tryConsume {lower upper : TokenBucket} {cost nowNs : UInt64}
    (below : DominatedAt nowNs lower upper)
    (together : ¬((lower.refill nowNs).tokens < cost ∧ cost ≤ (upper.refill nowNs).tokens ∧
      (upper.refill nowNs).tokens - cost < (lower.refill nowNs).tokens)) :
    Dominated (lower.tryConsume cost nowNs).2 (upper.tryConsume cost nowNs).2 := by
  obtain ⟨restarted, kept, taken⟩ := lower.tryConsume_spec cost nowNs
  obtain ⟨restarted', kept', taken'⟩ := upper.tryConsume_spec cost nowNs
  refine ⟨by rw [kept, kept', below.capacity], ?_, by rw [restarted, restarted'], ?_⟩
  · rw [TokenBucket.refillPerSec_tryConsume, TokenBucket.refillPerSec_tryConsume,
      below.refillPerSec]
  · have tokens := UInt64.le_iff_toNat_le.mp below.tokens
    rw [UInt64.le_iff_toNat_le]
    rw [if_congr TokenBucket.tryConsume_eq_true_iff rfl rfl] at taken taken'
    by_cases upperPays : cost ≤ (upper.refill nowNs).tokens
    · rw [if_pos upperPays] at taken'
      by_cases lowerPays : cost ≤ (lower.refill nowNs).tokens
      · rw [if_pos lowerPays] at taken
        omega
      · rw [if_neg lowerPays] at taken
        have rest : ¬(upper.refill nowNs).tokens - cost < (lower.refill nowNs).tokens :=
          fun less => together ⟨UInt64.not_le.mp lowerPays, upperPays, less⟩
        rw [UInt64.lt_iff_toNat_lt, UInt64.toNat_sub_of_le _ _ upperPays] at rest
        omega
    · have lowerPoor : ¬cost ≤ (lower.refill nowNs).tokens := by
        intro pays
        exact upperPays (UInt64.le_iff_toNat_le.mpr
          ((UInt64.le_iff_toNat_le.mp pays).trans tokens))
      rw [if_neg upperPays] at taken'
      rw [if_neg lowerPoor] at taken
      omega

/-- The buckets that a call asks in the two runs compare as well. -/
theorem NotAhead.asked
    (ahead : NotAhead capacity refillPerSec call.tenant single (DominatedAt call.now) left right)
    (configured : single → call.Configured capacity refillPerSec) :
    DominatedAt call.now (left.asked call) (right.asked call) := by
  rcases ahead with ⟨⟨rfl, rfl⟩, ⟨rightCapacity, rightRefill⟩, buckets⟩
  unfold RateLimiter.asked
  have sameCapacity : call.capacity left = call.capacity right := by
    cases call <;> first | rfl | exact rightCapacity.symm
  have sameRefill : call.refillPerSec left = call.refillPerSec right := by
    cases call <;> first | rfl | exact rightRefill.symm
  generalize left.buckets.lookup call.tenant = lower at buckets
  generalize right.buckets.lookup call.tenant = upper at buckets
  cases buckets with
  | absent =>
      refine ⟨sameCapacity, sameRefill, ?_⟩
      rw [sameCapacity, sameRefill]
      exact UInt64.le_refl _
  | @opened bucket uniform ownCapacity ownRefill =>
      obtain ⟨named, rate⟩ := (configured uniform).eq
      have capacity : bucket.capacity = call.capacity right := by
        rw [ownCapacity, ← named, sameCapacity]
      refine ⟨capacity, ?_, ?_⟩
      · exact ownRefill.trans (rate.symm.trans sameRefill)
      · have full : (TokenBucket.new (call.capacity right) (call.refillPerSec right)
          call.now).tokens = call.capacity right := rfl
        have bounded := (bucket.refill call.now).bounded
        have opening := TokenBucket.tokens_refill_of_full call.now full
        change (bucket.refill call.now).tokens ≤ bucket.capacity at bounded
        rw [capacity] at bounded
        exact bounded.trans_eq opening.symm
  | present below => exact below

/-- A call that does not spare, in terms of the buckets it asks; a query takes nothing. -/
theorem attempt_of_not_spares (together : ¬Spares left right call) :
    ¬(((left.asked call).refill call.now).tokens < call.cost.getD 0 ∧
      call.cost.getD 0 ≤ ((right.asked call).refill call.now).tokens ∧
      ((right.asked call).refill call.now).tokens - call.cost.getD 0 <
        ((left.asked call).refill call.now).tokens) := by
  rw [← observed_eq, ← observed_eq]
  rintro ⟨poor, pays, less⟩
  cases cost : call.cost with
  | none =>
      rw [cost] at poor
      exact absurd poor (UInt64.not_lt.mpr (UInt64.le_iff_toNat_le.mpr (Nat.zero_le _)))
  | some price =>
      rw [cost] at poor pays less
      exact together ⟨price, cost, poor, pays, less⟩

/-- One later call. -/
theorem NotAhead.step
    (ahead : NotAhead capacity refillPerSec call.tenant single (DominatedAt call.now) left right)
    (configured : single → call.Configured capacity refillPerSec)
    (together : ¬Spares left right call) :
    left.observed call ≤ right.observed call ∧
      NotAhead capacity refillPerSec call.tenant single Dominated (left.step call).2
        (right.step call).2 := by
  have below := ahead.asked configured
  refine ⟨by rw [observed_eq, observed_eq]; exact below.tokens, ?_⟩
  obtain ⟨leftCapacity, leftRefill⟩ := left.defaults_step call
  obtain ⟨rightCapacity, rightRefill⟩ := right.defaults_step call
  refine ⟨by rw [leftCapacity, leftRefill]; exact ahead.leftDefaults,
    by rw [rightCapacity, rightRefill]; exact ahead.rightDefaults, ?_⟩
  have buckets := ahead.buckets
  rcases own_step left call with ⟨query, unseen, -, next⟩ | ⟨present, -, next⟩
  · rcases own_step right call with ⟨-, -, -, next'⟩ | ⟨present', -, -⟩
    · rw [next, next']
      exact .absent
    · rw [unseen] at buckets
      generalize right.buckets.lookup call.tenant = upper at buckets present'
      cases buckets
      exact absurd rfl (present' query)
  · rcases own_step right call with ⟨query, unseen', -, next'⟩ | ⟨-, -, next'⟩
    · -- A query opens no bucket in the second run either.
      rw [unseen'] at buckets
      have found := present query
      unfold RateLimiter.asked at next
      generalize left.buckets.lookup call.tenant = lower at buckets found next
      cases buckets with
      | absent => exact absurd rfl found
      | opened uniform ownCapacity ownRefill =>
          rw [next, next']
          refine .opened uniform ?_ ?_
          · rw [(TokenBucket.tryConsume_spec _ _ _).2.1]
            exact ownCapacity
          · rw [TokenBucket.refillPerSec_tryConsume]
            exact ownRefill
    · rw [next, next']
      exact .present (below.tryConsume (attempt_of_not_spares together))

/-- The side condition of a later call: it is a call of the tenant, it names the one
configuration where that is required, and it does not spare. -/
def Harmless (tenant : TenantId) (capacity refillPerSec : UInt64) (single : Prop)
    (left right : RateLimiter) (call : Call) : Prop :=
  (call.tenant = tenant ∧ (single → call.Configured capacity refillPerSec)) ∧
    ¬Spares left right call

/-- Later calls never observe more than in the second run. -/
theorem NotAhead.run (ahead : NotAhead capacity refillPerSec tenant single Dominated left right)
    (harmless : balances.Along (fun _ => true)
      (Harmless tenant capacity refillPerSec single) left right calls) :
    List.Forall₂ (· ≤ ·) (balances.run left calls) (balances.run right calls) := by
  refine Machine.run_forall₂ (NotAhead capacity refillPerSec tenant single Dominated) ?_
    harmless ahead
  rintro left right call ⟨⟨rfl, configured⟩, together⟩ ahead
  exact (ahead.refill call.now).step configured together

/-- Calls of the tenant are harmless along a run in which none spares, if all of them name
the one configuration where that is required. -/
theorem harmless_of_own (own : ∀ call ∈ calls, call.tenant = tenant)
    (uniform : single → ∀ call ∈ calls, call.Configured capacity refillPerSec)
    (spared : balances.Along (fun _ => true) (fun left right call => ¬Spares left right call)
      left right calls) :
    balances.Along (fun _ => true) (Harmless tenant capacity refillPerSec single)
      left right calls := by
  have fixed : balances.Along (fun _ => true) (fun _ _ call => call.tenant = tenant ∧
      (single → call.Configured capacity refillPerSec)) left right calls := by
    refine balances.along_of_forall (fun call member _ _ => ?_) _ _
    exact ⟨own call member, fun one => uniform one call member⟩
  exact fixed.and spared

/-- A call sets the last refill of its tenant's bucket to its reading. -/
theorem lastRefillNs_step (limiter : RateLimiter) (call : Call) {bucket : TokenBucket}
    (found : (limiter.step call).2.buckets.lookup call.tenant = some bucket) :
    bucket.lastRefillNs = call.now := by
  rcases own_step limiter call with ⟨-, -, -, next⟩ | ⟨-, -, next⟩
  · rw [next] at found
    cases found
  · rw [next, Option.some.injEq] at found
    rw [← found]
    exact (TokenBucket.tryConsume_spec _ _ _).1

/-- After a run the bucket of the last call's tenant was last refilled at its reading. -/
theorem lastRefillNs_final {last : Call} {bucket : TokenBucket}
    (found : (machine.final limiter (calls ++ [last])).buckets.lookup last.tenant = some bucket) :
    bucket.lastRefillNs = last.now := by
  rw [machine.final_concat] at found
  exact lastRefillNs_step _ _ found

/-- A run keeps the default configuration. -/
theorem defaults_final (capacity refillPerSec : UInt64) (calls : List Call) :
    (machine.final (.new capacity refillPerSec) calls).defaultCapacity = capacity ∧
      (machine.final (.new capacity refillPerSec) calls).defaultRefillPerSec = refillPerSec := by
  refine machine.final_of_step (fun limiter => limiter.defaultCapacity = capacity ∧
    limiter.defaultRefillPerSec = refillPerSec) ?_ ⟨rfl, rfl⟩ calls
  rintro limiter call ⟨ownCapacity, ownRefill⟩
  rw [← ownCapacity, ← ownRefill]
  exact limiter.defaults_step call

/-- An inserted call that mints nothing leaves the tenant not ahead at the next call. -/
theorem notAhead_inserted (same : next.tenant = inserted.tenant)
    (behind : ∀ bucket, limiter.buckets.lookup inserted.tenant = some bucket →
      inserted.now ≤ bucket.lastRefillNs)
    (honest : ¬Mints limiter inserted next)
    (uniform : limiter.buckets.lookup inserted.tenant = none → inserted.cost ≠ none →
      single ∧ inserted.Configured limiter.defaultCapacity limiter.defaultRefillPerSec) :
    NotAhead limiter.defaultCapacity limiter.defaultRefillPerSec inserted.tenant single
      (DominatedAt next.now) (limiter.step inserted).2 limiter := by
  refine ⟨limiter.defaults_step inserted, ⟨rfl, rfl⟩, ?_⟩
  have below := (observed_next_le_iff same behind).mpr honest
  rcases own_step limiter inserted with ⟨-, unseen, -, next'⟩ | ⟨present, -, next'⟩
  · rw [unseen, next']
    exact .absent
  · obtain ⟨-, kept, -⟩ :=
      (limiter.asked inserted).tryConsume_spec (inserted.cost.getD 0) inserted.now
    have rate := (limiter.asked inserted).refillPerSec_tryConsume (inserted.cost.getD 0)
      inserted.now
    rw [observed, observed, balanceAt, balanceAt, same, next'] at below
    rw [next']
    unfold RateLimiter.asked at kept rate below ⊢
    cases found : limiter.buckets.lookup inserted.tenant with
    | some bucket =>
        rw [found] at kept rate below
        exact .present ⟨kept, rate, below⟩
    | none =>
        rw [found] at kept rate
        obtain ⟨single, configured⟩ := uniform found fun query => present query found
        obtain ⟨capacity, refillPerSec⟩ := configured.eq
        exact .opened single (kept.trans capacity) (rate.trans refillPerSec)

/-- A call inserted behind the previous reading.  The next call observes a larger balance
exactly when the inserted one mints tokens.  If it does not, no later call observes a
larger one either, as long as no request is affordable only without the inserted call and
leaves less behind there, and one configuration is named where the inserted call opens the
bucket. -/
theorem inserted_call_balances (capacity refillPerSec : UInt64) (tenant : TenantId)
    (before : List Call) (previous inserted next : Call) (later : List Call)
    (own : ∀ call ∈ previous :: inserted :: next :: later, call.tenant = tenant)
    (behind : inserted.now < previous.now) :
    let limiter := machine.final (.new capacity refillPerSec) (before ++ [previous])
    ((limiter.step inserted).2.observed next ≤ limiter.observed next ↔
        ¬Mints limiter inserted next) ∧
      (¬Mints limiter inserted next →
        balances.Along (fun _ => true) (fun left right call => ¬Spares left right call)
          (limiter.step inserted).2 limiter (next :: later) →
        (limiter.buckets.lookup tenant = none → inserted.cost ≠ none →
          ∀ call ∈ inserted :: next :: later, call.Configured capacity refillPerSec) →
        List.Forall₂ (· ≤ ·) (balances.run (limiter.step inserted).2 (next :: later))
          (balances.run limiter (next :: later))) := by
  intro limiter
  have previousOwn : previous.tenant = tenant := own _ (by simp)
  have insertedOwn : inserted.tenant = tenant := own _ (by simp)
  have nextOwn : next.tenant = tenant := own _ (by simp)
  have laterOwn : ∀ call ∈ next :: later, call.tenant = next.tenant := by
    intro call member
    exact (own call (by simp [List.mem_cons.mp member])).trans nextOwn.symm
  subst insertedOwn
  obtain ⟨ownCapacity, ownRefill⟩ : limiter.defaultCapacity = capacity ∧
    limiter.defaultRefillPerSec = refillPerSec := defaults_final capacity refillPerSec _
  have refilled : ∀ bucket, limiter.buckets.lookup inserted.tenant = some bucket →
      inserted.now ≤ bucket.lastRefillNs := by
    intro bucket found
    rw [← previousOwn] at found
    rw [lastRefillNs_final found]
    exact UInt64.le_of_lt behind
  refine ⟨observed_next_le_iff nextOwn refilled, ?_⟩
  intro honest spared uniform
  have ahead := notAhead_inserted nextOwn refilled honest fun unseen request =>
    have configured := uniform unseen request
    ⟨configured, by rw [ownCapacity, ownRefill]; exact configured _ (by simp)⟩
  rw [ownCapacity, ownRefill, ← nextOwn] at ahead
  have tail : (∀ call ∈ inserted :: next :: later, call.Configured capacity refillPerSec) →
      ∀ call ∈ next :: later, call.Configured capacity refillPerSec :=
    fun all call member => all call (List.mem_cons_of_mem _ member)
  obtain ⟨now, rest⟩ := harmless_of_own laterOwn tail spared
  obtain ⟨here, after⟩ := ahead.step now.1.2 now.2
  exact .cons here (after.run rest)

/-- A request whose reading is five seconds back takes the five tokens that it makes the
bucket earn again. -/
theorem inserted_call_balances_paid :
    (5000000000 : UInt64) < 10000000000 ∧
      List.Forall₂ (· ≤ ·)
        (balances.run (machine.final (.new 10 1) ([] ++ [.accept 10000000000 1 5]) |>.step
          (.accept 5000000000 1 5)).2 [.tokensOf 10000000000 1, .accept 11000000000 1 2])
        (balances.run (machine.final (.new 10 1) ([] ++ [.accept 10000000000 1 5]))
          [.tokensOf 10000000000 1, .accept 11000000000 1 2]) := by
  refine ⟨by decide, ?_⟩
  refine (inserted_call_balances 10 1 1 [] (.accept 10000000000 1 5) (.accept 5000000000 1 5)
    (.tokensOf 10000000000 1) [.accept 11000000000 1 2] (by decide) (by decide)).2
    (by decide +kernel) ?_ (by decide)
  refine ⟨?_, ?_, trivial⟩
  · rintro ⟨cost, request, -⟩
    cases request
  · rintro ⟨cost, request, poor, -, -⟩
    cases request
    exact absurd poor (by decide +kernel)

/-- An emptied bucket.  A query with a reading five seconds back makes the next query see
five tokens instead of none.  And where an inserted request is paid for, a later one that
is refused because of it can leave more tokens than it would have left. -/
theorem inserted_call_mints :
    balances.run (.new 10 1) [.accept 10000000000 1 10, .tokensOf 10000000000 1] = [10, 0] ∧
      balances.run (.new 10 1)
        [.accept 10000000000 1 10, .tokensOf 5000000000 1, .tokensOf 10000000000 1] =
          [10, 0, 5] ∧
      balances.run (.new 10 1) [.accept 10000000000 1 0, .accept 10000000000 1 8,
        .tokensOf 10000000000 1] = [10, 10, 2] ∧
      balances.run (.new 10 1) [.accept 10000000000 1 0, .accept 9999999999 1 3,
        .accept 10000000000 1 8, .tokensOf 10000000000 1] = [10, 10, 7, 7] := by
  decide +kernel

end RateLimiter

end Cosaci.State
