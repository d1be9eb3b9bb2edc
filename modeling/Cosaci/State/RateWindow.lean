import Cosaci.State.RateLimit

/-!
# What a token bucket lets through

A refill computes the earned tokens exactly and then casts them to 64 bits before the
capacity is applied.  The cast only ever drops tokens, so what a tenant is admitted within
any window of time stays below the capacity and what the window earns; but a bucket can
lose tokens by waiting.
-/

namespace Cosaci.State

open Foundation

namespace TokenBucket

/-! ## The refilled balance -/

/-- The balance that `refill` computes, for fields of any value. -/
def refilled (tokens capacity refillPerSec lastRefillNs nowNs : UInt64) : UInt64 :=
  let elapsedNs := saturatingSub nowNs lastRefillNs
  let newTokens := truncate (elapsedNs.toNat * refillPerSec.toNat / nanosPerSec)
  min (saturatingAdd tokens newTokens) capacity

theorem tokens_refill (bucket : TokenBucket) (nowNs : UInt64) :
    (bucket.refill nowNs).tokens =
      refilled bucket.tokens bucket.capacity bucket.refillPerSec bucket.lastRefillNs nowNs :=
  rfl

theorem toNat_refilled (tokens capacity refillPerSec lastRefillNs nowNs : UInt64) :
    (refilled tokens capacity refillPerSec lastRefillNs nowNs).toNat =
      min capacity.toNat (tokens.toNat + credited refillPerSec lastRefillNs nowNs) := by
  have capacityBound := toNat_le_maxWord capacity
  simp only [refilled, credited, toNat_min, toNat_saturatingAdd, toNat_saturatingSub,
    toNat_truncate]
  omega

/-- The tokens earned between two readings, in unbounded integers. -/
def earnedBetween (refillPerSec since nowNs : UInt64) : Nat :=
  (nowNs.toNat - since.toNat) * refillPerSec.toNat / nanosPerSec

theorem earnedBetween_mono {refillPerSec since earlier later : UInt64}
    (ordered : earlier ≤ later) :
    earnedBetween refillPerSec since earlier ≤ earnedBetween refillPerSec since later := by
  have readings := UInt64.le_iff_toNat_le.mp ordered
  apply Nat.div_le_div_right
  exact Nat.mul_le_mul_right _ (by omega)

/-- The balance that a refill should give. -/
def exactBalance (tokens capacity refillPerSec lastRefillNs nowNs : UInt64) : Nat :=
  min capacity.toNat (tokens.toNat + earnedBetween refillPerSec lastRefillNs nowNs)

/-- The cast only ever drops tokens. -/
theorem toNat_refilled_le (tokens capacity refillPerSec lastRefillNs nowNs : UInt64) :
    (refilled tokens capacity refillPerSec lastRefillNs nowNs).toNat ≤
      exactBalance tokens capacity refillPerSec lastRefillNs nowNs := by
  have dropped := Nat.mod_le (earnedBetween refillPerSec lastRefillNs nowNs) (2 ^ 64)
  rw [toNat_refilled, exactBalance, credited, ← earnedBetween]
  omega

/-- What the cast leaves is enough: nothing was dropped, or the rest still fills the
bucket. -/
theorem toNat_refilled_eq_iff (tokens capacity refillPerSec lastRefillNs nowNs : UInt64) :
    (refilled tokens capacity refillPerSec lastRefillNs nowNs).toNat =
        exactBalance tokens capacity refillPerSec lastRefillNs nowNs ↔
      earnedBetween refillPerSec lastRefillNs nowNs < 2 ^ 64 ∨
        capacity.toNat ≤
          tokens.toNat + earnedBetween refillPerSec lastRefillNs nowNs % 2 ^ 64 := by
  have capacityBound := capacity.toNat_lt
  rw [toNat_refilled, exactBalance, credited, ← earnedBetween]
  omega

/-- No earlier reading gives more than an exact balance. -/
theorem refilled_le_of_exact {tokens capacity refillPerSec lastRefillNs earlier nowNs : UInt64}
    (equal : (refilled tokens capacity refillPerSec lastRefillNs nowNs).toNat =
      exactBalance tokens capacity refillPerSec lastRefillNs nowNs) (ordered : earlier ≤ nowNs) :
    refilled tokens capacity refillPerSec lastRefillNs earlier ≤
      refilled tokens capacity refillPerSec lastRefillNs nowNs := by
  have below := toNat_refilled_le tokens capacity refillPerSec lastRefillNs earlier
  have growth : earnedBetween refillPerSec lastRefillNs earlier ≤
    earnedBetween refillPerSec lastRefillNs nowNs := earnedBetween_mono ordered
  rw [UInt64.le_iff_toNat_le, equal]
  unfold exactBalance at below ⊢
  omega

/-- A refill is exact, and no earlier reading would have given more, exactly when less
than a word of tokens was earned or the part that the cast keeps fills the bucket. -/
theorem refill_exact_iff (tokens capacity refillPerSec lastRefillNs nowNs : UInt64) :
    (∀ bucket : TokenBucket, (bucket.refill nowNs).tokens =
      refilled bucket.tokens bucket.capacity bucket.refillPerSec bucket.lastRefillNs nowNs) ∧
    (((refilled tokens capacity refillPerSec lastRefillNs nowNs).toNat =
          min capacity.toNat (tokens.toNat +
            (nowNs.toNat - lastRefillNs.toNat) * refillPerSec.toNat / nanosPerSec) ∧
        ∀ earlier ≤ nowNs, refilled tokens capacity refillPerSec lastRefillNs earlier ≤
          refilled tokens capacity refillPerSec lastRefillNs nowNs) ↔
      (nowNs.toNat - lastRefillNs.toNat) * refillPerSec.toNat / nanosPerSec < 2 ^ 64 ∨
        capacity.toNat ≤ tokens.toNat +
          (nowNs.toNat - lastRefillNs.toNat) * refillPerSec.toNat / nanosPerSec % 2 ^ 64) := by
  refine ⟨fun bucket => bucket.tokens_refill nowNs, ?_⟩
  have exactly := toNat_refilled_eq_iff tokens capacity refillPerSec lastRefillNs nowNs
  constructor
  · rintro ⟨equal, -⟩
    exact exactly.mp equal
  · intro enough
    have equal := exactly.mpr enough
    exact ⟨equal, fun earlier ordered => refilled_le_of_exact equal ordered⟩

/-- A bucket that earns a full word of tokens a second: an emptied one is full again after
a second, and nearly empty a nanosecond later. -/
theorem refill_drops_word :
    (refilled 0 18446744073709551615 18446744073709551615 0 1000000000).toNat =
        18446744073709551615 ∧
      (refilled 0 18446744073709551615 18446744073709551615 0 1000000001).toNat =
        18446744072 ∧
      min 18446744073709551615 (0 + (1000000001 - 0) * 18446744073709551615 / nanosPerSec) =
        18446744073709551615 := by
  decide +kernel

end TokenBucket

namespace RateLimiter

/-! ## One call -/

namespace Call

/-- The capacity a bucket gets that is opened by a call. -/
def capacity (limiter : RateLimiter) : Call → UInt64
  | .acceptWithConfig _ _ _ capacity _ => capacity
  | _ => limiter.defaultCapacity

/-- The refill rate a bucket gets that is opened by a call. -/
def refillPerSec (limiter : RateLimiter) : Call → UInt64
  | .acceptWithConfig _ _ _ _ refillPerSec => refillPerSec
  | _ => limiter.defaultRefillPerSec

/-- The call names no other configuration than the given one. -/
def Configured (capacity refillPerSec : UInt64) : Call → Prop
  | .acceptWithConfig _ _ _ ownCapacity ownRefill =>
      ownCapacity = capacity ∧ ownRefill = refillPerSec
  | _ => True

instance (capacity refillPerSec : UInt64) :
    (call : Call) → Decidable (call.Configured capacity refillPerSec)
  | .accept _ _ _ => inferInstanceAs (Decidable True)
  | .acceptWithConfig _ _ _ _ _ => inferInstanceAs (Decidable (_ ∧ _))
  | .tokensOf _ _ => inferInstanceAs (Decidable True)

def readings (call : Call) : List UInt64 := [call.now]

end Call

/-- The bucket that a request asks for tokens. -/
def asked (limiter : RateLimiter) (call : Call) : TokenBucket :=
  (limiter.buckets.lookup call.tenant).getD
    (.new (call.capacity limiter) (call.refillPerSec limiter) call.now)

/-- What a call does to its tenant's bucket: a query of a tenant without one does nothing,
and any other call is an attempt to take its cost, which is zero for a query. -/
inductive Own (limiter : RateLimiter) (call : Call) (verdict : Option Bool)
    (next : RateLimiter) : Prop
  | absent (query : call.cost = none) (unseen : limiter.buckets.lookup call.tenant = none)
      (answer : verdict = none) (bucket : next.buckets.lookup call.tenant = none)
  | attempt (present : call.cost = none → limiter.buckets.lookup call.tenant ≠ none)
      (answer : verdict = call.cost.map fun _ =>
        ((limiter.asked call).tryConsume (call.cost.getD 0) call.now).1)
      (bucket : next.buckets.lookup call.tenant =
        some ((limiter.asked call).tryConsume (call.cost.getD 0) call.now).2)

theorem own_step (limiter : RateLimiter) (call : Call) :
    Own limiter call (limiter.step call).1 (limiter.step call).2 := by
  cases call with
  | accept now tenant cost =>
      exact .attempt nofun rfl ((lookup_acceptWithConfig _ _ _ _ _ _ _).trans (if_pos rfl))
  | acceptWithConfig now tenant cost capacity refillPerSec =>
      exact .attempt nofun rfl ((lookup_acceptWithConfig _ _ _ _ _ _ _).trans (if_pos rfl))
  | tokensOf now tenant =>
      have next := (lookup_tokensOf limiter now tenant tenant).trans (if_pos rfl)
      cases found : limiter.buckets.lookup tenant with
      | none =>
          rw [found] at next
          exact .absent rfl found rfl next
      | some bucket =>
          rw [found] at next
          refine .attempt (fun _ => ?_) rfl ?_
          · rw [Call.tenant, found]
            exact Option.some_ne_none bucket
          · rw [asked, Call.tenant, found]
            refine next.trans ?_
            exact congrArg some (congrArg Prod.snd (bucket.tryConsume_zero now)).symm

/-! ## Windows of time -/

/-- The verdicts of a run of calls. -/
def machine : Machine RateLimiter Call (Option Bool) where
  step := step

/-- A reading within a window, both ends included. -/
def Within (opens closes : Nat) (nowNs : UInt64) : Prop :=
  opens ≤ nowNs.toNat ∧ nowNs.toNat ≤ closes

instance (opens closes : Nat) (nowNs : UInt64) : Decidable (Within opens closes nowNs) :=
  inferInstanceAs (Decidable (_ ∧ _))

/-- The cost that counts for a window: that of an admitted request of the tenant. -/
def counted (tenant : TenantId) (opens closes : Nat) (call : Call) (verdict : Option Bool) :
    Option UInt64 :=
  if verdict = some true ∧ call.tenant = tenant ∧ Within opens closes call.now then call.cost
  else none

/-- The total cost that a tenant is admitted within a window of a run. -/
def admittedCost (tenant : TenantId) (opens closes : Nat) (limiter : RateLimiter)
    (calls : List Call) : Nat :=
  ((machine.observe (counted tenant opens closes) limiter calls).map UInt64.toNat).sum

end RateLimiter

namespace TokenBucket

/-- What a bucket can still pay for within a window, in billionths of a token: before the
window opens nothing is known of its balance, and after it has closed nothing is paid. -/
def payable (opens closes : Nat) (bucket : TokenBucket) : Nat :=
  if bucket.lastRefillNs.toNat < opens then
    bucket.capacity.toNat * nanosPerSec + bucket.refillPerSec.toNat * (closes - opens)
  else if closes < bucket.lastRefillNs.toNat then
    0
  else
    bucket.tokens.toNat * nanosPerSec +
      bucket.refillPerSec.toNat * (closes - bucket.lastRefillNs.toNat)

theorem payable_le (opens closes : Nat) (bucket : TokenBucket) :
    bucket.payable opens closes ≤
      bucket.capacity.toNat * nanosPerSec + bucket.refillPerSec.toNat * (closes - opens) := by
  have bounded := UInt64.le_iff_toNat_le.mp bucket.bounded
  unfold payable
  split
  · exact Nat.le_refl _
  · split
    · exact Nat.zero_le _
    · exact Nat.add_le_add (Nat.mul_le_mul_right _ bounded)
        (Nat.mul_le_mul_left _ (by omega))

/-- Within the window, the balance and what is still to be earned have been accounted for. -/
theorem refill_payable_le {opens closes : Nat} {bucket : TokenBucket} {nowNs : UInt64}
    (later : bucket.lastRefillNs ≤ nowNs) (within : RateLimiter.Within opens closes nowNs) :
    (bucket.refill nowNs).tokens.toNat * nanosPerSec +
        bucket.refillPerSec.toNat * (closes - nowNs.toNat) ≤ bucket.payable opens closes := by
  have ordered := UInt64.le_iff_toNat_le.mp later
  have capped := UInt64.le_iff_toNat_le.mp (bucket.refill nowNs).bounded
  rcases within with ⟨opened, ongoing⟩
  unfold payable
  split
  · exact Nat.add_le_add (Nat.mul_le_mul_right _ capped) (Nat.mul_le_mul_left _ (by omega))
  · rw [if_neg (by omega)]
    have remaining : closes - bucket.lastRefillNs.toNat =
        (nowNs.toNat - bucket.lastRefillNs.toNat) + (closes - nowNs.toNat) := by omega
    rw [remaining, Nat.mul_add, ← Nat.add_assoc]
    exact Nat.add_le_add_right (bucket.tokens_refill_scaled_le nowNs) _

/-- An attempt is paid out of what the bucket could pay. -/
theorem tryConsume_payable_le {opens closes : Nat} {bucket : TokenBucket} {cost nowNs : UInt64}
    (later : bucket.lastRefillNs ≤ nowNs) :
    (if (bucket.tryConsume cost nowNs).1 = true ∧ RateLimiter.Within opens closes nowNs then
        cost.toNat else 0) * nanosPerSec +
      (bucket.tryConsume cost nowNs).2.payable opens closes ≤ bucket.payable opens closes := by
  obtain ⟨restarted, sameCapacity, taken⟩ := bucket.tryConsume_spec cost nowNs
  have sameRefill := bucket.refillPerSec_tryConsume cost nowNs
  have ordered := UInt64.le_iff_toNat_le.mp later
  by_cases within : RateLimiter.Within opens closes nowNs
  · have paid := refill_payable_le later within
    have next : (bucket.tryConsume cost nowNs).2.payable opens closes =
        (bucket.tryConsume cost nowNs).2.tokens.toNat * nanosPerSec +
          bucket.refillPerSec.toNat * (closes - nowNs.toNat) := by
      rcases within with ⟨opened, ongoing⟩
      rw [payable, restarted, if_neg (by omega), if_neg (by omega), sameRefill]
    simp only [within, and_true]
    rw [next, ← Nat.add_assoc, ← Nat.add_mul, Nat.add_comm _ (TokenBucket.tokens _).toNat, taken]
    exact paid
  · rw [if_neg (fun both => within both.2), Nat.zero_mul, Nat.zero_add]
    unfold payable
    rw [restarted, sameCapacity, sameRefill]
    -- Outside the window the bucket has either nothing to pay any more or the same as before.
    by_cases early : nowNs.toNat < opens
    · rw [if_pos early, if_pos (by omega)]
    · have closed : closes < nowNs.toNat := by
        by_contra ongoing
        exact within ⟨by omega, by omega⟩
      rw [if_neg early, if_pos closed]
      exact Nat.zero_le _

end TokenBucket

namespace RateLimiter

/-- The tenant's bucket, if there is one, has the default configuration and was last
refilled by `start`. -/
def Regular (tenant : TenantId) (start : UInt64) (limiter : RateLimiter) : Prop :=
  ∀ bucket, limiter.buckets.lookup tenant = some bucket →
    bucket.capacity = limiter.defaultCapacity ∧
      bucket.refillPerSec = limiter.defaultRefillPerSec ∧ bucket.lastRefillNs ≤ start

/-- What a tenant can still be admitted within a window, in billionths of a token. -/
def payable (tenant : TenantId) (opens closes : Nat) (limiter : RateLimiter) : Nat :=
  match limiter.buckets.lookup tenant with
  | some bucket => bucket.payable opens closes
  | none =>
      limiter.defaultCapacity.toNat * nanosPerSec +
        limiter.defaultRefillPerSec.toNat * (closes - opens)

theorem Call.Configured.eq {limiter : RateLimiter} {call : Call}
    (configured : call.Configured limiter.defaultCapacity limiter.defaultRefillPerSec) :
    call.capacity limiter = limiter.defaultCapacity ∧
      call.refillPerSec limiter = limiter.defaultRefillPerSec := by
  cases call with
  | accept now tenant cost => exact ⟨rfl, rfl⟩
  | acceptWithConfig now tenant cost capacity refillPerSec => exact configured
  | tokensOf now tenant => exact ⟨rfl, rfl⟩

variable {limiter : RateLimiter} {call : Call} {start : UInt64}

/-- The bucket that is asked has the default configuration and can pay no more than was
accounted for. -/
theorem Regular.asked (regular : Regular call.tenant start limiter)
    (configured : call.Configured limiter.defaultCapacity limiter.defaultRefillPerSec)
    (later : start ≤ call.now) (opens closes : Nat) :
    (limiter.asked call).capacity = limiter.defaultCapacity ∧
      (limiter.asked call).refillPerSec = limiter.defaultRefillPerSec ∧
      (limiter.asked call).lastRefillNs ≤ call.now ∧
      (limiter.asked call).payable opens closes ≤ limiter.payable call.tenant opens closes := by
  unfold RateLimiter.asked payable
  cases found : limiter.buckets.lookup call.tenant with
  | some bucket =>
      obtain ⟨capacity, refillPerSec, refilled⟩ := regular bucket found
      exact ⟨capacity, refillPerSec, UInt64.le_trans refilled later, Nat.le_refl _⟩
  | none =>
      obtain ⟨capacity, refillPerSec⟩ := configured.eq
      refine ⟨capacity, refillPerSec, UInt64.le_refl _, ?_⟩
      have bound := (TokenBucket.new (call.capacity limiter) (call.refillPerSec limiter)
        call.now).payable_le opens closes
      rw [capacity, refillPerSec] at bound
      rwa [capacity, refillPerSec]

/-- The cost that a call contributes to a window. -/
def contribution (tenant : TenantId) (opens closes : Nat) (limiter : RateLimiter)
    (call : Call) : Nat :=
  ((counted tenant opens closes call (limiter.step call).1).getD 0).toNat

theorem admittedCost_cons (tenant : TenantId) (opens closes : Nat) (limiter : RateLimiter)
    (call : Call) (rest : List Call) :
    admittedCost tenant opens closes limiter (call :: rest) =
      contribution tenant opens closes limiter call +
        admittedCost tenant opens closes (limiter.step call).2 rest := by
  rw [admittedCost, Machine.observe_cons, List.map_append, List.sum_append]
  congr 1
  change _ = ((counted tenant opens closes call (limiter.step call).1).getD 0).toNat
  change ((counted tenant opens closes call (limiter.step call).1).toList.map _).sum = _
  cases counted tenant opens closes call (limiter.step call).1 <;> rfl

/-- A call keeps the account of its tenant: what it is admitted is no longer payable. -/
theorem Regular.step_own (regular : Regular call.tenant start limiter)
    (configured : call.Configured limiter.defaultCapacity limiter.defaultRefillPerSec)
    (later : start ≤ call.now) (opens closes : Nat) :
    Regular call.tenant call.now (limiter.step call).2 ∧
      contribution call.tenant opens closes limiter call * nanosPerSec +
          (limiter.step call).2.payable call.tenant opens closes ≤
        limiter.payable call.tenant opens closes := by
  obtain ⟨sameCapacity, sameRefill⟩ := limiter.defaults_step call
  rcases own_step limiter call with ⟨query, unseen, answer, next⟩ | ⟨_, answer, next⟩
  · refine ⟨fun bucket found => ?_, ?_⟩
    · rw [next] at found
      cases found
    · have free : contribution call.tenant opens closes limiter call = 0 := by
        rw [contribution, counted, answer]
        rfl
      rw [free, payable, payable, unseen, next, sameCapacity, sameRefill, Nat.zero_mul,
        Nat.zero_add]
  · obtain ⟨capacity, refillPerSec, refilled, before⟩ :=
      regular.asked configured later opens closes
    obtain ⟨restarted, kept, -⟩ :=
      (limiter.asked call).tryConsume_spec (call.cost.getD 0) call.now
    refine ⟨fun bucket found => ?_, ?_⟩
    · rw [next, Option.some.injEq] at found
      subst found
      rw [sameCapacity, sameRefill, restarted, kept, TokenBucket.refillPerSec_tryConsume]
      exact ⟨capacity, refillPerSec, UInt64.le_refl _⟩
    · have paid : contribution call.tenant opens closes limiter call =
          if ((limiter.asked call).tryConsume (call.cost.getD 0) call.now).1 = true ∧
            Within opens closes call.now then (call.cost.getD 0).toNat else 0 := by
        rw [contribution, counted, answer]
        cases call.cost with
        | none => simp
        | some cost =>
            simp only [Option.map_some, Option.some.injEq, true_and]
            exact apply_ite (fun found : Option UInt64 => (found.getD 0).toNat) _ _ _
      rw [paid, payable, next]
      exact (TokenBucket.tryConsume_payable_le refilled).trans before

/-- A call of another tenant does not touch the account. -/
theorem Regular.step_other {tenant : TenantId} (regular : Regular tenant start limiter)
    (other : call.tenant ≠ tenant) (later : start ≤ call.now) (opens closes : Nat) :
    Regular tenant call.now (limiter.step call).2 ∧
      contribution tenant opens closes limiter call = 0 ∧
      (limiter.step call).2.payable tenant opens closes =
        limiter.payable tenant opens closes := by
  obtain ⟨sameCapacity, sameRefill⟩ := limiter.defaults_step call
  have untouched : (limiter.step call).2.buckets.lookup tenant =
      limiter.buckets.lookup tenant := lookup_step_of_ne (Ne.symm other)
  refine ⟨fun bucket found => ?_, ?_, ?_⟩
  · rw [untouched] at found
    rw [sameCapacity, sameRefill]
    obtain ⟨capacity, refillPerSec, refilled⟩ := regular bucket found
    exact ⟨capacity, refillPerSec, UInt64.le_trans refilled later⟩
  · rw [contribution, counted, if_neg (fun all => other all.2.1)]
    rfl
  · rw [payable, payable, untouched, sameCapacity, sameRefill]

/-- The tenant's account over a whole run. -/
theorem Regular.admittedCost_le {tenant : TenantId} (regular : Regular tenant start limiter)
    {calls : List Call} (monotone : Machine.Monotone Call.readings start calls)
    (configured : ∀ call ∈ calls, call.tenant = tenant →
      call.Configured limiter.defaultCapacity limiter.defaultRefillPerSec)
    (opens closes : Nat) :
    admittedCost tenant opens closes limiter calls * nanosPerSec ≤
      limiter.payable tenant opens closes := by
  induction calls generalizing limiter start with
  | nil => exact (Nat.zero_mul _).le.trans (Nat.zero_le _)
  | cons call rest ih =>
      have later : start ≤ call.now :=
        List.rel_of_pairwise_cons monotone.head (List.mem_singleton_self call.now)
      have remaining : ∀ other ∈ rest, other.tenant = tenant →
          other.Configured (limiter.step call).2.defaultCapacity
            (limiter.step call).2.defaultRefillPerSec := by
        rw [(limiter.defaults_step call).1, (limiter.defaults_step call).2]
        exact fun other member => configured other (List.mem_cons_of_mem _ member)
      rw [admittedCost_cons, Nat.add_mul]
      by_cases own : call.tenant = tenant
      · subst own
        obtain ⟨next, account⟩ :=
          regular.step_own (configured call List.mem_cons_self rfl) later opens closes
        exact (Nat.add_le_add_left (ih next monotone.tail remaining) _).trans account
      · obtain ⟨next, free, same⟩ := regular.step_other own later opens closes
        rw [free, Nat.zero_mul, Nat.zero_add, ← same]
        exact ih next monotone.tail remaining

/-- Under a monotone clock a tenant is admitted, in any window of a run, no more than the
capacity and what the rate earns in that time. -/
theorem admittedCost_le_window (capacity refillPerSec : UInt64) (tenant : TenantId)
    (calls : List Call) (monotone : Machine.Monotone Call.readings 0 calls)
    (configured : ∀ call ∈ calls, call.tenant = tenant →
      call.Configured capacity refillPerSec) (opens closes : Nat) :
    admittedCost tenant opens closes (.new capacity refillPerSec) calls ≤
      capacity.toNat + refillPerSec.toNat * (closes - opens) / nanosPerSec := by
  have fresh : Regular tenant 0 (.new capacity refillPerSec) := by
    intro bucket found
    rw [new, AList.lookup_empty] at found
    cases found
  have total := fresh.admittedCost_le monotone configured opens closes
  rw [Nat.add_comm, ← Nat.add_mul_div_right _ _ (by decide), Nat.le_div_iff_mul_le (by decide),
    Nat.add_comm]
  exact total

/-- A burst, a refusal and a query; the window covers the first two seconds. -/
theorem admittedCost_le_window_burst :
    admittedCost 1 0 2000000000 (.new 10 3)
        [.accept 0 1 10, .accept 1000000000 1 4, .tokensOf 1500000000 1,
          .accept 2000000000 1 4] ≤ 10 + 3 * 2000000000 / nanosPerSec :=
  admittedCost_le_window 10 3 1
    [.accept 0 1 10, .accept 1000000000 1 4, .tokensOf 1500000000 1, .accept 2000000000 1 4]
    (by decide) (by decide) 0 2000000000

end RateLimiter

end Cosaci.State
