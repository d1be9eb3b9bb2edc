import Cosaci.Foundation.Machine
import Cosaci.Foundation.Table
import Cosaci.Foundation.Word

/-!
# Per-tenant rate limiting

The token buckets and the `RateLimiter` of `cosaci-state`.  A refill credits the
tokens earned since the previous one, rounded down, and restarts the clock of the
bucket, so the balance depends on where a stretch of time is cut.
-/

namespace Cosaci.State

open Foundation

/-- Identifier of the tenant the buckets are keyed on. -/
abbrev TenantId := UInt64

def nanosPerSec : Nat := 1000000000

/-- A token bucket; its balance never exceeds its capacity. -/
@[ext] structure TokenBucket where
  capacity : UInt64
  refillPerSec : UInt64
  tokens : UInt64
  lastRefillNs : UInt64
  bounded : tokens ≤ capacity
  deriving DecidableEq

namespace TokenBucket

def new (capacity refillPerSec nowNs : UInt64) : TokenBucket where
  capacity := capacity
  refillPerSec := refillPerSec
  tokens := capacity
  lastRefillNs := nowNs
  bounded := UInt64.le_refl capacity

/-- Bring the balance up to date with `nowNs`. -/
def refill (bucket : TokenBucket) (nowNs : UInt64) : TokenBucket :=
  let elapsedNs := saturatingSub nowNs bucket.lastRefillNs
  -- The product is computed in 128 bits; only the cast back drops high bits.
  let newTokens := truncate (elapsedNs.toNat * bucket.refillPerSec.toNat / nanosPerSec)
  { bucket with
    tokens := min (saturatingAdd bucket.tokens newTokens) bucket.capacity
    lastRefillNs := nowNs
    bounded := by
      rw [UInt64.le_iff_toNat_le, toNat_min]
      exact Nat.min_le_right _ _ }

/-- Take `cost` tokens out of a balance that is up to date. -/
def consume (bucket : TokenBucket) (cost : UInt64) : Bool × TokenBucket :=
  if affordable : cost ≤ bucket.tokens then
    (true,
      { bucket with
        tokens := bucket.tokens - cost
        bounded := by
          have bounded := UInt64.le_iff_toNat_le.mp bucket.bounded
          rw [UInt64.le_iff_toNat_le, UInt64.toNat_sub_of_le _ _ affordable]
          omega })
  else
    (false, bucket)

/-- Try to consume `cost` tokens at `nowNs`. -/
def tryConsume (bucket : TokenBucket) (cost nowNs : UInt64) : Bool × TokenBucket :=
  (bucket.refill nowNs).consume cost

/-- Whole tokens earned between the last refill and `nowNs`. -/
def earned (bucket : TokenBucket) (nowNs : UInt64) : Nat :=
  (nowNs.toNat - bucket.lastRefillNs.toNat) * bucket.refillPerSec.toNat / nanosPerSec

/-- The part of a token, in billionths, that a refill at `nowNs` would drop. -/
def fraction (bucket : TokenBucket) (nowNs : UInt64) : Nat :=
  (nowNs.toNat - bucket.lastRefillNs.toNat) * bucket.refillPerSec.toNat % nanosPerSec

/-- The tokens that a refill credits between two readings: of the earned tokens the cast
keeps 64 bits. -/
def credited (refillPerSec since nowNs : UInt64) : Nat :=
  (nowNs.toNat - since.toNat) * refillPerSec.toNat / nanosPerSec % 2 ^ 64

variable (bucket : TokenBucket)

theorem toNat_tokens_refill_eq (nowNs : UInt64) :
    (bucket.refill nowNs).tokens.toNat =
      min bucket.capacity.toNat
        (bucket.tokens.toNat + credited bucket.refillPerSec bucket.lastRefillNs nowNs) := by
  have capacityBound := toNat_le_maxWord bucket.capacity
  simp only [refill, credited, toNat_min, toNat_saturatingAdd, toNat_saturatingSub,
    toNat_truncate]
  omega

/-- A refill that earns a representable number of tokens is exact up to rounding. -/
theorem toNat_tokens_refill {bucket : TokenBucket} {nowNs : UInt64}
    (fits : bucket.earned nowNs < 2 ^ 64) :
    (bucket.refill nowNs).tokens.toNat =
      min bucket.capacity.toNat (bucket.tokens.toNat + bucket.earned nowNs) := by
  rw [toNat_tokens_refill_eq, credited, ← earned, Nat.mod_eq_of_lt fits]

/-- A refill never credits more than was earned, here counted in billionths of a token. -/
theorem tokens_refill_scaled_le (nowNs : UInt64) :
    (bucket.refill nowNs).tokens.toNat * nanosPerSec ≤
      bucket.tokens.toNat * nanosPerSec +
        bucket.refillPerSec.toNat * (nowNs.toNat - bucket.lastRefillNs.toNat) := by
  have credit : credited bucket.refillPerSec bucket.lastRefillNs nowNs * nanosPerSec ≤
      bucket.refillPerSec.toNat * (nowNs.toNat - bucket.lastRefillNs.toNat) := by
    rw [Nat.mul_comm bucket.refillPerSec.toNat]
    exact (Nat.mul_le_mul_right _ (Nat.mod_le _ _)).trans (Nat.div_mul_le_self _ _)
  have capped : (bucket.refill nowNs).tokens.toNat ≤
      bucket.tokens.toNat + credited bucket.refillPerSec bucket.lastRefillNs nowNs := by
    rw [toNat_tokens_refill_eq]
    exact Nat.min_le_right _ _
  calc (bucket.refill nowNs).tokens.toNat * nanosPerSec
      ≤ (bucket.tokens.toNat + credited bucket.refillPerSec bucket.lastRefillNs nowNs) *
          nanosPerSec := Nat.mul_le_mul_right _ capped
    _ = bucket.tokens.toNat * nanosPerSec +
          credited bucket.refillPerSec bucket.lastRefillNs nowNs * nanosPerSec :=
        Nat.add_mul _ _ _
    _ ≤ _ := Nat.add_le_add_left credit _

/-- A query acts on the bucket like a request that costs nothing. -/
theorem tryConsume_zero (nowNs : UInt64) :
    bucket.tryConsume 0 nowNs = (true, bucket.refill nowNs) := by
  have affordable : (0 : UInt64) ≤ (bucket.refill nowNs).tokens :=
    UInt64.le_iff_toNat_le.mpr (Nat.zero_le _)
  rw [tryConsume, consume, dif_pos affordable]
  congr 1
  ext1
  · rfl
  · rfl
  · exact UInt64.sub_zero _
  · rfl

/-- A full bucket stays full, however long it waits. -/
theorem tokens_refill_of_full {bucket : TokenBucket} (nowNs : UInt64)
    (full : bucket.tokens = bucket.capacity) :
    (bucket.refill nowNs).tokens = bucket.capacity := by
  have capacityBound := toNat_le_maxWord bucket.capacity
  apply UInt64.toNat_inj.mp
  simp only [refill, toNat_min, toNat_saturatingAdd, full]
  omega

theorem consume_rejected {bucket : TokenBucket} {cost : UInt64}
    (rejected : (bucket.consume cost).1 = false) : (bucket.consume cost).2 = bucket := by
  unfold consume at rejected ⊢
  split at rejected
  · cases rejected
  · next poor => rw [dif_neg poor]

/-- No time, no tokens. -/
theorem tokens_refill_lastRefillNs :
    (bucket.refill bucket.lastRefillNs).tokens = bucket.tokens := by
  have bounded := UInt64.le_iff_toNat_le.mp bucket.bounded
  have idle : bucket.earned bucket.lastRefillNs = 0 := by simp [earned]
  apply UInt64.toNat_inj.mp
  rw [toNat_tokens_refill (by rw [idle]; decide), idle]
  omega

/-- An attempt brings the bucket up to date and takes the cost exactly when it is
admitted. -/
theorem tryConsume_spec (cost nowNs : UInt64) :
    (bucket.tryConsume cost nowNs).2.lastRefillNs = nowNs ∧
      (bucket.tryConsume cost nowNs).2.capacity = bucket.capacity ∧
      (bucket.tryConsume cost nowNs).2.tokens.toNat +
          (if (bucket.tryConsume cost nowNs).1 then cost.toNat else 0) =
        (bucket.refill nowNs).tokens.toNat := by
  unfold tryConsume consume
  split
  · next affordable =>
      refine ⟨rfl, rfl, ?_⟩
      have enough := UInt64.le_iff_toNat_le.mp affordable
      simp only [↓reduceIte, UInt64.toNat_sub_of_le _ _ affordable]
      omega
  · exact ⟨rfl, rfl, rfl⟩

theorem tryConsume_eq_true_iff {bucket : TokenBucket} {cost nowNs : UInt64} :
    (bucket.tryConsume cost nowNs).1 = true ↔ cost ≤ (bucket.refill nowNs).tokens := by
  unfold tryConsume consume
  split
  · next affordable => exact iff_of_true rfl affordable
  · next poor => exact iff_of_false Bool.false_ne_true poor

theorem refillPerSec_tryConsume (cost nowNs : UInt64) :
    (bucket.tryConsume cost nowNs).2.refillPerSec = bucket.refillPerSec := by
  unfold tryConsume consume
  split <;> rfl

end TokenBucket

/-- Buckets by tenant, and the configuration of tenants without one. -/
structure RateLimiter where
  buckets : Table TenantId TokenBucket
  defaultCapacity : UInt64
  defaultRefillPerSec : UInt64

namespace RateLimiter

def new (capacity refillPerSec : UInt64) : RateLimiter where
  buckets := ∅
  defaultCapacity := capacity
  defaultRefillPerSec := refillPerSec

/-- Try to admit a request; the configuration only matters on first sight of the
tenant. -/
def acceptWithConfig (limiter : RateLimiter) (now : UInt64) (tenant : TenantId)
    (cost capacity refillPerSec : UInt64) : Bool × RateLimiter :=
  let bucket := (limiter.buckets.lookup tenant).getD (.new capacity refillPerSec now)
  let (admitted, next) := bucket.tryConsume cost now
  (admitted, { limiter with buckets := limiter.buckets.insert tenant next })

/-- Try to admit a request under the default configuration. -/
def accept (limiter : RateLimiter) (now : UInt64) (tenant : TenantId) (cost : UInt64) :
    Bool × RateLimiter :=
  limiter.acceptWithConfig now tenant cost limiter.defaultCapacity limiter.defaultRefillPerSec

/-- The balance of a tenant after a refill; an unknown tenant gets no bucket. -/
def tokensOf (limiter : RateLimiter) (now : UInt64) (tenant : TenantId) :
    UInt64 × RateLimiter :=
  match limiter.buckets.lookup tenant with
  | some bucket =>
      let next := bucket.refill now
      (next.tokens, { limiter with buckets := limiter.buckets.insert tenant next })
  | none => (limiter.defaultCapacity, limiter)

variable (limiter : RateLimiter)

@[simp] theorem lookup_acceptWithConfig (now : UInt64) (tenant other : TenantId)
    (cost capacity refillPerSec : UInt64) :
    (limiter.acceptWithConfig now tenant cost capacity refillPerSec).2.buckets.lookup other =
      if other = tenant then
        some (((limiter.buckets.lookup tenant).getD
          (.new capacity refillPerSec now)).tryConsume cost now).2
      else
        limiter.buckets.lookup other :=
  Table.lookup_insert_eq _ _ _ _

@[simp] theorem lookup_tokensOf (now : UInt64) (tenant other : TenantId) :
    (limiter.tokensOf now tenant).2.buckets.lookup other =
      if other = tenant then
        (limiter.buckets.lookup tenant).map fun bucket => bucket.refill now
      else
        limiter.buckets.lookup other := by
  unfold tokensOf
  cases found : limiter.buckets.lookup tenant with
  | some bucket => exact Table.lookup_insert_eq _ _ _ _
  | none =>
      by_cases same : other = tenant
      · subst other
        simp [found]
      · simp [same]

/-- The balance of a tenant at a reading, where a tenant without a bucket has the
given one. -/
def balanceAt (limiter : RateLimiter) (tenant : TenantId) (nowNs unknown : UInt64) : UInt64 :=
  match limiter.buckets.lookup tenant with
  | some bucket => (bucket.refill nowNs).tokens
  | none => unknown

/-- The tokens taken from a tenant's bucket between two states of the limiter, over
and above the refill: the earlier balance, brought up to date with the later bucket,
minus the later balance.  A bucket starts full. -/
def deducted (before after : RateLimiter) (tenant : TenantId) : Int :=
  match after.buckets.lookup tenant with
  | none => 0
  | some bucket =>
      (before.balanceAt tenant bucket.lastRefillNs bucket.capacity).toNat -
        bucket.tokens.toNat

/-- Nothing is taken from a bucket that stays as it is. -/
theorem deducted_of_lookup_eq {before after : RateLimiter} {tenant : TenantId}
    (same : after.buckets.lookup tenant = before.buckets.lookup tenant) :
    deducted before after tenant = 0 := by
  unfold deducted
  split
  · rfl
  · next bucket found =>
      rw [same] at found
      rw [balanceAt, found]
      simp [TokenBucket.tokens_refill_lastRefillNs]

/-- A request takes its cost from its tenant's bucket exactly when it is admitted. -/
theorem deducted_acceptWithConfig (now : UInt64) (tenant other : TenantId)
    (cost capacity refillPerSec : UInt64) :
    deducted limiter (limiter.acceptWithConfig now tenant cost capacity refillPerSec).2 other =
      if other = tenant ∧
          (limiter.acceptWithConfig now tenant cost capacity refillPerSec).1 = true then
        (cost.toNat : Int)
      else 0 := by
  have lookup := limiter.lookup_acceptWithConfig now tenant other cost capacity refillPerSec
  by_cases same : other = tenant
  · subst other
    rw [if_pos rfl] at lookup
    rcases TokenBucket.tryConsume_spec
      ((limiter.buckets.lookup tenant).getD (.new capacity refillPerSec now)) cost now with
      ⟨restarted, sameCapacity, taken⟩
    have balance : limiter.balanceAt tenant now
        ((limiter.buckets.lookup tenant).getD (.new capacity refillPerSec now)).capacity =
          (((limiter.buckets.lookup tenant).getD
            (.new capacity refillPerSec now)).refill now).tokens := by
      unfold balanceAt
      cases limiter.buckets.lookup tenant with
      | some bucket => rfl
      | none => exact (TokenBucket.tokens_refill_of_full now rfl).symm
    have verdict : (limiter.acceptWithConfig now tenant cost capacity refillPerSec).1 =
        (((limiter.buckets.lookup tenant).getD
          (.new capacity refillPerSec now)).tryConsume cost now).1 := rfl
    rw [deducted, lookup]
    simp only [restarted, sameCapacity, balance, verdict, true_and]
    split
    · next admitted =>
        rw [if_pos admitted] at taken
        omega
    · next rejected =>
        rw [if_neg rejected] at taken
        omega
  · rw [deducted_of_lookup_eq (by rw [lookup, if_neg same]), if_neg (fun both => same both.1)]

/-! ## The limiter as a machine -/

/-- A call together with the clock reading it takes. -/
inductive Call where
  | accept (now : UInt64) (tenant : TenantId) (cost : UInt64)
  | acceptWithConfig (now : UInt64) (tenant : TenantId) (cost capacity refillPerSec : UInt64)
  | tokensOf (now : UInt64) (tenant : TenantId)
  deriving DecidableEq, Repr

namespace Call

def now : Call → UInt64
  | .accept now _ _ => now
  | .acceptWithConfig now _ _ _ _ => now
  | .tokensOf now _ => now

def tenant : Call → TenantId
  | .accept _ tenant _ => tenant
  | .acceptWithConfig _ tenant _ _ _ => tenant
  | .tokensOf _ tenant => tenant

/-- The cost of a request; a balance query has none. -/
def cost : Call → Option UInt64
  | .accept _ _ cost => some cost
  | .acceptWithConfig _ _ cost _ _ => some cost
  | .tokensOf _ _ => none

end Call

/-- Perform a call and report its verdict; a balance query has none. -/
def step (limiter : RateLimiter) : Call → Option Bool × RateLimiter
  | .accept now tenant cost =>
      let (admitted, next) := limiter.accept now tenant cost
      (some admitted, next)
  | .acceptWithConfig now tenant cost capacity refillPerSec =>
      let (admitted, next) := limiter.acceptWithConfig now tenant cost capacity refillPerSec
      (some admitted, next)
  | .tokensOf now tenant =>
      (none, (limiter.tokensOf now tenant).2)

@[simp] theorem defaults_step (call : Call) :
    (limiter.step call).2.defaultCapacity = limiter.defaultCapacity ∧
      (limiter.step call).2.defaultRefillPerSec = limiter.defaultRefillPerSec := by
  cases call with
  | accept now tenant cost => exact ⟨rfl, rfl⟩
  | acceptWithConfig now tenant cost capacity refillPerSec => exact ⟨rfl, rfl⟩
  | tokensOf now tenant =>
      simp only [step, tokensOf]
      cases limiter.buckets.lookup tenant <;> exact ⟨rfl, rfl⟩

/-- A call only touches the bucket of its own tenant. -/
theorem lookup_step_of_ne {limiter : RateLimiter} {call : Call} {other : TenantId}
    (different : other ≠ call.tenant) :
    (limiter.step call).2.buckets.lookup other = limiter.buckets.lookup other := by
  cases call with
  | accept now tenant cost =>
      exact (lookup_acceptWithConfig _ _ _ _ _ _ _).trans (if_neg different)
  | acceptWithConfig now tenant cost capacity refillPerSec =>
      exact (lookup_acceptWithConfig _ _ _ _ _ _ _).trans (if_neg different)
  | tokensOf now tenant => exact (lookup_tokensOf _ _ _ _).trans (if_neg different)

/-- A call of a run, marked when it was inserted into the run. -/
structure Marked where
  call : Call
  inserted : Bool
  deriving DecidableEq, Repr

def kept (marked : Marked) : Bool := !marked.inserted

def readings (marked : Marked) : List UInt64 := [marked.call.now]

/-- The verdicts of a run of marked calls. -/
def verdicts : Machine RateLimiter Marked (Option Bool) where
  step limiter marked := limiter.step marked.call

end RateLimiter

end Cosaci.State
