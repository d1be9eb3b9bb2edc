import Cosaci.Coordinator.Submission

/-!
# Changed rates

The tenant registry is replaced while the coordinator runs: by a reload on SIGHUP, and
after every change made through the admin interface.  The token buckets survive the
replacement, and a bucket keeps the configuration of its first submission.  So what
bounds the admissions of a tenant after a change of its rate is the rate under which
its bucket was created.
-/

namespace Cosaci.Coordinator

open Foundation Cosaci.Core State

/-- The rate configuration of a tenant. -/
structure Rate where
  capacity : UInt64
  refillPerSec : UInt64
  deriving DecidableEq, Repr

def recordRate (record : TenantRecord) : Rate :=
  ⟨record.rateCapacity, record.rateRefillPerSec⟩

def bucketRate (bucket : TokenBucket) : Rate :=
  ⟨bucket.capacity, bucket.refillPerSec⟩

/-- The most admissions that a rate allows within a number of nanoseconds. -/
def Rate.allowance (rate : Rate) (nanos : Nat) : Nat :=
  rate.capacity.toNat + rate.refillPerSec.toNat * nanos / nanosPerSec

/-! ## The gate with a changing registry -/

/-- What happens to the state behind the auth mutex. -/
inductive AuthEvent where
  | call (call : GateCall)
  /-- The registry is replaced; the stores of the gate are not touched. -/
  | replace (registry : TenantRegistry)

namespace AuthState

def step (crypto : Crypto) (state : AuthState) : AuthEvent → Option AuthCheck × AuthState
  | .call call =>
      let (verdict, gate) := Gate.step crypto state.registry state.gate call
      (some verdict, { state with gate := gate })
  | .replace registry => (none, { state with registry := registry })

def readings : AuthEvent → List UInt64
  | .call call => Gate.readings call
  | .replace _ => []

def machine (crypto : Crypto) : Machine AuthState AuthEvent (Option AuthCheck) where
  step := step crypto

/-- The configuration under which an event reaches the rate limiter on behalf of a
tenant, if it does. -/
def rateUsed (crypto : Crypto) (tenantId : TenantId) (state : AuthState) :
    AuthEvent → Option Rate
  | .call call =>
      let verdict := (Gate.step crypto state.registry state.gate call).1
      if call.submission.tenantId = tenantId ∧ (verdict = .ok ∨ verdict = .rateLimited) then
        (state.registry.get tenantId).map recordRate
      else none
  | .replace _ => none

/-- The configuration under which a tenant first reaches the rate limiter in a run. -/
def firstRate (crypto : Crypto) (tenantId : TenantId) (state : AuthState) :
    List AuthEvent → Option Rate
  | [] => none
  | event :: rest =>
      (rateUsed crypto tenantId state event).or
        (firstRate crypto tenantId (step crypto state event).2 rest)

end AuthState

/-! ## One bucket -/

/-- What is known after `count` admissions since `start` were paid from a bucket, when
admissions are counted for `nanos` nanoseconds. -/
structure Paid (start nanos count : Nat) (bucket : TokenBucket) : Prop where
  balance : (count + bucket.tokens.toNat) * nanosPerSec ≤
    bucket.capacity.toNat * nanosPerSec +
      bucket.refillPerSec.toNat * (bucket.lastRefillNs.toNat - start)
  started : count = 0 ∨ start ≤ bucket.lastRefillNs.toNat
  total : count * nanosPerSec ≤
    bucket.capacity.toNat * nanosPerSec + bucket.refillPerSec.toNat * nanos

theorem Paid.of_zero (start nanos : Nat) (bucket : TokenBucket) : Paid start nanos 0 bucket where
  balance := by
    have bounded := UInt64.le_iff_toNat_le.mp bucket.bounded
    rw [Nat.zero_add]
    exact (Nat.mul_le_mul_right _ bounded).trans (Nat.le_add_right _ _)
  started := Or.inl rfl
  total := by simp

variable {bucket : TokenBucket} {start nanos count : Nat} {call : GateCall} {record : TenantRecord}
  {clock : UInt64} {gate : Gate} {rate : Rate}

theorem Paid.le_allowance (paid : Paid start nanos count bucket) :
    count ≤ (bucketRate bucket).allowance nanos := by
  have total := paid.total
  simp only [Rate.allowance, bucketRate]
  rw [Nat.add_comm, ← Nat.add_mul_div_right _ _ (by decide), Nat.le_div_iff_mul_le (by decide)]
  omega

/-- Whether an attempt at a reading is counted. -/
def Counts (start nanos : Nat) (nowNs : UInt64) : Prop :=
  start ≤ nowNs.toNat ∧ nowNs.toNat ≤ start + nanos

instance (start nanos : Nat) (nowNs : UInt64) : Decidable (Counts start nanos nowNs) :=
  inferInstanceAs (Decidable (_ ∧ _))

/-- The balance after a refill, in billionths of a token. -/
private theorem Paid.refill (paid : Paid start nanos count bucket) {nowNs : UInt64}
    (later : bucket.lastRefillNs.toNat ≤ nowNs.toNat) :
    (count + (bucket.refill nowNs).tokens.toNat) * nanosPerSec ≤
      bucket.capacity.toNat * nanosPerSec +
        bucket.refillPerSec.toNat * (nowNs.toNat - start) := by
  rcases paid.started with rfl | started
  · have capped := UInt64.le_iff_toNat_le.mp (bucket.refill nowNs).bounded
    rw [Nat.zero_add]
    exact (Nat.mul_le_mul_right _ capped).trans (Nat.le_add_right _ _)
  · have elapsed : nowNs.toNat - start = (bucket.lastRefillNs.toNat - start) +
        (nowNs.toNat - bucket.lastRefillNs.toNat) := by omega
    calc (count + (bucket.refill nowNs).tokens.toNat) * nanosPerSec
        = count * nanosPerSec + (bucket.refill nowNs).tokens.toNat * nanosPerSec :=
          Nat.add_mul _ _ _
      _ ≤ count * nanosPerSec + (bucket.tokens.toNat * nanosPerSec +
            bucket.refillPerSec.toNat * (nowNs.toNat - bucket.lastRefillNs.toNat)) :=
          Nat.add_le_add_left (bucket.tokens_refill_scaled_le nowNs) _
      _ = (count + bucket.tokens.toNat) * nanosPerSec +
            bucket.refillPerSec.toNat * (nowNs.toNat - bucket.lastRefillNs.toNat) := by ring
      _ ≤ bucket.capacity.toNat * nanosPerSec +
            bucket.refillPerSec.toNat * (bucket.lastRefillNs.toNat - start) +
            bucket.refillPerSec.toNat * (nowNs.toNat - bucket.lastRefillNs.toNat) :=
          Nat.add_le_add_right paid.balance _
      _ = bucket.capacity.toNat * nanosPerSec +
            bucket.refillPerSec.toNat * (nowNs.toNat - start) := by
          rw [elapsed]
          ring

/-- An attempt to take one token keeps the account. -/
theorem Paid.tryConsume (paid : Paid start nanos count bucket) {nowNs : UInt64}
    (later : bucket.lastRefillNs.toNat ≤ nowNs.toNat) :
    Paid start nanos
      (count + if (bucket.tryConsume 1 nowNs).1 = true ∧ Counts start nanos nowNs then 1 else 0)
      (bucket.tryConsume 1 nowNs).2 := by
  obtain ⟨restarted, sameCapacity, taken⟩ := bucket.tryConsume_spec 1 nowNs
  have sameRefill := bucket.refillPerSec_tryConsume 1 nowNs
  have refilled := paid.refill later
  rw [UInt64.toNat_one] at taken
  by_cases counted : (bucket.tryConsume 1 nowNs).1 = true ∧ Counts start nanos nowNs
  · obtain ⟨admitted, begun, ongoing⟩ := counted
    rw [if_pos ⟨admitted, begun, ongoing⟩]
    rw [if_pos admitted] at taken
    have spent : count + 1 + (bucket.tryConsume 1 nowNs).2.tokens.toNat =
        count + (bucket.refill nowNs).tokens.toNat := by omega
    refine ⟨?_, Or.inr (by rwa [restarted]), ?_⟩
    · rw [spent, sameCapacity, sameRefill, restarted]
      exact refilled
    · rw [sameCapacity, sameRefill]
      have within : bucket.refillPerSec.toNat * (nowNs.toNat - start) ≤
          bucket.refillPerSec.toNat * nanos := Nat.mul_le_mul_left _ (by omega)
      have paidFor : (count + 1) * nanosPerSec ≤
          (count + (bucket.refill nowNs).tokens.toNat) * nanosPerSec :=
        Nat.mul_le_mul_right _ (by omega)
      omega
  · rw [if_neg counted, Nat.add_zero]
    have kept : (bucket.tryConsume 1 nowNs).2.tokens.toNat ≤
        (bucket.refill nowNs).tokens.toNat := by omega
    refine ⟨?_, ?_, ?_⟩
    · rw [sameCapacity, sameRefill, restarted]
      exact (Nat.mul_le_mul_right _ (Nat.add_le_add_left kept _)).trans refilled
    · rw [restarted]
      exact paid.started.imp_right fun started => started.trans later
    · rw [sameCapacity, sameRefill]
      exact paid.total

/-! ## Admissions under one registry -/

/-- The admissions of a tenant that the rate limiter granted within a stretch of time. -/
def admittedWithin (crypto : Crypto) (registry : TenantRegistry) (tenantId : TenantId)
    (start nanos : Nat) (gate : Gate) (calls : List GateCall) : List GateCall :=
  (Gate.machine crypto registry).observe (fun call verdict =>
    if verdict = .ok ∧ call.submission.tenantId = tenantId ∧
      Counts start nanos call.readings.limitAt then some call else none) gate calls

theorem admittedWithin_cons (crypto : Crypto) (registry : TenantRegistry)
    (tenantId : TenantId) (start nanos : Nat) (gate : Gate) (call : GateCall)
    (rest : List GateCall) :
    (admittedWithin crypto registry tenantId start nanos gate (call :: rest)).length =
      (if (Gate.step crypto registry gate call).1 = .ok ∧
        call.submission.tenantId = tenantId ∧ Counts start nanos call.readings.limitAt then 1
        else 0) +
      (admittedWithin crypto registry tenantId start nanos
        (Gate.step crypto registry gate call).2 rest).length := by
  rw [admittedWithin, Machine.observe_cons, List.length_append]
  congr 1
  exact apply_ite (fun found : Option GateCall => found.toList.length) _ (some call) none

variable {crypto : Crypto} {registry : TenantRegistry} {tenantId : TenantId}

/-- An identified tenant is registered. -/
theorem get_of_identify (known : Gate.identify crypto registry call = .ok record) :
    registry.get call.submission.tenantId = some record := by
  unfold Gate.identify authenticate at known
  cases found : registry.get call.submission.tenantId with
  | none => simp [found] at known
  | some tenant =>
      simp only [found] at known
      split at known
      · cases known
      · split at known
        · cases known
        · split at known
          · cases known
          · cases known
            rfl

/-- The bucket that pays for a call. -/
def payingBucket (gate : Gate) (call : GateCall) (record : TenantRecord) : TokenBucket :=
  (gate.rateLimiter.buckets.lookup call.submission.tenantId).getD
    (.new record.rateCapacity record.rateRefillPerSec call.readings.limitAt)

/-- What a call does to the bucket of a tenant: it leaves it alone, or the bucket is
asked to pay for the call. -/
inductive Charge (registry : TenantRegistry) (gate : Gate) (call : GateCall)
    (tenantId : TenantId) (verdict : AuthCheck) (next : Gate) : Prop
  | spared
      (bucket : next.rateLimiter.buckets.lookup tenantId =
        gate.rateLimiter.buckets.lookup tenantId)
      (unpaid : call.submission.tenantId = tenantId → verdict ≠ .ok ∧ verdict ≠ .rateLimited)
  | asked {record : TenantRecord} (own : call.submission.tenantId = tenantId)
      (known : registry.get call.submission.tenantId = some record)
      (answer : verdict =
        if ((payingBucket gate call record).tryConsume 1 call.readings.limitAt).1 then .ok
        else .rateLimited)
      (bucket : next.rateLimiter.buckets.lookup tenantId =
        some ((payingBucket gate call record).tryConsume 1 call.readings.limitAt).2)

/-- The limiter asks the bucket of the submitting tenant and no other. -/
private theorem charge_of_checkRate {gate next : Gate} {verdict : AuthCheck}
    (known : Gate.identify crypto registry call = .ok record)
    (answer : verdict = if (Gate.checkRate gate call record).1 then .ok else .rateLimited)
    (limiter : next.rateLimiter = (Gate.checkRate gate call record).2) (tenantId : TenantId) :
    Charge registry gate call tenantId verdict next := by
  have lookup := gate.rateLimiter.lookup_acceptWithConfig call.readings.limitAt
    call.submission.tenantId tenantId 1 record.rateCapacity record.rateRefillPerSec
  rw [← Gate.checkRate, ← limiter] at lookup
  by_cases own : tenantId = call.submission.tenantId
  · rw [if_pos own] at lookup
    exact .asked own.symm (get_of_identify known) answer lookup
  · rw [if_neg own] at lookup
    exact .spared lookup fun same => False.elim (own same.symm)

theorem charge_of_decided {gate next : Gate} {verdict : AuthCheck}
    (decided : Gate.Decided crypto registry gate call verdict next) (tenantId : TenantId) :
    Charge registry gate call tenantId verdict next := by
  cases decided with
  | refused unknown rejected =>
      refine .spared rfl fun _ => ?_
      rcases Gate.identify_error unknown with rfl | rfl <;> exact ⟨nofun, nofun⟩
  | replayed known seen => exact .spared rfl fun _ => ⟨nofun, nofun⟩
  | limited known unseen poor => exact charge_of_checkRate known (by simp [poor]) rfl tenantId
  | admitted known unseen paid => exact charge_of_checkRate known (by simp [paid]) rfl tenantId

theorem charge_step (crypto : Crypto) (registry : TenantRegistry) (gate : Gate)
    (call : GateCall) (tenantId : TenantId) :
    Charge registry gate call tenantId (Gate.step crypto registry gate call).1
      (Gate.step crypto registry gate call).2 :=
  charge_of_decided (Gate.decided_step gate call) tenantId

/-- The configuration of a bucket never changes. -/
theorem bucketRate_tryConsume (bucket : TokenBucket) (cost nowNs : UInt64) :
    bucketRate (bucket.tryConsume cost nowNs).2 = bucketRate bucket := by
  unfold TokenBucket.tryConsume TokenBucket.consume
  split <;> rfl

/-- The account of a tenant while the registry stays: without a bucket nothing has been
admitted, and a bucket has the given rate and has paid. -/
def Account (registry : TenantRegistry) (tenantId : TenantId) (rate : Rate)
    (start nanos count : Nat) (clock : UInt64) (gate : Gate) : Prop :=
  match gate.rateLimiter.buckets.lookup tenantId with
  | none => count = 0 ∧ ∀ record, registry.get tenantId = some record → recordRate record = rate
  | some bucket =>
      bucketRate bucket = rate ∧ bucket.lastRefillNs ≤ clock ∧ Paid start nanos count bucket

theorem Account.le_allowance
    (account : Account registry tenantId rate start nanos count clock gate) :
    count ≤ rate.allowance nanos := by
  unfold Account at account
  split at account
  · rw [account.1]
    exact Nat.zero_le _
  · rw [← account.1]
    exact account.2.2.le_allowance

theorem Account.later {clock time : UInt64}
    (account : Account registry tenantId rate start nanos count clock gate)
    (passes : clock ≤ time) : Account registry tenantId rate start nanos count time gate := by
  unfold Account at account ⊢
  split
  · next none => simpa only [none] using account
  · next bucket found =>
      simp only [found] at account
      exact ⟨account.1, UInt64.le_trans account.2.1 passes, account.2.2⟩

/-- The bucket that is asked to pay has the rate of the account. -/
private theorem Account.payingBucket
    (account : Account registry call.submission.tenantId rate start nanos count clock gate)
    (known : registry.get call.submission.tenantId = some record)
    (passes : clock ≤ call.readings.limitAt) :
    bucketRate (payingBucket gate call record) = rate ∧
      (Coordinator.payingBucket gate call record).lastRefillNs ≤ call.readings.limitAt ∧
      Paid start nanos count (Coordinator.payingBucket gate call record) := by
  unfold Account at account
  unfold Coordinator.payingBucket
  cases found : gate.rateLimiter.buckets.lookup call.submission.tenantId with
  | none =>
      simp only [found] at account
      refine ⟨account.2 record known, UInt64.le_refl _, ?_⟩
      rw [account.1]
      exact .of_zero _ _ _
  | some bucket =>
      simp only [found] at account
      exact ⟨account.1, UInt64.le_trans account.2.1 passes, account.2.2⟩

theorem Account.step (account : Account registry tenantId rate start nanos count clock gate)
    (ordered : (clock :: Gate.readings call).Pairwise (· ≤ ·)) :
    Account registry tenantId rate start nanos
      (count + if (Gate.step crypto registry gate call).1 = .ok ∧
        call.submission.tenantId = tenantId ∧ Counts start nanos call.readings.limitAt then 1
        else 0)
      call.readings.limitAt (Gate.step crypto registry gate call).2 := by
  obtain ⟨sweeps, accepts, limits⟩ := Gate.ordered_iff.mp ordered
  have passes := UInt64.le_trans sweeps (UInt64.le_trans accepts limits)
  cases charge_step crypto registry gate call tenantId with
  | spared bucket unpaid =>
      have uncounted : ¬((Gate.step crypto registry gate call).1 = .ok ∧
          call.submission.tenantId = tenantId ∧
          Counts start nanos call.readings.limitAt) :=
        fun counted => (unpaid counted.2.1).1 counted.1
      rw [if_neg uncounted, Nat.add_zero]
      have same := account.later passes
      unfold Account at same ⊢
      rwa [bucket]
  | asked own known answer bucket =>
      subst own
      obtain ⟨sameRate, earlier, paid⟩ := account.payingBucket known passes
      have next := paid.tryConsume (UInt64.le_iff_toNat_le.mp earlier)
      rw [answer]
      unfold Account
      rw [bucket]
      refine ⟨(bucketRate_tryConsume _ _ _).trans sameRate, ?_, ?_⟩
      · rw [(TokenBucket.tryConsume_spec _ _ _).1]
        exact UInt64.le_refl _
      · simpa using next

/-- While the registry stays, the admissions within a stretch of time stay within the
allowance of the account's rate. -/
theorem Account.run {calls : List GateCall} (monotone : Machine.Monotone Gate.readings clock calls)
    (account : Account registry tenantId rate start nanos count clock gate) :
    count + (admittedWithin crypto registry tenantId start nanos gate calls).length ≤
      rate.allowance nanos := by
  induction calls generalizing clock gate count with
  | nil => exact account.le_allowance
  | cons call rest ih =>
      rw [admittedWithin_cons, ← Nat.add_assoc]
      exact ih monotone.tail (account.step monotone.head)

/-! ## Whole runs -/

/-- The bucket of a tenant, if there is one, has the given rate and was last refilled
in the past. -/
structure Tracks (tenantId : TenantId) (rate : Option Rate) (clock : UInt64) (gate : Gate) :
    Prop where
  rate : (gate.rateLimiter.buckets.lookup tenantId).map bucketRate = rate
  past : ∀ bucket ∈ gate.rateLimiter.buckets.lookup tenantId, bucket.lastRefillNs ≤ clock

theorem Tracks.step {rate : Option Rate} {state : AuthState}
    (tracks : Tracks tenantId rate clock state.gate) {event : AuthEvent}
    (ordered : (clock :: AuthState.readings event).Pairwise (· ≤ ·)) :
    Tracks tenantId (rate.or (AuthState.rateUsed crypto tenantId state event))
      (Machine.lastReading AuthState.readings clock event)
      (AuthState.step crypto state event).2.gate := by
  cases event with
  | replace registry =>
      rw [AuthState.rateUsed, Option.or_none]
      exact tracks
  | call call =>
      obtain ⟨sweeps, accepts, limits⟩ := Gate.ordered_iff.mp ordered
      have passes := UInt64.le_trans sweeps (UInt64.le_trans accepts limits)
      cases charge_step crypto state.registry state.gate call tenantId with
      | spared bucket unpaid =>
          have unused : AuthState.rateUsed crypto tenantId state (.call call) = none := by
            rw [AuthState.rateUsed, if_neg]
            rintro ⟨own, ok | limited⟩
            · exact (unpaid own).1 ok
            · exact (unpaid own).2 limited
          rw [unused, Option.or_none]
          refine ⟨?_, ?_⟩
          · rw [← tracks.rate]
            exact congrArg (Option.map bucketRate) bucket
          · intro found member
            have before : found ∈ state.gate.rateLimiter.buckets.lookup tenantId := bucket ▸ member
            exact UInt64.le_trans (tracks.past found before) passes
      | asked own known answer bucket =>
          subst own
          have used : AuthState.rateUsed crypto call.submission.tenantId state (.call call) =
              (state.registry.get call.submission.tenantId).map recordRate := by
            rw [AuthState.rateUsed, if_pos]
            refine ⟨rfl, ?_⟩
            rw [answer]
            split
            · exact Or.inl rfl
            · exact Or.inr rfl
          refine ⟨?_, ?_⟩
          · rw [used, known, ← tracks.rate, AuthState.step]
            simp only [bucket, Option.map_some, bucketRate_tryConsume, payingBucket]
            cases state.gate.rateLimiter.buckets.lookup call.submission.tenantId <;> rfl
          · intro found member
            rw [AuthState.step] at member
            simp only [bucket] at member
            cases member
            rw [(TokenBucket.tryConsume_spec _ _ _).1]
            exact UInt64.le_refl _

/-- An account opens with the rate of the bucket, or with the registered one. -/
theorem Tracks.account {rate : Option Rate} (tracks : Tracks tenantId rate clock gate)
    (registered : registry.get tenantId = some record) (start nanos : Nat) :
    Account registry tenantId (rate.getD (recordRate record)) start nanos 0 clock gate := by
  have sameRate := tracks.rate
  unfold Account
  split
  · next none =>
      rw [none] at sameRate
      refine ⟨rfl, ?_⟩
      intro other found
      rw [registered] at found
      cases found
      rw [← sameRate]
      rfl
  · next bucket found =>
      rw [found] at sameRate
      rw [← sameRate]
      exact ⟨rfl, tracks.past bucket found, .of_zero _ _ _⟩

/-- The bound after any earlier events. -/
theorem admittedWithin_le {rate : Option Rate} {state : AuthState}
    (tracks : Tracks tenantId rate clock state.gate)
    (registered : registry.get tenantId = some record) (start nanos : Nat) {before : List AuthEvent}
    {calls : List GateCall} (monotone : Machine.Monotone AuthState.readings clock
      (before ++ .replace registry :: calls.map .call)) :
    (admittedWithin crypto registry tenantId start nanos
      ((AuthState.machine crypto).final state before).gate calls).length ≤
      ((rate.or (AuthState.firstRate crypto tenantId state before)).getD
        (recordRate record)).allowance nanos := by
  induction before generalizing clock state rate with
  | nil =>
      have calling : Machine.Monotone Gate.readings clock calls := by
        simpa [Machine.Monotone, List.flatMap_map, AuthState.readings] using monotone
      rw [AuthState.firstRate, Option.or_none, ← Nat.zero_add (List.length _)]
      exact (tracks.account registered start nanos).run calling
  | cons event rest ih =>
      rw [AuthState.firstRate, ← Option.or_assoc]
      exact ih (tracks.step monotone.head) monotone.tail

/-- A coordinator that has just been started. -/
def AuthState.fresh (registry : TenantRegistry) (capacity refillPerSec ttlNs : UInt64) :
    AuthState :=
  ⟨registry, ⟨.new capacity refillPerSec, .new ttlNs⟩⟩

/-- In every run from the start of the coordinator, the admissions of a tenant in a
stretch of time after a replacement of the registry are bounded by the rate under
which the tenant first reached the rate limiter; by the replaced rate, if it had not
reached it before. -/
theorem admitted_le_bucket_rate (crypto : Crypto) (initial : TenantRegistry)
    (capacity refillPerSec ttlNs : UInt64) (before : List AuthEvent)
    (registry : TenantRegistry) (calls : List GateCall) (tenantId : TenantId)
    (record : TenantRecord) (registered : registry.get tenantId = some record)
    (clock : UInt64) (start nanos : Nat)
    (monotone : Machine.Monotone AuthState.readings clock
      (before ++ .replace registry :: calls.map .call)) :
    (admittedWithin crypto registry tenantId start nanos
      ((AuthState.machine crypto).final
        (.fresh initial capacity refillPerSec ttlNs) before).gate calls).length ≤
      ((AuthState.firstRate crypto tenantId
        (.fresh initial capacity refillPerSec ttlNs) before).getD
          (recordRate record)).allowance nanos := by
  have tracks : Tracks tenantId none clock
      (AuthState.fresh initial capacity refillPerSec ttlNs).gate := ⟨rfl, by nofun⟩
  exact admittedWithin_le tracks registered start nanos monotone

/-- The registry of the sole tenant with another capacity and without refill. -/
def ratedRegistry (capacity : UInt64) : TenantRegistry where
  byId := Table.collect [(1, ⟨1, modelHash Gate.soleTenantKey.toList, capacity, 0, 0⟩)]

/-- The tenant's first submission, under a capacity of three. -/
def firstSubmission : List AuthEvent := [.call (Gate.soleTenantCall 1 10)]

/-- After the capacity was lowered to one, the remaining two tokens are still
spent. -/
theorem lowered_capacity_exceeded :
    ((ratedRegistry 1).get 1).map recordRate = some ⟨1, 0⟩ ∧
      (admittedWithin modelCrypto (ratedRegistry 1) 1 20 5
        ((AuthState.machine modelCrypto).final
          (.fresh (ratedRegistry 3) 10 1 60000000000) firstSubmission).gate
        [Gate.soleTenantCall 2 20, Gate.soleTenantCall 3 25]).length = 2 ∧
      (⟨1, 0⟩ : Rate).allowance 5 = 1 := by
  decide +kernel

theorem admitted_le_bucket_rate_lowered :
    (admittedWithin modelCrypto (ratedRegistry 1) 1 20 5
      ((AuthState.machine modelCrypto).final
        (.fresh (ratedRegistry 3) 10 1 60000000000) firstSubmission).gate
      [Gate.soleTenantCall 2 20, Gate.soleTenantCall 3 25]).length ≤
      ((AuthState.firstRate modelCrypto 1
        (.fresh (ratedRegistry 3) 10 1 60000000000) firstSubmission).getD
          ⟨1, 0⟩).allowance 5 :=
  admitted_le_bucket_rate modelCrypto (ratedRegistry 3) 10 1 60000000000 firstSubmission
    (ratedRegistry 1) [Gate.soleTenantCall 2 20, Gate.soleTenantCall 3 25] 1
    ⟨1, modelHash Gate.soleTenantKey.toList, 1, 0, 0⟩ (by decide +kernel) 0 20 5
    (by decide +kernel)

end Cosaci.Coordinator
