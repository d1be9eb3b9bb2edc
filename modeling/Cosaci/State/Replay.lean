import Cosaci.Foundation.Machine
import Cosaci.Foundation.Table
import Cosaci.Foundation.Word

/-!
# Replay protection

`ReplayGuard` of `cosaci-state`.  A message is accepted when its timestamp is
within the window of the clock and its nonce is not in the index of recently
accepted nonces.  Every operation first sweeps the index with a clock reading of
its own, and `accept` then reads the clock a second time.
-/

namespace Cosaci.State

open Foundation

/-- Reasons `accept` can reject a message. -/
inductive AcceptError where
  | staleTimestamp
  | replay
  deriving DecidableEq, Repr

/-- The window length and the acceptance time of every nonce in the window. -/
@[ext] structure ReplayGuard where
  ttlNs : UInt64
  accepted : Table UInt64 UInt64

namespace ReplayGuard

def new (ttlNs : UInt64) : ReplayGuard where
  ttlNs := ttlNs
  accepted := ∅

/-- Whether an acceptance is less than `ttlNs` old. -/
def inWindow (ttlNs now acceptedAt : UInt64) : Bool :=
  saturatingSub now acceptedAt < ttlNs

/-- Drop the nonces accepted at least `ttlNs` before `now`. -/
def sweep (guard : ReplayGuard) (now : UInt64) : ReplayGuard :=
  { guard with
    accepted := guard.accepted.retain fun _ => inWindow guard.ttlNs now }

/-- Try to accept a message, with the clock readings of the sweep and of the
check itself. -/
def accept (guard : ReplayGuard) (sweepAt now nonce timestampNs : UInt64) :
    Except AcceptError Unit × ReplayGuard :=
  let swept := guard.sweep sweepAt
  if guard.ttlNs < absDiff now timestampNs then
    (.error .staleTimestamp, swept)
  else if (swept.accepted.lookup nonce).isSome then
    (.error .replay, swept)
  else
    (.ok (), { swept with accepted := swept.accepted.insert nonce now })

/-- Whether the nonce is currently in the window. -/
def isKnown (guard : ReplayGuard) (sweepAt nonce : UInt64) : Bool × ReplayGuard :=
  let swept := guard.sweep sweepAt
  ((swept.accepted.lookup nonce).isSome, swept)

/-- Number of nonces currently in the window. -/
def count (guard : ReplayGuard) (sweepAt : UInt64) : Nat × ReplayGuard :=
  let swept := guard.sweep sweepAt
  (swept.accepted.entries.length, swept)

theorem inWindow_iff {ttlNs now acceptedAt : UInt64} :
    inWindow ttlNs now acceptedAt = true ↔ now.toNat - acceptedAt.toNat < ttlNs.toNat := by
  simp [inWindow, UInt64.lt_iff_toNat_lt]

@[simp] theorem ttlNs_sweep (guard : ReplayGuard) (now : UInt64) :
    (guard.sweep now).ttlNs = guard.ttlNs := rfl

@[simp] theorem lookup_sweep (guard : ReplayGuard) (now nonce : UInt64) :
    (guard.sweep now).accepted.lookup nonce =
      (guard.accepted.lookup nonce).filter (inWindow guard.ttlNs now) := by
  simp [sweep]

@[simp] theorem ttlNs_accept (guard : ReplayGuard) (sweepAt now nonce timestampNs : UInt64) :
    (guard.accept sweepAt now nonce timestampNs).2.ttlNs = guard.ttlNs := by
  simp only [accept]
  split
  · rfl
  · split <;> rfl

variable {guard : ReplayGuard} {sweepAt now nonce timestampNs : UInt64} {left right : ReplayGuard}
  {relevant : UInt64 → Prop} {start : UInt64} {floor : Nat}

/-- A message is accepted exactly when it is fresh and its nonce is not in the
swept index. -/
theorem accept_eq_ok_iff :
    (guard.accept sweepAt now nonce timestampNs).1 = .ok () ↔
      absDiff now timestampNs ≤ guard.ttlNs ∧
        (guard.sweep sweepAt).accepted.lookup nonce = none := by
  simp only [accept]
  split
  · next stale =>
      simp [UInt64.not_le.mpr stale]
  · next fresh =>
      split
      · next known =>
          simp only [reduceCtorEq, false_iff, not_and]
          intro _
          exact Option.isSome_iff_ne_none.mp known
      · next unknown =>
          simp only [true_iff]
          exact ⟨UInt64.not_lt.mp fresh, Option.not_isSome_iff_eq_none.mp unknown⟩

/-- Acceptance records the nonce in the swept index; rejection only sweeps. -/
theorem accept_state (guard : ReplayGuard) (sweepAt now nonce timestampNs : UInt64) :
    (guard.accept sweepAt now nonce timestampNs).2.accepted =
      if (guard.accept sweepAt now nonce timestampNs).1 = .ok () then
        (guard.sweep sweepAt).accepted.insert nonce now
      else
        (guard.sweep sweepAt).accepted := by
  simp only [accept]
  split
  · simp
  · split <;> simp

/-- An accepted nonce is recorded with the reading of the check. -/
theorem lookup_accepted (accepted : (guard.accept sweepAt now nonce timestampNs).1 = .ok ()) :
    (guard.accept sweepAt now nonce timestampNs).2.accepted.lookup nonce = some now := by
  rw [accept_state, if_pos accepted, Table.lookup_insert_eq, if_pos rfl]

/-- A rejected message leaves nothing behind but the sweep. -/
theorem accept_rejected (rejected : (guard.accept sweepAt now nonce timestampNs).1 ≠ .ok ()) :
    (guard.accept sweepAt now nonce timestampNs).2 = guard.sweep sweepAt := by
  apply ReplayGuard.ext
  · exact ttlNs_accept guard sweepAt now nonce timestampNs
  · rw [accept_state, if_neg rejected]

/-! ## Sweeping early cannot be observed -/

theorem lookup_sweep_sweep (guard : ReplayGuard) (nonce : UInt64) {early late : UInt64}
    (passes : early ≤ late) :
    ((guard.sweep early).sweep late).accepted.lookup nonce =
      (guard.sweep late).accepted.lookup nonce := by
  simp only [lookup_sweep, ttlNs_sweep, Option.filter_filter]
  congr 1
  funext acceptedAt
  rw [Bool.and_eq_right_iff_imp, inWindow_iff, inWindow_iff]
  intro retained
  have order := UInt64.le_iff_toNat_le.mp passes
  omega

/-- Two guards with the same window that agree on the relevant nonces still in it. -/
structure AlikeOn (relevant : UInt64 → Prop) (start : UInt64) (left right : ReplayGuard) :
    Prop where
  ttlNs : left.ttlNs = right.ttlNs
  accepted : ∀ nonce, relevant nonce → (left.sweep start).accepted.lookup nonce =
    (right.sweep start).accepted.lookup nonce

theorem AlikeOn.refl (relevant : UInt64 → Prop) (start : UInt64) (guard : ReplayGuard) :
    AlikeOn relevant start guard guard :=
  ⟨rfl, fun _ _ => rfl⟩

theorem AlikeOn.symm (alike : AlikeOn relevant start left right) :
    AlikeOn relevant start right left :=
  ⟨alike.ttlNs.symm, fun nonce member => (alike.accepted nonce member).symm⟩

theorem AlikeOn.trans {left middle right : ReplayGuard} (first : AlikeOn relevant start left middle)
    (second : AlikeOn relevant start middle right) : AlikeOn relevant start left right where
  ttlNs := first.ttlNs.trans second.ttlNs
  accepted nonce member := (first.accepted nonce member).trans (second.accepted nonce member)

theorem AlikeOn.of_lookup_eq (ttlNs : left.ttlNs = right.ttlNs)
    (accepted : ∀ nonce, relevant nonce →
      left.accepted.lookup nonce = right.accepted.lookup nonce) :
    AlikeOn relevant start left right where
  ttlNs := ttlNs
  accepted := by
    intro nonce member
    rw [lookup_sweep, lookup_sweep, accepted nonce member, ttlNs]

theorem AlikeOn.later {start now : UInt64} (alike : AlikeOn relevant start left right)
    (passes : start ≤ now) : AlikeOn relevant now left right where
  ttlNs := alike.ttlNs
  accepted := by
    intro nonce member
    rw [← lookup_sweep_sweep left nonce passes, ← lookup_sweep_sweep right nonce passes]
    rw [lookup_sweep (left.sweep start), lookup_sweep (right.sweep start),
      alike.accepted nonce member, ttlNs_sweep, ttlNs_sweep, alike.ttlNs]

/-- Guards that are alike give the same verdict on a relevant nonce and stay alike. -/
theorem AlikeOn.accept {start sweepAt : UInt64} (alike : AlikeOn relevant start left right)
    (sweeps : start ≤ sweepAt) (now : UInt64) {nonce : UInt64} (member : relevant nonce)
    (timestampNs : UInt64) :
    (left.accept sweepAt now nonce timestampNs).1 =
        (right.accept sweepAt now nonce timestampNs).1 ∧
      AlikeOn relevant now (left.accept sweepAt now nonce timestampNs).2
        (right.accept sweepAt now nonce timestampNs).2 := by
  have swept := (alike.later sweeps).accepted
  have verdict : (left.accept sweepAt now nonce timestampNs).1 =
      (right.accept sweepAt now nonce timestampNs).1 := by
    simp only [ReplayGuard.accept, swept nonce member, alike.ttlNs]
    split
    · rfl
    · split <;> rfl
  refine ⟨verdict, .of_lookup_eq (by simp [alike.ttlNs]) ?_⟩
  intro other relevant
  rw [accept_state, accept_state, verdict]
  split
  · rw [Table.lookup_insert_eq, Table.lookup_insert_eq, swept other relevant]
  · exact swept other relevant

/-- A message with an irrelevant nonce goes unnoticed. -/
theorem AlikeOn.accept_left {start sweepAt now : UInt64} (alike : AlikeOn relevant start left right)
    (sweeps : start ≤ sweepAt) (passes : sweepAt ≤ now) {nonce : UInt64} (foreign : ¬relevant nonce)
    (timestampNs : UInt64) :
    AlikeOn relevant now (left.accept sweepAt now nonce timestampNs).2 right where
  ttlNs := (ttlNs_accept _ _ _ _ _).trans alike.ttlNs
  accepted := by
    intro other member
    have differs : other ≠ nonce := by
      rintro rfl
      exact foreign member
    have untouched : (left.accept sweepAt now nonce timestampNs).2.accepted.lookup other =
        (left.sweep sweepAt).accepted.lookup other := by
      rw [accept_state]
      split
      · rw [Table.lookup_insert_eq, if_neg differs]
      · rfl
    have swept : ((left.accept sweepAt now nonce timestampNs).2.sweep now).accepted.lookup
        other = ((left.sweep sweepAt).sweep now).accepted.lookup other := by
      rw [lookup_sweep, lookup_sweep, untouched, ttlNs_accept, ttlNs_sweep]
    rw [swept, lookup_sweep_sweep left other passes]
    exact ((alike.later sweeps).later passes).accepted other member

/-- Two guards with the same window that agree on every nonce still in it. -/
structure Alike (start : UInt64) (left right : ReplayGuard) : Prop where
  ttlNs : left.ttlNs = right.ttlNs
  accepted : ∀ nonce, (left.sweep start).accepted.lookup nonce =
    (right.sweep start).accepted.lookup nonce

theorem alike_iff : Alike start left right ↔ AlikeOn (fun _ => True) start left right := by
  constructor
  · intro alike
    exact ⟨alike.ttlNs, fun nonce _ => alike.accepted nonce⟩
  · intro alike
    exact ⟨alike.ttlNs, fun nonce => alike.accepted nonce trivial⟩

theorem Alike.refl (start : UInt64) (guard : ReplayGuard) : Alike start guard guard :=
  alike_iff.mpr (.refl _ start guard)

theorem Alike.later {start now : UInt64} (alike : Alike start left right) (passes : start ≤ now) :
    Alike now left right :=
  alike_iff.mpr ((alike_iff.mp alike).later passes)

/-- A sweep is not noticed by any operation that sweeps again later. -/
theorem alike_sweep (guard : ReplayGuard) (now : UInt64) :
    Alike now (guard.sweep now) guard where
  ttlNs := rfl
  accepted nonce := lookup_sweep_sweep guard nonce (UInt64.le_refl now)

/-- Guards that are alike give the same verdict and stay alike. -/
theorem Alike.accept {start sweepAt : UInt64} (alike : Alike start left right)
    (sweeps : start ≤ sweepAt) (now nonce timestampNs : UInt64) :
    (left.accept sweepAt now nonce timestampNs).1 =
        (right.accept sweepAt now nonce timestampNs).1 ∧
      Alike now (left.accept sweepAt now nonce timestampNs).2
        (right.accept sweepAt now nonce timestampNs).2 := by
  rw [alike_iff]
  exact (alike_iff.mp alike).accept sweeps now trivial timestampNs

/-! ## The guard as a machine -/

/-- A call together with the clock readings it takes. -/
inductive Call where
  | accept (sweepAt now nonce timestampNs : UInt64)
  | isKnown (sweepAt nonce : UInt64)
  | count (sweepAt : UInt64)
  deriving DecidableEq, Repr

inductive Reply where
  | verdict (result : Except AcceptError Unit)
  | known (answer : Bool)
  | size (number : Nat)
  deriving DecidableEq

def readings : Call → List UInt64
  | .accept sweepAt now _ _ => [sweepAt, now]
  | .isKnown sweepAt _ => [sweepAt]
  | .count sweepAt => [sweepAt]

def step (guard : ReplayGuard) : Call → Reply × ReplayGuard
  | .accept sweepAt now nonce timestampNs =>
      let (result, next) := guard.accept sweepAt now nonce timestampNs
      (.verdict result, next)
  | .isKnown sweepAt nonce =>
      let (answer, next) := guard.isKnown sweepAt nonce
      (.known answer, next)
  | .count sweepAt =>
      let (number, next) := guard.count sweepAt
      (.size number, next)

def machine : Machine ReplayGuard Call Reply where
  step := step

/-- A message as far as the guard is concerned. -/
structure Message where
  nonce : UInt64
  timestampNs : UInt64
  deriving DecidableEq, Repr

/-- The clock reading at which a call accepted the message, if it did. -/
def acceptedAt (message : Message) : Call → Reply → Option UInt64
  | .accept _ now nonce timestampNs, .verdict (.ok ()) =>
      if (⟨nonce, timestampNs⟩ : Message) = message then some now else none
  | _, _ => none

/-- The clock readings at which a run accepted the message, in order. -/
def acceptanceTimes (message : Message) (guard : ReplayGuard) (calls : List Call) :
    List UInt64 :=
  machine.observe (acceptedAt message) guard calls

theorem acceptanceTimes_cons (message : Message) (guard : ReplayGuard) (call : Call)
    (rest : List Call) :
    acceptanceTimes message guard (call :: rest) =
      (acceptedAt message call (guard.step call).1).toList ++
        acceptanceTimes message (guard.step call).2 rest :=
  machine.observe_cons (acceptedAt message) guard call rest

theorem acceptedAt_eq_some {message : Message} {call : Call} {time : UInt64}
    (accepted : acceptedAt message call (guard.step call).1 = some time) :
    ∃ sweepAt, call = .accept sweepAt time message.nonce message.timestampNs ∧
      (guard.accept sweepAt time message.nonce message.timestampNs).1 = .ok () := by
  cases call with
  | accept sweepAt now nonce timestampNs =>
      simp only [step] at accepted
      cases result : (guard.accept sweepAt now nonce timestampNs).1 with
      | error reason =>
          rw [result] at accepted
          cases accepted
      | ok value =>
          rw [result] at accepted
          simp only [acceptedAt, Option.ite_none_right_eq_some, Option.some.injEq] at accepted
          rcases accepted with ⟨rfl, rfl⟩
          exact ⟨sweepAt, rfl, result⟩
  | isKnown sweepAt nonce => cases accepted
  | count sweepAt => cases accepted

@[simp] theorem ttlNs_step (guard : ReplayGuard) (call : Call) :
    (guard.step call).2.ttlNs = guard.ttlNs := by
  cases call with
  | accept sweepAt now nonce timestampNs => exact ttlNs_accept _ _ _ _ _
  | isKnown sweepAt nonce => rfl
  | count sweepAt => rfl

/-! ## Retention of accepted nonces -/

/-- The nonce cannot be accepted before `floor`: either the clock has reached
`floor`, or the index still holds an acceptance that is retained until then. -/
def Held (guard : ReplayGuard) (nonce : UInt64) (floor : Nat) (start : UInt64) : Prop :=
  floor ≤ start.toNat ∨
    ∃ acceptedAt, guard.accepted.lookup nonce = some acceptedAt ∧ acceptedAt ≤ start ∧
      floor ≤ acceptedAt.toNat + guard.ttlNs.toNat

theorem Held.later {nonce : UInt64} {start later : UInt64} (held : guard.Held nonce floor start)
    (passes : start ≤ later) : guard.Held nonce floor later := by
  have order := UInt64.le_iff_toNat_le.mp passes
  rcases held with reached | ⟨acceptedAt, found, before, bound⟩
  · exact Or.inl (by omega)
  · exact Or.inr ⟨acceptedAt, found, UInt64.le_trans before passes, bound⟩

/-- A sweep only forgets acceptances whose window has passed. -/
theorem Held.sweep {nonce : UInt64} {start now : UInt64} (held : guard.Held nonce floor start)
    (passes : start ≤ now) : (guard.sweep now).Held nonce floor now := by
  rcases held.later passes with reached | ⟨acceptedAt, found, before, bound⟩
  · exact Or.inl reached
  · by_cases retained : inWindow guard.ttlNs now acceptedAt = true
    · refine Or.inr ⟨acceptedAt, ?_, before, bound⟩
      simp [found, retained]
    · rw [inWindow_iff] at retained
      have order := UInt64.le_iff_toNat_le.mp before
      exact Or.inl (by omega)

/-- An accepted nonce has reached its floor. -/
theorem Held.floor_le {nonce : UInt64} (held : guard.Held nonce floor start)
    (absent : guard.accepted.lookup nonce = none) : floor ≤ start.toNat := by
  rcases held with reached | ⟨acceptedAt, found, _, _⟩
  · exact reached
  · rw [absent] at found
    cases found

theorem Held.accept {nonce : UInt64} {start sweepAt now : UInt64}
    (held : guard.Held nonce floor start) (sweeps : start ≤ sweepAt) (passes : sweepAt ≤ now)
    (other timestampNs : UInt64) :
    (guard.accept sweepAt now other timestampNs).2.Held nonce floor now := by
  have swept := held.sweep sweeps
  by_cases ok : (guard.accept sweepAt now other timestampNs).1 = .ok ()
  · have state := accept_state guard sweepAt now other timestampNs
    rw [if_pos ok] at state
    by_cases same : nonce = other
    · subst other
      have reached := swept.floor_le (accept_eq_ok_iff.mp ok).2
      have order := UInt64.le_iff_toNat_le.mp passes
      exact Or.inl (by omega)
    · rcases swept.later passes with reached | ⟨acceptedAt, found, before, bound⟩
      · exact Or.inl reached
      · refine Or.inr ⟨acceptedAt, ?_, before, ?_⟩
        · rw [state, Table.lookup_insert_eq, if_neg same, found]
        · simpa using bound
  · have state := accept_state guard sweepAt now other timestampNs
    rw [if_neg ok] at state
    rcases swept.later passes with reached | ⟨acceptedAt, found, before, bound⟩
    · exact Or.inl reached
    · refine Or.inr ⟨acceptedAt, by rw [state, found], before, ?_⟩
      simpa using bound

/-- Every call keeps the floor of every nonce. -/
theorem Held.step {nonce : UInt64} {call : Call} (held : guard.Held nonce floor start)
    (ordered : (start :: readings call).Pairwise (· ≤ ·)) :
    (guard.step call).2.Held nonce floor (Machine.lastReading readings start call) := by
  cases call with
  | accept sweepAt now other timestampNs =>
      simp only [readings, List.pairwise_cons, List.mem_cons, forall_eq_or_imp,
        List.not_mem_nil, false_imp_iff, implies_true, and_true] at ordered
      exact held.accept ordered.1.1 ordered.2.1 other timestampNs
  | isKnown sweepAt other =>
      exact held.sweep (List.rel_of_pairwise_cons ordered List.mem_cons_self)
  | count sweepAt =>
      exact held.sweep (List.rel_of_pairwise_cons ordered List.mem_cons_self)

/-- Acceptance sets a new floor one window later. -/
theorem held_of_accepted (ok : (guard.accept sweepAt now nonce timestampNs).1 = .ok ()) :
    (guard.accept sweepAt now nonce timestampNs).2.Held nonce
      (now.toNat + guard.ttlNs.toNat) now := by
  exact Or.inr ⟨now, lookup_accepted ok, UInt64.le_refl now, by simp⟩

/-! ## Whole runs -/

/-- Acceptances of one message are at least a window apart. -/
theorem acceptanceTimes_spaced (message : Message) (guard : ReplayGuard) {calls : List Call}
    (monotone : Machine.Monotone readings start calls) :
    (acceptanceTimes message guard calls).Pairwise fun first second =>
      first.toNat + guard.ttlNs.toNat ≤ second.toNat := by
  -- An acceptance holds its nonce for one window; the window never changes.
  apply machine.observe_pairwise readings
    (fun first start state => state.Held message.nonce (first.toNat + guard.ttlNs.toNat) start)
    (fun state => state.ttlNs = guard.ttlNs)
  · intro call state window
    exact (ttlNs_step state call).trans window
  · intro first start call state ordered window accepted
    rcases acceptedAt_eq_some accepted with ⟨sweepAt, rfl, ok⟩
    rw [← window]
    exact held_of_accepted ok
  · intro first start call state ordered held
    exact held.step ordered
  · intro first second start call state ordered held accepted
    rcases acceptedAt_eq_some accepted with ⟨sweepAt, rfl, ok⟩
    simp only [readings, List.pairwise_cons, List.mem_cons, forall_eq_or_imp,
      List.not_mem_nil, false_imp_iff, implies_true, and_true] at ordered
    have reached := (held.sweep ordered.1.1).floor_le (accept_eq_ok_iff.mp ok).2
    exact reached.trans (UInt64.le_iff_toNat_le.mp ordered.2.1)
  · exact monotone
  · rfl

/-- A message is only accepted while its timestamp is within the window. -/
theorem fresh_of_mem_acceptanceTimes (message : Message) (guard : ReplayGuard)
    (calls : List Call) :
    ∀ time ∈ acceptanceTimes message guard calls,
      time.toNat ≤ message.timestampNs.toNat + guard.ttlNs.toNat := by
  induction calls generalizing guard with
  | nil =>
      intro time member
      cases member
  | cons call rest ih =>
      intro time member
      rw [acceptanceTimes_cons, List.mem_append, Option.mem_toList] at member
      rcases member with now | later
      · rcases acceptedAt_eq_some now with ⟨sweepAt, rfl, ok⟩
        have fresh := UInt64.le_iff_toNat_le.mp (accept_eq_ok_iff.mp ok).1
        rw [toNat_absDiff] at fresh
        omega
      · have bound := ih _ time later
        rwa [ttlNs_step] at bound

/-- Over a whole run, two acceptances of one message are never less than a window
apart, and a message whose timestamp lies before its first acceptance is never
accepted again. -/
theorem replay_limited (ttlNs : UInt64) (message : Message) (calls : List Call)
    (monotone : Machine.Monotone readings 0 calls) :
    (acceptanceTimes message (new ttlNs) calls).Pairwise (fun first second =>
        first.toNat + ttlNs.toNat ≤ second.toNat) ∧
      ∀ first later, acceptanceTimes message (new ttlNs) calls = first :: later →
        message.timestampNs < first → later = [] := by
  have spaced := acceptanceTimes_spaced message (new ttlNs) monotone
  refine ⟨spaced, ?_⟩
  intro first later times past
  rw [times] at spaced
  apply List.eq_nil_iff_forall_not_mem.mpr
  intro second member
  have apart := List.rel_of_pairwise_cons spaced member
  have fresh := fresh_of_mem_acceptanceTimes message (new ttlNs) calls second
    (by rw [times]; exact List.mem_cons_of_mem first member)
  have order := UInt64.lt_iff_toNat_lt.mp past
  simp only [new] at apart fresh
  omega

theorem replay_limited_retried :
    acceptanceTimes ⟨7, 3⟩ (new 10)
        [.accept 5 5 7 3, .isKnown 9 7, .accept 12 13 7 3, .count 15, .accept 15 15 7 3] = [5] ∧
      ∀ first later, acceptanceTimes ⟨7, 3⟩ (new 10)
          [.accept 5 5 7 3, .isKnown 9 7, .accept 12 13 7 3, .count 15,
            .accept 15 15 7 3] = first :: later →
        (3 : UInt64) < first → later = [] :=
  ⟨by decide, (replay_limited 10 ⟨7, 3⟩ _ (by decide)).2⟩

/-- A message dated one window ahead is accepted at once, and again after its
nonce has been forgotten but before its timestamp has become stale. -/
theorem futureDated_accepted_twice :
    Machine.Monotone readings 0 [.accept 0 0 7 10, .accept 15 15 7 10] ∧
      acceptanceTimes ⟨7, 10⟩ (new 10) [.accept 0 0 7 10, .accept 15 15 7 10] = [0, 15] := by
  decide

end ReplayGuard

end Cosaci.State
