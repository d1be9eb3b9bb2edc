import Cosaci.Coordinator.Submission

/-!
# What a submission costs its tenant

The gate records the nonce of a submission and takes a token before the reader knows
whether it can use the submission: the pipeline may not decode, and the queue may be
full.  The nonce is even recorded before the token is asked for.  A submission dropped
at one of these points cannot be sent again while the replay window is open.
-/

namespace Cosaci.Coordinator

open Foundation Cosaci.Core State

/-- The call of the gate costs the tenant a nonce and a token exactly when the submission
is queued; otherwise a later attempt is answered as if this one had not been made. -/
structure SettlesCall (crypto : Crypto) (before after : AuthState) (call : GateCall)
    (queued : Bool) : Prop where
  nonce : Gate.Records crypto before.registry before.gate call ↔ queued = true
  token : before.gate.rateLimiter.deducted after.gate.rateLimiter call.submission.tenantId =
    if queued = true then 1 else 0
  resend : queued = false → ∀ time, call.readings.sweepAt ≤ time →
    (Gate.step crypto after.registry after.gate (Gate.retry call time)).1 =
      (Gate.step crypto before.registry before.gate (Gate.retry call time)).1

namespace SubmissionReader

variable (reader : SubmissionReader)

/-- The submission in a line and the call of the gate that it leads to. -/
def callOf (line : InputLine) : Option (JobSubmission × GateCall) := do
  let text ← line.text
  let sub ← (reader.submissionOf text).toOption
  let call ← sub.gateCall line.nowNs line.readings
  return (sub, call)

/-- A line settles its account: one that leads to no call of the gate costs nothing and
is not queued, any other one costs a nonce and a token exactly when it is. -/
structure Settled (state : ReaderState) (auth : AuthState) (line : InputLine) : Prop where
  uncalled : reader.callOf line = none →
    (reader.processLine state line).1.isQueued = false ∧
      (reader.processLine state line).2.auth = some auth
  called : ∀ sub call, reader.callOf line = some (sub, call) →
    ∃ after, (reader.processLine state line).2.auth = some after ∧
      SettlesCall reader.crypto auth after call (reader.processLine state line).1.isQueued

/-- The queue takes another submission. -/
def Room (state : ReaderState) (line : InputLine) : Prop :=
  state.queue.length < reader.queueCap ∨ reader.queueCap = 0 ∧ line.receiverWaiting = true

/-- Nothing but the first three stages of the gate stands in the way of a line: the
tenant has a token left, and what the gate admits decodes and finds room. -/
def Unhindered (state : ReaderState) (auth : AuthState) (line : InputLine) : Prop :=
  ∀ sub call, reader.callOf line = some (sub, call) →
    ¬Gate.TurnedAway reader.crypto auth.registry auth.gate call ∧
    ((Gate.step reader.crypto auth.registry auth.gate call).1 = .ok →
      (∃ run, reader.resolve sub = some run) ∧ reader.Room state line)

/-! ## One line -/

section Line

variable {reader} {state : ReaderState} {auth : AuthState} {line : InputLine}

theorem exists_trySend_iff (reader : SubmissionReader) (state : ReaderState)
    (line : InputLine) (run : RunSubmission) :
    (∃ queue, reader.trySend state.queue line.receiverWaiting run = some queue) ↔
      reader.Room state line := by
  unfold trySend Room
  split
  · next free => simp [free]
  · next taken =>
      split
      · next handed => simp [handed]
      · next full => simp [taken, full]

variable {call : GateCall} {sub : JobSubmission}

theorem callOf_eq_some_iff :
    reader.callOf line = some (sub, call) ↔
      ∃ text, line.text = some text ∧ reader.submissionOf text = .ok sub ∧
        sub.gateCall line.nowNs line.readings = some call := by
  have parsed : ∀ text, (reader.submissionOf text).toOption = some sub ↔
      reader.submissionOf text = .ok sub := by
    intro text
    cases reader.submissionOf text <;> simp [Except.toOption]
  simp only [callOf, Option.bind_eq_bind, Option.bind_eq_some_iff, Option.pure_def,
    Option.some.injEq, Prod.mk.injEq]
  constructor
  · rintro ⟨text, read, _, found, _, gated, rfl, rfl⟩
    exact ⟨text, read, (parsed text).mp found, gated⟩
  · rintro ⟨text, read, found, gated⟩
    exact ⟨text, read, sub, (parsed text).mpr found, call, gated, rfl, rfl⟩

theorem isQueued_of_submissionOf_error {text : List Char} {result : LineResult}
    (failed : reader.submissionOf text = .error result) : result.isQueued = false := by
  unfold submissionOf at failed
  dsimp only at failed
  split at failed
  · cases failed
    rfl
  · split at failed
    · cases failed
      rfl
    · cases failed

theorem admission_of_formless (formless : sub.gateCall line.nowNs line.readings = none) :
    reader.admission line sub (some auth) = (.badSignature, some auth) := by
  have checked := checkSubmission_eq reader.crypto line.nowNs line.readings auth.registry
    auth.gate sub
  rw [formless] at checked
  simp only [admission, checked]

theorem admission_of_call (gated : sub.gateCall line.nowNs line.readings = some call) :
    reader.admission line sub (some auth) =
      ((Gate.step reader.crypto auth.registry auth.gate call).1,
        some { auth with gate := (Gate.step reader.crypto auth.registry auth.gate call).2 }) := by
  have checked := checkSubmission_eq reader.crypto line.nowNs line.readings auth.registry
    auth.gate sub
  rw [gated] at checked
  simp only [admission, checked]

/-- A line that leads to no call is dropped before the gate, or refused for its form. -/
theorem processLine_of_uncalled (authenticated : state.auth = some auth)
    (running : state.stopped = false) (uncalled : reader.callOf line = none) :
    (reader.processLine state line).1.isQueued = false ∧
      (reader.processLine state line).2.auth = some auth := by
  rw [processLine, running, if_neg Bool.false_ne_true]
  cases read : line.text with
  | none => exact ⟨rfl, authenticated⟩
  | some text =>
      dsimp only
      cases parsed : reader.submissionOf text with
      | error result => exact ⟨isQueued_of_submissionOf_error parsed, authenticated⟩
      | ok sub =>
          have formless : sub.gateCall line.nowNs line.readings = none := by
            rw [Option.eq_none_iff_forall_ne_some]
            intro call gated
            have called := callOf_eq_some_iff.mpr ⟨text, read, parsed, gated⟩
            rw [uncalled] at called
            cases called
          have refused : reader.processSubmission state line sub =
              (.refused .badSignature, { state with auth := some auth }) := by
            simp only [processSubmission, authenticated, admission_of_formless formless,
              reduceCtorEq, ↓reduceIte]
          dsimp only
          rw [refused]
          exact ⟨rfl, rfl⟩

/-- A line that leads to a call goes through the gate, and is queued if the gate admits
it and nothing stands in the way. -/
theorem processLine_of_called (authenticated : state.auth = some auth)
    (running : state.stopped = false) (called : reader.callOf line = some (sub, call)) :
    (reader.processLine state line).2.auth =
        some { auth with gate := (Gate.step reader.crypto auth.registry auth.gate call).2 } ∧
      ((reader.processLine state line).1.isQueued = true ↔
        (Gate.step reader.crypto auth.registry auth.gate call).1 = .ok ∧
          (∃ run, reader.resolve sub = some run) ∧ reader.Room state line) := by
  rcases callOf_eq_some_iff.mp called with ⟨text, read, parsed, gated⟩
  have processed : reader.processLine state line = reader.processSubmission state line sub := by
    rw [processLine, running, if_neg Bool.false_ne_true]
    simp only [read, parsed]
  rw [processed]
  simp only [processSubmission, authenticated, admission_of_call gated]
  by_cases admitted : (Gate.step reader.crypto auth.registry auth.gate call).1 = .ok
  · rw [if_pos admitted]
    cases resolved : reader.resolve sub with
    | none => simp [LineResult.isQueued]
    | some run =>
        have room := exists_trySend_iff reader state line run
        cases sent : reader.trySend state.queue line.receiverWaiting run with
        | none =>
            rw [sent] at room
            simp [LineResult.isQueued, sent, ← room]
        | some queue =>
            rw [sent] at room
            simp [LineResult.isQueued, admitted, sent, ← room]
  · rw [if_neg admitted]
    simp [LineResult.isQueued, admitted]

/-- A call that the rate limiter does not turn away is settled, if the submission is
queued exactly when the gate admits it. -/
theorem settlesCall_of_admitted {crypto : Crypto} {queued : Bool}
    (paid : ¬Gate.TurnedAway crypto auth.registry auth.gate call)
    (admitted : queued = true ↔ (Gate.step crypto auth.registry auth.gate call).1 = .ok) :
    SettlesCall crypto auth
      { auth with gate := (Gate.step crypto auth.registry auth.gate call).2 } call queued := by
  have decided : Gate.Decided crypto auth.registry auth.gate call _ _ :=
    Gate.decided_step auth.gate call
  have recorded : Gate.Records crypto auth.registry auth.gate call ↔ queued = true := by
    rw [decided.records_iff, admitted, or_iff_left_iff_imp]
    intro limited
    rw [limited] at decided
    exact False.elim (paid decided.turnedAway_of_rateLimited)
  refine ⟨recorded, ?_, ?_⟩
  · rw [decided.deducted]
    simp only [and_true, admitted]
  · intro dropped time later
    have unrecorded : ¬Gate.Records crypto auth.registry auth.gate call := by
      rw [recorded, dropped]
      exact Bool.false_ne_true
    have ordered : (call.readings.sweepAt :: Gate.readings (Gate.retry call time)).Pairwise
        (· ≤ ·) :=
      Gate.ordered_iff.mpr ⟨later, UInt64.le_refl _, UInt64.le_refl _⟩
    exact ((decided.alike_of_not_records unrecorded).step ordered).1

/-- A line settles its account exactly when nothing hinders it. -/
theorem settled_iff (authenticated : state.auth = some auth) (running : state.stopped = false) :
    reader.Settled state auth line ↔ reader.Unhindered state auth line := by
  constructor
  · rintro ⟨-, settled⟩ sub call called
    rcases settled sub call called with ⟨after, -, settles⟩
    have queued := (processLine_of_called authenticated running called).2
    have decided : Gate.Decided reader.crypto auth.registry auth.gate call _ _ :=
      Gate.decided_step auth.gate call
    refine ⟨?_, ?_⟩
    · intro turned
      rcases turned.step with ⟨tenant, known, accepted, stepped⟩
      have admitted := (queued.mp (settles.nonce.mp ⟨tenant, known, accepted⟩)).1
      rw [stepped] at admitted
      cases admitted
    · intro admitted
      exact (queued.mp (settles.nonce.mp (decided.records_iff.mpr (Or.inl admitted)))).2
  · intro unhindered
    refine ⟨processLine_of_uncalled authenticated running, ?_⟩
    intro sub call called
    rcases unhindered sub call called with ⟨paid, goesOn⟩
    rcases processLine_of_called authenticated running called with ⟨after, queued⟩
    have admitted : (reader.processLine state line).1.isQueued = true ↔
        (Gate.step reader.crypto auth.registry auth.gate call).1 = .ok :=
      queued.trans ⟨And.left, fun ok => ⟨ok, goesOn ok⟩⟩
    exact ⟨_, after, settlesCall_of_admitted paid admitted⟩

end Line

/-! ## Whole runs -/

/-- What holds of every line that is dealt with in a run, in the state it meets. -/
def Throughout (holds : ReaderState → AuthState → InputLine → Prop) (state : ReaderState)
    (events : List ReaderEvent) : Prop :=
  ∀ earlier line later, events = earlier ++ .line line :: later →
    ∀ auth, (reader.machine.final state earlier).auth = some auth →
      (reader.machine.final state earlier).stopped = false →
      holds (reader.machine.final state earlier) auth line

/-- In every run, whatever the main loop and the operator do in between, all lines settle
their accounts exactly when none of them is hindered. -/
theorem settled_iff_unhindered (state : ReaderState) (events : List ReaderEvent) :
    reader.Throughout reader.Settled state events ↔
      reader.Throughout reader.Unhindered state events := by
  constructor
  · intro settled earlier line later split auth authenticated running
    exact (settled_iff authenticated running).mp
      (settled earlier line later split auth authenticated running)
  · intro unhindered earlier line later split auth authenticated running
    exact (settled_iff authenticated running).mpr
      (unhindered earlier line later split auth authenticated running)

/-! ## Lines that are lost -/

/-- A registry with one tenant, whose bucket holds ten tokens. -/
def openRegistry : TenantRegistry where
  byId := Table.collect [(1, ⟨1, modelHash Gate.soleTenantKey.toList, 10, 1, 0⟩)]

/-- The digits of a field. -/
def hexDigits (bytes : List UInt8) : List Char :=
  bytes.flatMap fun byte => [Nat.digitChar (byte.toNat / 16), Nat.digitChar (byte.toNat % 16)]

def signedFields (nonce : BitVec 128) (bytes : List UInt8) : AuthFields where
  tenantId := some 1
  nonce := some nonce
  pubkeyHex := some (hexDigits Gate.soleTenantKey.toList)
  signatureHex := some (hexDigits (modelSignature Gate.soleTenantKey bytes).toList)

/-- A correctly signed call of a canned module. -/
def signedJob (nonce : BitVec 128) : JobSubmission :=
  .legacy { signedFields nonce (canonicalBytes ⟨1, "add", 1, 2, 60, nonce⟩) with
    kind := .add, a := 1, b := 2, deadlineSecs := 60 }

/-- A correctly signed submission of a byte that does not encode a pipeline. -/
def signedByte (nonce : BitVec 128) : JobSubmission :=
  .pipeline { signedFields nonce (canonicalBytesPipeline ⟨1, [255], 60, nonce⟩) with
    pipelineCborHex := ['f', 'f'], deadlineSecs := 60 }

/-- A reader with a queue of one slot, whose lines are single letters. -/
def letterReader : SubmissionReader where
  crypto := modelCrypto
  parseSubmissionLine
    | ['a'] => some (signedJob 5)
    | ['b'] => some (signedJob 6)
    | ['c'] => some (signedByte 7)
    | _ => none
  decodePipeline _ := none
  addWasm := []
  mulWasm := []
  queueCap := 1

def letterLine (letter : Char) (time : UInt64) : InputLine :=
  ⟨some [letter], time, ⟨time, time, time⟩, false⟩

def gatedState : ReaderState :=
  ⟨some ⟨openRegistry, Gate.freshGate⟩, [], false⟩

def letterResults (events : List ReaderEvent) : List (Option LineResult) :=
  letterReader.machine.run gatedState events

/-- A submission that finds the queue full, and one that does not decode: both are taken
for replays when they are sent again a second later, although the queue has been emptied. -/
theorem dropped_lines_lost :
    (letterResults [.line (letterLine 'a' 0), .line (letterLine 'b' 0), .receive,
        .line (letterLine 'b' 1000000000)]).drop 1 =
      [some .full, none, some (.refused .replayDetected)] ∧
    (letterResults [.line (letterLine 'a' 0), .receive,
        .line (letterLine 'b' 1000000000)]).map (Option.map LineResult.isQueued) =
      [some true, none, some true] ∧
    letterResults [.line (letterLine 'c' 0), .line (letterLine 'c' 1000000000)] =
      [some .undecodable, some (.refused .replayDetected)] ∧
    ¬letterReader.Throughout letterReader.Settled gatedState [.line (letterLine 'c' 0)] := by
  refine ⟨by decide +kernel, by decide +kernel, by decide +kernel, ?_⟩
  intro settled
  have unhindered := (settled_iff rfl rfl).mp (settled [] (letterLine 'c' 0) [] rfl _ rfl rfl)
  have called : letterReader.callOf (letterLine 'c' 0) = some (signedByte 7,
      ⟨.pipeline ⟨1, [255], 60, 7⟩, Gate.soleTenantKey,
        modelSignature Gate.soleTenantKey (canonicalBytesPipeline ⟨1, [255], 60, 7⟩), 0,
        ⟨0, 0, 0⟩⟩) := by decide +kernel
  rcases ((unhindered _ _ called).2 (by decide +kernel)).1 with ⟨run, resolved⟩
  cases resolved

end SubmissionReader

end Cosaci.Coordinator
