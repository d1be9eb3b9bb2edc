import Cosaci.Coordinator.LineGate
import Cosaci.Foundation.Fallible
import Cosaci.Webhook.RoundTrip

/-!
# Deliveries and the replay guard

The listener keeps no memory of the deliveries it has seen.  What stops a delivery that
is sent again is that its lines carry the same nonces again, and the replay guard of the
coordinator forgets a nonce after its window.  The nonces are taken from one field of
the event, so two events may also share them.
-/

namespace Cosaci.Webhook

open Foundation
open Cosaci.Core (Keypair)
open Coordinator (AuthState GateInput SubmissionReader parseSubmissionLine)
open Coordinator.SubmissionReader (gateReadings lineSightings otherThan)
open State (JobSubmissionPayload GateReadings GateCall Gate canonicalBytes foldReplayKey)

/-! ## Authenticated deliveries -/

/-- The request passes authentication, and its body is the given event. -/
structure Listener.Delivers (listener : Listener) (request : Request) (eventKind : List Char)
    (event : JsonValue) : Prop where
  parsed : request.body.map listener.libraries.json.fromSlice = some (.ok event)
  submissions : ∀ clockNanos, listener.submissions clockNanos request =
    .ok (buildPayloads listener.libraries clockNanos listener.manifest
      (composeEventName eventKind event) event)

variable {body : List UInt8} {clockNanos : Nat} {payloads : List JobSubmissionPayload}
  {listener : Listener} {request : Request} {event : JsonValue} {text : List Char}
  {json : JsonReader} {kind : Coordinator.JobKind} {payload : JobSubmissionPayload}
  {reader : SubmissionReader}

private theorem exists_event_of_payloadsFor {kind : Option (List Char)} {missing : List Char}
    (handled : listener.payloadsFor clockNanos body kind missing = .ok payloads) :
    ∃ eventKind event, listener.libraries.json.fromSlice body = .ok event ∧
      ∀ clock, listener.payloadsFor clock body kind missing =
        buildPayloads listener.libraries clock listener.manifest
          (composeEventName eventKind event) event := by
  cases kind with
  | none => cases handled
  | some eventKind =>
      cases read : listener.libraries.json.fromSlice body with
      | error error =>
          simp only [Listener.payloadsFor, read] at handled
          cases handled
      | ok event =>
          refine ⟨eventKind, event, rfl, fun clock => ?_⟩
          simp only [Listener.payloadsFor, read]

private theorem handleGithub_eq_payloadsFor {headers : List (List Char × List Char)}
    (handled : listener.handleGithub clockNanos body headers = .ok payloads) :
    ∃ kind missing, ∀ clock, listener.handleGithub clock body headers =
      listener.payloadsFor clock body kind missing := by
  unfold Listener.handleGithub at handled ⊢
  split at handled
  · cases handled
  · next configured =>
      simp only [configured]
      cases found : header headers "x-hub-signature-256".toList with
      | none =>
          rw [found] at handled
          cases handled
      | some signature =>
          rw [found] at handled
          dsimp only at handled ⊢
          cases verified : verifyGithubSignature listener.libraries body signature
              listener.githubSecret with
          | error error =>
              rw [verified] at handled
              cases handled
          | ok value => exact ⟨_, _, fun _ => rfl⟩

private theorem handleGitlab_eq_payloadsFor {headers : List (List Char × List Char)}
    (handled : listener.handleGitlab clockNanos body headers = .ok payloads) :
    ∃ kind missing, ∀ clock, listener.handleGitlab clock body headers =
      listener.payloadsFor clock body kind missing := by
  unfold Listener.handleGitlab at handled ⊢
  split at handled
  · cases handled
  · next configured =>
      simp only [configured]
      cases found : header headers "x-gitlab-token".toList with
      | none =>
          rw [found] at handled
          cases handled
      | some provided =>
          rw [found] at handled
          dsimp only at handled ⊢
          cases verified : verifyGitlabToken provided listener.gitlabToken with
          | error error =>
              rw [verified] at handled
              cases handled
          | ok value => exact ⟨_, _, fun _ => rfl⟩

/-- Every request that is accepted is an authenticated delivery. -/
theorem Listener.exists_delivers
    (accepted : listener.submissions clockNanos request = .ok (.ok payloads)) :
    ∃ eventKind event, listener.Delivers request eventKind event := by
  suffices routed : ∃ body kind missing, request.body = some body ∧
      ∀ clock, listener.submissions clock request =
        .ok (listener.payloadsFor clock body kind missing) by
    obtain ⟨body, kind, missing, present, routed⟩ := routed
    rw [routed] at accepted
    obtain ⟨eventKind, event, read, built⟩ := exists_event_of_payloadsFor (Except.ok.inj accepted)
    refine ⟨eventKind, event, ?_, fun clock => by rw [routed, built]⟩
    rw [present, Option.map_some, read]
  unfold Listener.submissions at accepted ⊢
  split at accepted
  · cases accepted
  · next posted =>
      simp only [posted, if_false]
      cases present : request.body with
      | none =>
          rw [present] at accepted
          cases accepted
      | some body =>
          rw [present] at accepted
          dsimp only at accepted ⊢
          split at accepted
          · next github =>
              obtain ⟨kind, missing, same⟩ :=
                handleGithub_eq_payloadsFor (Except.ok.inj accepted)
              exact ⟨body, kind, missing, rfl, fun clock => by rw [if_pos github, same]⟩
          · next notGithub =>
              split at accepted
              · next gitlab =>
                  obtain ⟨kind, missing, same⟩ :=
                    handleGitlab_eq_payloadsFor (Except.ok.inj accepted)
                  exact ⟨body, kind, missing, rfl, fun clock => by
                    rw [if_neg notGithub, if_pos gitlab, same]⟩
              · cases accepted

/-! ## The same delivery again -/

/-- With one of the fields present, the clock of the listener does not matter. -/
theorem nonceSeed_of_seedText (seeded : seedText event = some text) (clockNanos : Nat) :
    nonceSeed clockNanos event = foldSeed text := by
  rw [nonceSeed, seeded]

theorem Listener.Delivers.submissions_eq {eventKind : List Char}
    (delivers : listener.Delivers request eventKind event) (seeded : seedText event = some text)
    (first second : Nat) :
    listener.submissions first request = listener.submissions second request := by
  simp only [delivers.submissions, buildPayloads, nonceSeed_of_seedText seeded]

/-- The listener prints the same lines every time. -/
theorem Listener.Delivers.serve_eq {eventKind : List Char}
    (delivers : listener.Delivers request eventKind event) (seeded : seedText event = some text)
    (first second : Nat) : listener.serve first request = listener.serve second request := by
  simp only [Listener.serve, delivers.submissions_eq seeded first second]

theorem Listener.serve_of_submissions
    (accepted : listener.submissions clockNanos request = .ok (.ok payloads)) :
    (listener.serve clockNanos request).1 =
      payloads.map fun payload => signAndSerialize payload listener.tenantKeypair := by
  simp only [Listener.serve, accepted]

/-! ## The calls of the lines -/

/-- The call of the gate for a payload that the listener has signed. -/
def signedCall (payload : JobSubmissionPayload) (keypair : Keypair) (nowNs : UInt64)
    (readings : GateReadings) : GateCall where
  submission := .job payload
  pubkey := keypair.verifyingKey
  signature := keypair.sign (canonicalBytes payload)
  nowNs := nowNs
  readings := readings

theorem submissionOf_signAndSerialize (reads : json.ReadsFlat)
    (parses : reader.parseSubmissionLine = parseSubmissionLine json)
    (wire : payload.kind = kind.asWire) (keypair : Keypair) :
    reader.submissionOf (signAndSerialize payload keypair) =
      .ok (.legacy (legacyOf payload kind keypair)) := by
  have parsed := parseSubmissionLine_signAndSerialize reads wire keypair
  obtain ⟨middle, eq⟩ : ∃ middle, signAndSerialize payload keypair =
      '\x7b' :: (middle ++ ['\x7d']) := ⟨_, signAndSerialize_eq payload keypair⟩
  have trimmed : trim (signAndSerialize payload keypair) = signAndSerialize payload keypair := by
    rw [eq]
    exact trim_eq_self middle (by decide) (by decide)
  have visible : (signAndSerialize payload keypair).isEmpty = false ∧
      ((signAndSerialize payload keypair).head? == some '#') = false := by
    rw [eq]
    exact ⟨rfl, rfl⟩
  simp only [SubmissionReader.submissionOf, trimmed, visible, Bool.or_self,
    Bool.false_eq_true, if_false, parses, parsed]

theorem lineCall_signAndSerialize (reads : json.ReadsFlat)
    (parses : reader.parseSubmissionLine = parseSubmissionLine json)
    (wire : payload.kind = kind.asWire) (keypair : Keypair) (nowNs : UInt64)
    (readings : GateReadings) :
    reader.lineCall (signAndSerialize payload keypair) nowNs readings =
      some (signedCall payload keypair nowNs readings) := by
  have gated := credentials_legacyOf payload kind keypair
  simp only [SubmissionReader.lineCall, submissionOf_signAndSerialize reads parses wire,
    Except.toOption, Option.bind_some, Coordinator.JobSubmission.gateCall, gated,
    Option.bind_eq_bind, Option.pure_def, payload_legacyOf wire]
  rfl

/-- The replay key of a line is that of its payload. -/
theorem lineKey_signAndSerialize (reads : json.ReadsFlat)
    (parses : reader.parseSubmissionLine = parseSubmissionLine json)
    (wire : payload.kind = kind.asWire) (keypair : Keypair) :
    reader.lineKey (signAndSerialize payload keypair) =
      some (foldReplayKey reader.crypto payload.tenantId payload.nonce) := by
  rw [SubmissionReader.lineKey, lineCall_signAndSerialize reads parses wire, Option.map_some]
  rfl

/-! ## Traffic -/

/-- When a line passes through the gate. -/
structure Passage where
  nowNs : UInt64
  readings : GateReadings

/-- What happens: a request is sent to the listener, whose lines then pass through the
gate, or something else reaches the gate. -/
inductive Traffic where
  | request (clockNanos : Nat) (request : Request) (passages : List Passage)
  | other (input : GateInput)

/-- What reaches the gate. -/
def Listener.inputs (listener : Listener) : Traffic → List GateInput
  | .request clockNanos request passages =>
      (listener.serve clockNanos request).1.zipWith
        (fun text passage => .line text passage.nowNs passage.readings) passages
  | .other input => [input]

theorem Listener.inputs_of_submissions
    (accepted : listener.submissions clockNanos request = .ok (.ok [payload])) (passage : Passage) :
    listener.inputs (.request clockNanos request [passage]) =
      [.line (signAndSerialize payload listener.tenantKeypair) passage.nowNs
        passage.readings] := by
  simp only [Listener.inputs, Listener.serve_of_submissions accepted, List.map_cons,
    List.map_nil, List.zipWith_cons_cons, List.zipWith_nil_left]

/-- However often a delivery is sent, it leads to the same lines, and as long as these
reach the gate within less than one replay window, each is admitted at most once. -/
theorem delivery_admitted_once {listener : Listener} {request : Request}
    {eventKind : List Char} {event : JsonValue}
    (delivers : listener.Delivers request eventKind event) {text : List Char}
    (seeded : seedText event = some text) (reader : SubmissionReader) (state : AuthState)
    {start : UInt64} {traffic : List Traffic}
    (monotone : Machine.Monotone gateReadings start (traffic.flatMap listener.inputs))
    (within : ∀ line ∈ (listener.serve 0 request).1,
      ∀ first ∈ lineSightings line (traffic.flatMap listener.inputs),
      ∀ second ∈ lineSightings line (traffic.flatMap listener.inputs),
        second.toNat < first.toNat + state.gate.replayGuard.ttlNs.toNat) :
    (∀ clockNanos, listener.serve clockNanos request = listener.serve 0 request) ∧
      ∀ line ∈ (listener.serve 0 request).1,
        (reader.lineAdmissions line state (traffic.flatMap listener.inputs)).length ≤ 1 := by
  refine ⟨fun clockNanos => delivers.serve_eq seeded clockNanos 0, ?_⟩
  intro line printed
  exact SubmissionReader.length_lineAdmissions_le_one line state monotone (within line printed)

/-- A listener for pushes, and a coordinator that reads its lines. -/
def pushListener : Listener where
  libraries := flatLibraries
  githubSecret := [1, 2, 3]
  gitlabToken := "token".toList
  manifest := productManifest ["push".toList]
  tenantKeypair := Core.modelKeypair Gate.soleTenantKey

def flatSubmissionReader : SubmissionReader where
  crypto := Core.modelCrypto
  parseSubmissionLine := parseSubmissionLine flatReader
  decodePipeline _ := none
  addWasm := []
  mulWasm := []
  queueCap := 1

def soleTenantState : AuthState where
  registry := Gate.soleTenantRegistry
  gate := Gate.freshGate

/-- The body of a push. -/
def pushBody : List UInt8 :=
  utf8 (renderFlat [("checkout_sha".toList, .string "0123456789abcdef0123".toList)])

/-- A signed delivery of the push. -/
def pushRequest : Request where
  method := "POST".toList
  url := "/webhook/github".toList
  headers := [("X-GitHub-Event".toList, "push".toList),
    ("X-Hub-Signature-256".toList,
      "sha256=".toList ++ lowerHex (flatLibraries.hmac [1, 2, 3] pushBody).toList)]
  body := some pushBody

/-- The line that the push leads to. -/
def pushLine : List Char :=
  signAndSerialize productPayload (Core.modelKeypair Gate.soleTenantKey)

/-- The delivery is sent, and sent again after the given time. -/
def pushTwice (later : UInt64) : List Traffic :=
  [.request 0 pushRequest [⟨0, ⟨0, 0, 0⟩⟩],
    .request later.toNat pushRequest [⟨later, ⟨later, later, later⟩⟩]]

private theorem calls_product (nonce : BitVec 128) (keypair : Keypair) (time : UInt64) :
    flatSubmissionReader.Calls
      (.line (signAndSerialize { productPayload with nonce := nonce } keypair) time
        ⟨time, time, time⟩)
      (signedCall { productPayload with nonce := nonce } keypair time ⟨time, time, time⟩) := by
  have parses : flatSubmissionReader.parseSubmissionLine = parseSubmissionLine flatReader := rfl
  have wire : ({ productPayload with nonce := nonce } : JobSubmissionPayload).kind =
      Coordinator.JobKind.mul.asWire := rfl
  exact ⟨_, _, _, rfl, lineCall_signAndSerialize flatReader_readsFlat parses wire keypair time _⟩

private theorem exists_event_pushRequest
    (accepted : pushListener.submissions 0 pushRequest = .ok (.ok payloads)) :
    ∃ eventKind event, pushListener.Delivers pushRequest eventKind event ∧
      seedText event = some "0123456789abcdef0123".toList := by
  obtain ⟨eventKind, event, delivers⟩ := Listener.exists_delivers accepted
  refine ⟨eventKind, event, delivers, ?_⟩
  have read : (flatReader.fromSlice pushBody).toOption.bind seedText =
      some "0123456789abcdef0123".toList := by decide +kernel
  have parsed : flatReader.fromSlice pushBody = .ok event := Option.some.inj delivers.parsed
  rw [parsed] at read
  exact read

theorem accepts_pushRequest (clockNanos : Nat) :
    pushListener.submissions clockNanos pushRequest = .ok (.ok [productPayload]) := by
  have accepted : pushListener.submissions 0 pushRequest = .ok (.ok [productPayload]) := by
    decide +kernel
  obtain ⟨eventKind, event, delivers, seeded⟩ := exists_event_pushRequest accepted
  rw [delivers.submissions_eq seeded clockNanos 0, accepted]

theorem inputs_pushTwice (later : UInt64) :
    (pushTwice later).flatMap pushListener.inputs =
      [.line pushLine 0 ⟨0, 0, 0⟩, .line pushLine later ⟨later, later, later⟩] := by
  simp only [pushTwice, List.flatMap_cons, List.flatMap_nil,
    Listener.inputs_of_submissions (accepts_pushRequest _)]
  rfl

/-- Sent again after a second, it leads to no second job. -/
theorem delivery_admitted_once_push :
    pushListener.submissions 0 pushRequest = .ok (.ok [productPayload]) ∧
      pushLine ∈ (pushListener.serve 0 pushRequest).1 ∧
      (flatSubmissionReader.lineAdmissions pushLine soleTenantState
        ((pushTwice 1000000000).flatMap pushListener.inputs)).length ≤ 1 := by
  have accepted := accepts_pushRequest 0
  have served : (pushListener.serve 0 pushRequest).1 = [pushLine] :=
    Listener.serve_of_submissions accepted
  have printed : pushLine ∈ (pushListener.serve 0 pushRequest).1 := by
    rw [served]
    exact List.mem_singleton.mpr rfl
  obtain ⟨eventKind, event, delivers, seeded⟩ := exists_event_pushRequest accepted
  have monotone : Machine.Monotone gateReadings 0
      ((pushTwice 1000000000).flatMap pushListener.inputs) := by
    rw [inputs_pushTwice]
    decide
  have sightings : lineSightings pushLine ((pushTwice 1000000000).flatMap pushListener.inputs) =
      [0, 1000000000] := by
    rw [inputs_pushTwice]
    simp [lineSightings]
  refine ⟨accepted, printed, (delivery_admitted_once delivers seeded flatSubmissionReader
    soleTenantState monotone ?_).2 pushLine printed⟩
  intro line member
  rw [served, List.mem_singleton] at member
  rw [member, sightings]
  simp only [List.forall_mem_cons, List.not_mem_nil, false_implies, implies_true, and_true]
  decide

/-- Sent again after the window of one minute, the delivery leads to a second job. -/
theorem delivery_admitted_again :
    pushListener.submissions 0 pushRequest = .ok (.ok [productPayload]) ∧
      (pushListener.serve 0 pushRequest).1 = [pushLine] ∧
      (pushListener.serve 60000000000 pushRequest).1 = [pushLine] ∧
      Machine.Monotone gateReadings 0 ((pushTwice 60000000000).flatMap pushListener.inputs) ∧
      flatSubmissionReader.lineAdmissions pushLine soleTenantState
        ((pushTwice 60000000000).flatMap pushListener.inputs) = [0, 60000000000] := by
  refine ⟨accepts_pushRequest 0, Listener.serve_of_submissions (accepts_pushRequest _),
    Listener.serve_of_submissions (accepts_pushRequest _), ?_, ?_⟩
  · rw [inputs_pushTwice]
    decide
  · have called (time : UInt64) : flatSubmissionReader.Calls
        (.line pushLine time ⟨time, time, time⟩)
        (signedCall productPayload (Core.modelKeypair Gate.soleTenantKey) time
          ⟨time, time, time⟩) :=
      calls_product productPayload.nonce (Core.modelKeypair Gate.soleTenantKey) time
    have verdicts : flatSubmissionReader.gateMachine.run soleTenantState
        [.line pushLine 0 ⟨0, 0, 0⟩,
          .line pushLine 60000000000 ⟨60000000000, 60000000000, 60000000000⟩] =
        [some .ok, some .ok] := by
      rw [SubmissionReader.run_of_calls (.cons (called _) (.cons (called _) .nil))]
      decide +kernel
    rw [inputs_pushTwice, SubmissionReader.lineAdmissions, Machine.observe, verdicts]
    simp [SubmissionReader.lineAdmittedAt]

/-! ## Two deliveries -/

/-- The pipelines of the manifest that an event triggers. -/
def triggered (manifest : CosaciToml) (eventName : List Char) : List PipelineSection :=
  manifest.pipelines.filter fun pipeline => pipelineMatches pipeline eventName

/-- The nonces of a delivery are consecutive, one for each pipeline that it triggers. -/
theorem mem_nonces_iff {libraries : Libraries} {manifest : CosaciToml} {eventName : List Char}
    (seeded : seedText event = some text)
    (built : buildPayloads libraries clockNanos manifest eventName event = .ok payloads)
    (nonce : BitVec 128) :
    (∃ payload ∈ payloads, payload.nonce = nonce) ↔
      ∃ i < (triggered manifest eventName).length, foldSeed text + BitVec.ofNat 128 i = nonce := by
  unfold buildPayloads at built
  cases translated : translate libraries.json manifest eventName event with
  | error error =>
      rw [translated] at built
      cases built
  | ok resolved =>
      rw [translated] at built
      obtain rfl := Except.ok.inj built
      have length : resolved.length = (triggered manifest eventName).length :=
        (mapM_eq_ok_iff.mp translated).length_eq.symm
      rw [← length, nonceSeed_of_seedText seeded]
      constructor
      · rintro ⟨payload, member, rfl⟩
        obtain ⟨i, bound, rfl⟩ := List.mem_mapIdx.mp member
        exact ⟨i, bound, rfl⟩
      · rintro ⟨i, bound, rfl⟩
        exact ⟨_, List.mem_mapIdx.mpr ⟨i, bound, rfl⟩, rfl⟩

/-- One of two deliveries triggers nothing, or the nonces of each end before the first
nonce of the other. -/
def SeedsApart (manifest : CosaciToml) (firstName firstText secondName secondText : List Char) :
    Prop :=
  (triggered manifest firstName).length = 0 ∨ (triggered manifest secondName).length = 0 ∨
    ((triggered manifest firstName).length ≤ (foldSeed secondText - foldSeed firstText).toNat ∧
      (triggered manifest secondName).length ≤ (foldSeed firstText - foldSeed secondText).toNat)

instance (manifest : CosaciToml) (firstName firstText secondName secondText : List Char) :
    Decidable (SeedsApart manifest firstName firstText secondName secondText) :=
  inferInstanceAs (Decidable (_ ∨ _ ∨ _))

theorem nonces_disjoint_iff {libraries : Libraries} {firstClock secondClock : Nat}
    {manifest : CosaciToml} {firstName firstText secondName secondText : List Char}
    {firstEvent secondEvent : JsonValue} {firsts seconds : List JobSubmissionPayload}
    (firstSeeded : seedText firstEvent = some firstText)
    (secondSeeded : seedText secondEvent = some secondText)
    (firstBuilt : buildPayloads libraries firstClock manifest firstName firstEvent = .ok firsts)
    (secondBuilt : buildPayloads libraries secondClock manifest secondName secondEvent =
      .ok seconds) :
    (∀ first ∈ firsts, ∀ second ∈ seconds, first.nonce ≠ second.nonce) ↔
      SeedsApart manifest firstName firstText secondName secondText := by
  rw [SeedsApart, ← consecutive_disjoint_iff]
  constructor
  · intro disjoint i firstBound j secondBound shared
    obtain ⟨first, present, same⟩ := (mem_nonces_iff firstSeeded firstBuilt _).mpr
      ⟨i, firstBound, rfl⟩
    obtain ⟨second, present', same'⟩ := (mem_nonces_iff secondSeeded secondBuilt _).mpr
      ⟨j, secondBound, rfl⟩
    exact disjoint first present second present' (by rw [same, same', shared])
  · intro disjoint first present second present' shared
    obtain ⟨i, firstBound, same⟩ := (mem_nonces_iff firstSeeded firstBuilt _).mp
      ⟨first, present, rfl⟩
    obtain ⟨j, secondBound, same'⟩ := (mem_nonces_iff secondSeeded secondBuilt _).mp
      ⟨second, present', rfl⟩
    exact disjoint i firstBound j secondBound (by rw [same, same', shared])

/-- Two deliveries share no nonce exactly when their seeds are far enough apart.  In that
case, and unless replay keys of their nonces collide, no line of the second is taken for
a replay that would not be without the lines of the first. -/
theorem deliveries_apart_iff {listener : Listener} {firstRequest secondRequest : Request}
    {firstKind secondKind : List Char} {firstEvent secondEvent : JsonValue}
    (firstDelivers : listener.Delivers firstRequest firstKind firstEvent)
    (secondDelivers : listener.Delivers secondRequest secondKind secondEvent)
    {firstText secondText : List Char} (firstSeeded : seedText firstEvent = some firstText)
    (secondSeeded : seedText secondEvent = some secondText) {firstClock secondClock : Nat}
    {firsts seconds : List JobSubmissionPayload}
    (firstAccepted : listener.submissions firstClock firstRequest = .ok (.ok firsts))
    (secondAccepted : listener.submissions secondClock secondRequest = .ok (.ok seconds)) :
    ((∀ first ∈ firsts, ∀ second ∈ seconds, first.nonce ≠ second.nonce) ↔
        SeedsApart listener.manifest (composeEventName firstKind firstEvent) firstText
          (composeEventName secondKind secondEvent) secondText) ∧
      (SeedsApart listener.manifest (composeEventName firstKind firstEvent) firstText
          (composeEventName secondKind secondEvent) secondText →
        ∀ (json : JsonReader) (reader : SubmissionReader), json.ReadsFlat →
          reader.parseSubmissionLine = parseSubmissionLine json →
          (∀ first ∈ firsts, ∀ second ∈ seconds,
            foldReplayKey reader.crypto first.tenantId first.nonce =
              foldReplayKey reader.crypto second.tenantId second.nonce →
            first.nonce = second.nonce) →
          ∀ state start inputs, Machine.Monotone gateReadings start inputs →
            (reader.replayMachine (listener.serve secondClock secondRequest).1).runKept
                (otherThan (listener.serve firstClock firstRequest).1) state inputs =
              (reader.replayMachine (listener.serve secondClock secondRequest).1).run state
                (inputs.filter (otherThan (listener.serve firstClock firstRequest).1))) := by
  have firstBuilt := Except.ok.inj ((firstDelivers.submissions firstClock).symm.trans
    firstAccepted)
  have secondBuilt := Except.ok.inj ((secondDelivers.submissions secondClock).symm.trans
    secondAccepted)
  have disjoint := nonces_disjoint_iff firstSeeded secondSeeded firstBuilt secondBuilt
  refine ⟨disjoint, ?_⟩
  intro seedsApart json reader reads parses injective state start inputs monotone
  apply SubmissionReader.replays_unaffected ?_ state monotone
  simp only [Listener.serve_of_submissions firstAccepted,
    Listener.serve_of_submissions secondAccepted, List.mem_map]
  rintro _ ⟨first, present, rfl⟩ _ ⟨second, present', rfl⟩ key keyed shared
  obtain ⟨kind, wire⟩ := exists_kind_of_mem_buildPayloads firstBuilt present
  obtain ⟨kind', wire'⟩ := exists_kind_of_mem_buildPayloads secondBuilt present'
  rw [lineKey_signAndSerialize reads parses wire] at keyed
  rw [lineKey_signAndSerialize reads parses wire'] at shared
  have collide := Option.some.inj (keyed.trans shared.symm)
  exact disjoint.mpr seedsApart first present second present'
    (injective first present second present' collide)

/-- A listener for pushes of branches and of tags. -/
def commitListener : Listener where
  libraries := flatLibraries
  githubSecret := [1, 2, 3]
  gitlabToken := "token".toList
  manifest := productManifest ["Push Hook.push".toList, "Tag Push Hook.tag_push".toList]
  tenantKeypair := Core.modelKeypair Gate.soleTenantKey

/-- The members of the event for a commit. -/
def commitMembers (objectKind sha : List Char) : List (List Char × JsonScalar) :=
  [("object_kind".toList, .string objectKind), ("checkout_sha".toList, .string sha)]

def commitEvent (objectKind sha : List Char) : JsonValue :=
  .object ((commitMembers objectKind sha).map fun member => (member.1, member.2.toValue))

def commitRequest (eventKind objectKind sha : List Char) : Request where
  method := "POST".toList
  url := "/webhook/gitlab".toList
  headers := [("X-Gitlab-Event".toList, eventKind), ("X-Gitlab-Token".toList, "token".toList)]
  body := some (utf8 (renderFlat (commitMembers objectKind sha)))

/-- The payload for a commit. -/
def commitPayload (sha : List Char) : JobSubmissionPayload :=
  { productPayload with nonce := foldSeed sha }

def commit : List Char := "0123456789abcdef0123".toList

def otherCommit : List Char := "fedcba9876543210fedc".toList

/-- A branch is pushed at the commit. -/
def branchPush (sha : List Char) : Request :=
  commitRequest "Push Hook".toList "push".toList sha

/-- A tag is pushed at the commit. -/
def tagPush (sha : List Char) : Request :=
  commitRequest "Tag Push Hook".toList "tag_push".toList sha

theorem delivers_commitRequest (eventKind : List Char) {objectKind sha : List Char}
    (kind : PlainText objectKind) (plainSha : PlainText sha) :
    commitListener.Delivers (commitRequest eventKind objectKind sha) eventKind
      (commitEvent objectKind sha) := by
  have names : PlainText "object_kind".toList ∧ PlainText "checkout_sha".toList := by
    decide +kernel
  have plain : ∀ member ∈ commitMembers objectKind sha,
      PlainText member.1 ∧ member.2.Plain := by
    intro member present
    simp only [commitMembers, List.mem_cons, List.not_mem_nil, or_false] at present
    rcases present with rfl | rfl
    · exact ⟨names.1, kind⟩
    · exact ⟨names.2, plainSha⟩
  have read := flatReader_fromSlice plain
  refine ⟨congrArg some read, fun clockNanos => ?_⟩
  have routed : commitListener.submissions clockNanos (commitRequest eventKind objectKind sha) =
      .ok (commitListener.payloadsFor clockNanos
        (utf8 (renderFlat (commitMembers objectKind sha))) (some eventKind)
        "missing X-Gitlab-Event".toList) := rfl
  have parsed : commitListener.libraries.json.fromSlice
      (utf8 (renderFlat (commitMembers objectKind sha))) = .ok (commitEvent objectKind sha) :=
    read
  simp only [routed, Listener.payloadsFor, parsed]

private theorem delivers_branchPush {sha : List Char} (plain : PlainText sha) :
    commitListener.Delivers (branchPush sha) "Push Hook".toList
      (commitEvent "push".toList sha) :=
  delivers_commitRequest _ (by decide +kernel) plain

private theorem accepts_branchPush :
    commitListener.submissions 0 (branchPush commit) = .ok (.ok [commitPayload commit]) := by
  rw [(delivers_branchPush (by decide +kernel)).submissions]
  decide +kernel

/-- Pushes of two commits share no nonce. -/
theorem deliveries_apart_commits :
    commitListener.submissions 0 (branchPush commit) = .ok (.ok [commitPayload commit]) ∧
      commitListener.submissions 0 (branchPush otherCommit) =
        .ok (.ok [commitPayload otherCommit]) ∧
      (commitPayload commit).nonce ≠ (commitPayload otherCommit).nonce := by
  have first : commitListener.Delivers (branchPush commit) _ _ :=
    delivers_branchPush (by decide +kernel)
  have second : commitListener.Delivers (branchPush otherCommit) _ _ :=
    delivers_branchPush (by decide +kernel)
  have accepted : commitListener.submissions 0 (branchPush otherCommit) =
      .ok (.ok [commitPayload otherCommit]) := by
    rw [second.submissions]
    decide +kernel
  have seeded : seedText (commitEvent "push".toList commit) = some commit ∧
      seedText (commitEvent "push".toList otherCommit) = some otherCommit := by decide +kernel
  have apart := (deliveries_apart_iff first second seeded.1 seeded.2 accepts_branchPush
    accepted).1.mpr (by decide +kernel)
  exact ⟨accepts_branchPush, accepted,
    apart _ (List.mem_singleton.mpr rfl) _ (List.mem_singleton.mpr rfl)⟩

/-- A branch and a tag are pushed at the same commit: the second event is refused as a
replay of the first, although on its own it would have been admitted. -/
theorem same_commit_refused :
    composeEventName "Push Hook".toList (commitEvent "push".toList commit) ≠
        composeEventName "Tag Push Hook".toList (commitEvent "tag_push".toList commit) ∧
      commitListener.submissions 0 (branchPush commit) = .ok (.ok [commitPayload commit]) ∧
      commitListener.submissions 1 (tagPush commit) = .ok (.ok [commitPayload commit]) ∧
      flatSubmissionReader.gateMachine.run soleTenantState
          (commitListener.inputs (.request 0 (branchPush commit) [⟨0, ⟨0, 0, 0⟩⟩]) ++
            commitListener.inputs (.request 1 (tagPush commit)
              [⟨2000000000, ⟨2000000000, 2000000000, 2000000000⟩⟩])) =
        [some .ok, some .replayDetected] ∧
      flatSubmissionReader.gateMachine.run soleTenantState
          (commitListener.inputs (.request 1 (tagPush commit)
            [⟨2000000000, ⟨2000000000, 2000000000, 2000000000⟩⟩])) =
        [some .ok] := by
  have tagged : commitListener.Delivers (tagPush commit) _ _ :=
    delivers_commitRequest _ (by decide +kernel) (by decide +kernel)
  have accepted : commitListener.submissions 1 (tagPush commit) =
      .ok (.ok [commitPayload commit]) := by
    rw [tagged.submissions]
    decide +kernel
  have called (time : UInt64) : flatSubmissionReader.Calls
      (.line (signAndSerialize (commitPayload commit) commitListener.tenantKeypair) time
        ⟨time, time, time⟩)
      (signedCall (commitPayload commit) commitListener.tenantKeypair time
        ⟨time, time, time⟩) :=
    calls_product (foldSeed commit) commitListener.tenantKeypair time
  refine ⟨by decide +kernel, accepts_branchPush, accepted, ?_, ?_⟩
  · rw [Listener.inputs_of_submissions accepts_branchPush,
      Listener.inputs_of_submissions accepted, List.singleton_append,
      SubmissionReader.run_of_calls (.cons (called 0) (.cons (called 2000000000) .nil))]
    decide +kernel
  · rw [Listener.inputs_of_submissions accepted,
      SubmissionReader.run_of_calls (.cons (called 2000000000) .nil)]
    decide +kernel

end Cosaci.Webhook
