import Cosaci.Coordinator.SubmissionLine
import Cosaci.Webhook.Listener

/-!
# From the listener to the gate

The listener prints a submission with a format string of its own, and the coordinator
reads it with a JSON library, dispatches on its shape and rebuilds the signed payload.
The two agree on every payload that the listener builds, so a listener whose key is
registered gets past the signature check.
-/

namespace Cosaci.Webhook

open Foundation
open Cosaci.Core (Crypto Keypair)
open Coordinator (JobKind LegacyJobSubmission Credentials parseSubmissionLine checkLegacy)
open State (JobSubmissionPayload canonicalBytes TenantRegistry TenantRecord Gate GateReadings
  foldReplayKey fingerprint)

/-! ## Hexadecimal fields -/

/-- The coordinator reads back the bytes that the listener prints. -/
theorem parseHexArray_lowerHex {width : Nat} (bytes : Bytes width) :
    Coordinator.parseHexArray width (lowerHex bytes.toList) = some bytes :=
  Coordinator.parseHexArray_digits bytes

theorem plain_lowerHex (bytes : List UInt8) : PlainText (lowerHex bytes) := by
  have digits : ∀ value < 16, 32 ≤ (Nat.digitChar value).toNat ∧ Nat.digitChar value ≠ '"' ∧
      Nat.digitChar value ≠ '\\' := by decide
  intro character member
  obtain ⟨byte, -, digit⟩ := List.mem_flatMap.mp member
  have bounded := byte.toNat_lt
  rcases List.mem_cons.mp digit with rfl | digit
  · exact digits _ (by omega)
  · rw [List.mem_singleton.mp digit]
    exact digits _ (by omega)

/-! ## The line as a flat object -/

/-- The names of the members of a printed submission. -/
def lineNames : List (List Char) :=
  ["kind".toList, "a".toList, "b".toList, "deadline_secs".toList, "tenant_id".toList,
    "nonce".toList, "pubkey_hex".toList, "signature_hex".toList]

/-- The members of a printed submission. -/
def lineMembers (payload : JobSubmissionPayload) (keypair : Keypair) :
    List (List Char × JsonScalar) :=
  [("kind".toList, .string payload.kind.toList),
    ("a".toList, .integer payload.a.toInt),
    ("b".toList, .integer payload.b.toInt),
    ("deadline_secs".toList, .integer payload.deadlineSecs.toNat),
    ("tenant_id".toList, .integer payload.tenantId.toNat),
    ("nonce".toList, .integer payload.nonce.toNat),
    ("pubkey_hex".toList, .string (lowerHex keypair.verifyingKey.toList)),
    ("signature_hex".toList,
      .string (lowerHex (keypair.sign (canonicalBytes payload)).toList))]

theorem signAndSerialize_eq (payload : JobSubmissionPayload) (keypair : Keypair) :
    signAndSerialize payload keypair = renderFlat (lineMembers payload keypair) := by
  unfold signAndSerialize renderFlat lineMembers
  simp only [label, List.map_cons, List.map_nil, renderMember]
  simp only [Json.separated, JsonScalar.render]
  simp only [List.append_assoc, List.cons_append, List.nil_append]

/-- A member of an object whose names are distinct is found by its name. -/
private theorem fieldOf_of_mem {members : List (List Char × JsonValue)}
    (distinct : (members.map Prod.fst).Nodup) {name : List Char} {value : JsonValue}
    (member : (name, value) ∈ members) (position : Nat) :
    Coordinator.fieldOf name position (.object members) = some (some value) := by
  have only : members.filter (fun entry => entry.1 = name) = [(name, value)] := by
    induction members with
    | nil => cases member
    | cons entry rest ih =>
        rw [List.map_cons, List.nodup_cons] at distinct
        rcases List.mem_cons.mp member with rfl | later
        · have none : rest.filter (fun entry => entry.1 = name) = [] := by
            rw [List.filter_eq_nil_iff]
            intro other present same
            exact distinct.1 (List.mem_map.mpr ⟨other, present, of_decide_eq_true same⟩)
          rw [List.filter_cons, if_pos (decide_eq_true rfl), none]
        · have differs : entry.1 ≠ name := by
            rintro rfl
            exact distinct.1 (List.mem_map.mpr ⟨_, later, rfl⟩)
          rw [List.filter_cons_of_neg (by simpa using differs), ih distinct.2 later]
  simp only [Coordinator.fieldOf, only]

private theorem fieldOf_getElem {members : List (List Char × JsonValue)}
    (distinct : (members.map Prod.fst).Nodup) (index : Nat) (bound : index < members.length)
    (position : Nat) :
    Coordinator.fieldOf members[index].1 position (.object members) =
      some (some members[index].2) :=
  fieldOf_of_mem distinct (List.getElem_mem bound) position

/-- The members as the coordinator sees them. -/
def readMembersOf (payload : JobSubmissionPayload) (keypair : Keypair) :
    List (List Char × JsonValue) :=
  (lineMembers payload keypair).map fun member => (member.1, member.2.toValue)

private theorem names_distinct (payload : JobSubmissionPayload) (keypair : Keypair) :
    ((readMembersOf payload keypair).map Prod.fst).Nodup := by
  have names : lineNames.Nodup := by decide +kernel
  exact names

private theorem not_pipeline (payload : JobSubmissionPayload) (keypair : Keypair) :
    (JsonValue.object (readMembersOf payload keypair)).get "pipeline_cbor_hex".toList = none := by
  have absent : ∀ name ∈ lineNames, name ≠ "pipeline_cbor_hex".toList := by decide +kernel
  rw [JsonValue.get, Option.map_eq_none_iff, List.find?_eq_none]
  intro member present same
  have named : member.1 ∈ (readMembersOf payload keypair).map Prod.fst :=
    List.mem_map_of_mem (List.mem_reverse.mp present)
  exact absent member.1 named (of_decide_eq_true same)

/-- The submission that a printed line stands for. -/
def legacyOf (payload : JobSubmissionPayload) (kind : JobKind) (keypair : Keypair) :
    LegacyJobSubmission where
  tenantId := some payload.tenantId
  nonce := some payload.nonce
  pubkeyHex := some (lowerHex keypair.verifyingKey.toList)
  signatureHex := some (lowerHex (keypair.sign (canonicalBytes payload)).toList)
  kind := kind
  a := payload.a
  b := payload.b
  deadlineSecs := payload.deadlineSecs

private theorem plain_natural {value : Nat} (small : value < 2 ^ 128) :
    (JsonScalar.integer value).Plain := by
  simp only [JsonScalar.Plain]
  omega

private theorem plain_int32 (value : Int32) : (JsonScalar.integer value.toInt).Plain := by
  have low := value.le_toInt
  have high := value.toInt_lt
  simp only [JsonScalar.Plain]
  omega

variable {kind : JobKind} {payload : JobSubmissionPayload}

theorem plain_lineMembers (wire : payload.kind = kind.asWire) (keypair : Keypair) :
    ∀ member ∈ lineMembers payload keypair, PlainText member.1 ∧ member.2.Plain := by
  have names : ∀ name ∈ lineNames, PlainText name := by decide +kernel
  have kinds : PlainText payload.kind.toList := by
    rw [wire]
    cases kind <;> decide +kernel
  intro member present
  refine ⟨names member.1 (List.mem_map_of_mem present), ?_⟩
  simp only [lineMembers, List.mem_cons, List.not_mem_nil, or_false] at present
  rcases present with rfl | rfl | rfl | rfl | rfl | rfl | rfl | rfl
  · exact kinds
  · exact plain_int32 payload.a
  · exact plain_int32 payload.b
  · exact plain_natural (Nat.lt_trans payload.deadlineSecs.toNat_lt (by decide))
  · exact plain_natural (Nat.lt_trans payload.tenantId.toNat_lt (by decide))
  · exact plain_natural payload.nonce.isLt
  · exact plain_lowerHex _
  · exact plain_lowerHex _

theorem read_lineMembers (wire : payload.kind = kind.asWire) (keypair : Keypair) :
    LegacyJobSubmission.read (.object (readMembersOf payload keypair)) =
      some (legacyOf payload kind keypair) := by
  have kindRead : JobKind.read (.string payload.kind.toList) = some kind := by
    rw [wire]
    cases kind <;> decide +kernel
  have eight : (readMembersOf payload keypair).length = 8 := rfl
  have found := fieldOf_getElem (names_distinct payload keypair)
  let field (name : String) (position : Nat) : Option (Option JsonValue) :=
    Coordinator.fieldOf name.toList position (.object (readMembersOf payload keypair))
  have kindField : field "kind" 0 = some (some (.string payload.kind.toList)) :=
    found 0 (by omega) 0
  have aField : field "a" 1 = some (some (.number (Json.integer payload.a.toInt))) :=
    found 1 (by omega) 1
  have bField : field "b" 2 = some (some (.number (Json.integer payload.b.toInt))) :=
    found 2 (by omega) 2
  have deadlineField : field "deadline_secs" 3 =
      some (some (.number (Json.integer payload.deadlineSecs.toNat))) := found 3 (by omega) 3
  have tenantField : field "tenant_id" 4 =
      some (some (.number (Json.integer payload.tenantId.toNat))) := found 4 (by omega) 4
  have nonceField : field "nonce" 5 =
      some (some (.number (Json.integer payload.nonce.toNat))) := found 5 (by omega) 5
  have pubkeyField : field "pubkey_hex" 6 =
      some (some (.string (lowerHex keypair.verifyingKey.toList))) := found 6 (by omega) 6
  have signatureField : field "signature_hex" 7 =
      some (some (.string (lowerHex (keypair.sign (canonicalBytes payload)).toList))) :=
    found 7 (by omega) 7
  simp only [field] at *
  simp only [LegacyJobSubmission.read, Coordinator.AuthFields.read, Coordinator.isRecord,
    if_true, kindField, aField, bField, deadlineField, tenantField, nonceField, pubkeyField,
    signatureField, Coordinator.required, Coordinator.defaulted, Coordinator.nullable,
    Option.bind_some, Option.bind_eq_bind, Option.map_some, kindRead,
    Coordinator.readI32_integer, Coordinator.readU32_integer, Coordinator.readU64_integer,
    Coordinator.readU128_integer, Coordinator.readText, JsonValue.asStr]
  rfl

/-! ## The submission that is read back -/

theorem parseSubmissionLine_signAndSerialize {json : JsonReader} (reads : json.ReadsFlat)
    (wire : payload.kind = kind.asWire) (keypair : Keypair) :
    parseSubmissionLine json (signAndSerialize payload keypair) =
      some (.legacy (legacyOf payload kind keypair)) := by
  have parsed : json.fromStr (signAndSerialize payload keypair) =
      .ok (.object (readMembersOf payload keypair)) := by
    rw [signAndSerialize_eq]
    exact reads _ (plain_lineMembers wire keypair)
  simp only [parseSubmissionLine, parsed, not_pipeline, Option.isSome_none, Bool.false_eq_true,
    if_false, read_lineMembers wire keypair, Option.map_some]

/-- What the gate is given for a printed submission. -/
def credentialsOf (payload : JobSubmissionPayload) (keypair : Keypair) : Credentials where
  tenantId := payload.tenantId
  nonce := payload.nonce
  pubkey := keypair.verifyingKey
  signature := keypair.sign (canonicalBytes payload)

theorem credentials_legacyOf (payload : JobSubmissionPayload) (kind : JobKind)
    (keypair : Keypair) :
    (legacyOf payload kind keypair).credentials = some (credentialsOf payload keypair) := by
  simp only [Coordinator.AuthFields.credentials, legacyOf, Coordinator.parseHex32,
    Coordinator.parseHex64, parseHexArray_lowerHex, Option.bind_eq_bind, Option.bind_some]
  rfl

theorem payload_legacyOf (wire : payload.kind = kind.asWire) (keypair : Keypair) :
    (legacyOf payload kind keypair).payload (credentialsOf payload keypair) = payload := by
  simp only [LegacyJobSubmission.payload, legacyOf, credentialsOf, ← wire]

private theorem exists_kind_payloadOf (libraries : Libraries) (manifest : CosaciToml)
    (nonceBase : BitVec 128) (index : Nat) (pipeline : ResolvedPipeline) :
    ∃ kind : JobKind, (payloadOf libraries manifest nonceBase index pipeline).kind =
      kind.asWire := by
  cases found : firstCannedArgs libraries pipeline with
  | none => exact ⟨.add, by simp only [payloadOf, found]; rfl⟩
  | some canned =>
      obtain ⟨step, -, named⟩ := List.exists_of_findSome?_eq_some found
      cases step with
      | sourceFetch url reference => cases named
      | execWasm modulePath argsCborHex =>
          obtain rfl := Option.some.inj named
          simp only [payloadOf, found, Option.getD_some]
          split
          · exact ⟨.mul, rfl⟩
          · exact ⟨.add, rfl⟩

/-- The listener names only the kinds that the coordinator knows. -/
theorem exists_kind_of_mem_buildPayloads {libraries : Libraries} {clockNanos : Nat}
    {manifest : CosaciToml} {eventName : List Char} {event : JsonValue}
    {payloads : List JobSubmissionPayload}
    (built : buildPayloads libraries clockNanos manifest eventName event = .ok payloads)
    (member : payload ∈ payloads) : ∃ kind : JobKind, payload.kind = kind.asWire := by
  unfold buildPayloads at built
  cases translated : translate libraries.json manifest eventName event with
  | error error =>
      rw [translated] at built
      cases built
  | ok resolved =>
      rw [translated] at built
      obtain rfl := Except.ok.inj built
      obtain ⟨index, bound, rfl⟩ := List.mem_mapIdx.mp member
      exact exists_kind_payloadOf libraries manifest _ index _

/-! ## The gate -/

/-- A signed payload of a registered key passes the first two stages. -/
theorem identify_signed {crypto : Crypto} {keypair : Keypair} (correct : keypair.Correct crypto)
    (valid : crypto.validKey keypair.verifyingKey = true) {registry : TenantRegistry}
    {record : TenantRecord} (registered : registry.get payload.tenantId = some record)
    (key : record.signingFp = fingerprint crypto keypair.verifyingKey) (nowNs : UInt64)
    (readings : GateReadings) :
    Gate.identify crypto registry ⟨.job payload, keypair.verifyingKey,
      keypair.sign (canonicalBytes payload), nowNs, readings⟩ = .ok record := by
  have verified := correct (canonicalBytes payload)
  simp [Gate.identify, State.authenticate, State.Submission.tenantId,
    State.Submission.signedBytes, registered, key, valid, verified]

/-- The tenant's bucket, as the rate limiter finds it, is not empty. -/
def TokenLeft (gate : Gate) (record : TenantRecord) (tenantId : State.TenantId)
    (limitAt : UInt64) : Prop :=
  (((gate.rateLimiter.buckets.lookup tenantId).getD
    (.new record.rateCapacity record.rateRefillPerSec limitAt)).refill limitAt).tokens ≠ 0

/-- The replay guard, once swept, does not hold the tenant's nonce. -/
def NonceUnknown (crypto : Crypto) (gate : Gate) (payload : JobSubmissionPayload)
    (sweepAt : UInt64) : Prop :=
  (gate.replayGuard.sweep sweepAt).accepted.lookup
    (foldReplayKey crypto payload.tenantId payload.nonce) = none

/-- The coordinator reads a payload that the listener built, the listener's key and its
signature back from the line that the listener prints.  With the key registered, a token
left and the nonce unknown, the gate lets it pass exactly when the replay guard reads the
wall clock within a window of the reading that was taken for the line. -/
theorem listener_round_trip {json : JsonReader} (reads : json.ReadsFlat) {libraries : Libraries}
    {clockNanos : Nat} {manifest : CosaciToml} {eventName : List Char} {event : JsonValue}
    {payloads : List JobSubmissionPayload}
    (built : buildPayloads libraries clockNanos manifest eventName event = .ok payloads)
    {payload : JobSubmissionPayload} (member : payload ∈ payloads) (keypair : Keypair) :
    ∃ sub credentials,
      parseSubmissionLine json (signAndSerialize payload keypair) = some (.legacy sub) ∧
      sub.credentials = some credentials ∧
      sub.payload credentials = payload ∧
      credentials.pubkey = keypair.verifyingKey ∧
      credentials.signature = keypair.sign (canonicalBytes payload) ∧
      ∀ crypto nowNs readings registry gate record, keypair.Correct crypto →
        crypto.validKey keypair.verifyingKey = true →
        registry.get payload.tenantId = some record →
        record.signingFp = fingerprint crypto keypair.verifyingKey →
        TokenLeft gate record payload.tenantId readings.limitAt →
        NonceUnknown crypto gate payload readings.sweepAt →
        ((checkLegacy crypto nowNs readings registry gate sub).1 = .ok ↔
          absDiff readings.acceptAt nowNs ≤ gate.replayGuard.ttlNs) := by
  obtain ⟨kind, wire⟩ := exists_kind_of_mem_buildPayloads built member
  have rebuilt := payload_legacyOf wire keypair
  refine ⟨legacyOf payload kind keypair, credentialsOf payload keypair,
    parseSubmissionLine_signAndSerialize reads wire keypair,
    credentials_legacyOf payload kind keypair, rebuilt, rfl, rfl, ?_⟩
  intro crypto nowNs readings registry gate record correct valid registered key token unknown
  have known := identify_signed correct valid registered key nowNs readings
  simp only [checkLegacy, credentials_legacyOf, rebuilt]
  exact Gate.step_eq_ok_iff known unknown token

/-! ## A delivery -/

/-- Stand-ins for the libraries: the argument reader knows pairs of small numbers. -/
def flatLibraries : Libraries where
  json := flatReader
  hmac key message := Core.modelHash (key ++ message)
  decodeArgs
    | [0x82, a, b] => if a < 24 ∧ b < 24 then some (a.toNat.toInt32, b.toNat.toInt32) else none
    | _ => none

/-- One pipeline, which multiplies two numbers. -/
def productManifest (events : List (List Char)) : CosaciToml where
  tenant := ⟨1⟩
  pipelines := [⟨"product".toList, events, [.execWasm "mul.wasm".toList "820607".toList]⟩]

/-- A push of a commit. -/
def pushEvent : JsonValue :=
  .object [("checkout_sha".toList, .string "0123456789abcdef0123".toList)]

/-- The payload of that push. -/
def productPayload : JobSubmissionPayload where
  tenantId := 1
  kind := "mul"
  a := 6
  b := 7
  deadlineSecs := 60
  nonce := foldSeed "0123456789abcdef".toList

theorem listener_round_trip_product :
    buildPayloads flatLibraries 0 (productManifest ["push".toList]) "push".toList pushEvent =
        .ok [productPayload] ∧
      ∃ sub credentials, parseSubmissionLine flatReader
          (signAndSerialize productPayload (Core.modelKeypair Gate.soleTenantKey)) =
            some (.legacy sub) ∧
        sub.payload credentials = productPayload ∧
        (checkLegacy Core.modelCrypto 5 ⟨5, 5, 5⟩ Gate.soleTenantRegistry Gate.freshGate
          sub).1 = .ok := by
  have built : buildPayloads flatLibraries 0 (productManifest ["push".toList]) "push".toList
      pushEvent = .ok [productPayload] := by decide +kernel
  obtain ⟨sub, credentials, parsed, -, rebuilt, -, -, passes⟩ := listener_round_trip
    flatReader_readsFlat built (List.mem_singleton.mpr rfl)
    (Core.modelKeypair Gate.soleTenantKey)
  refine ⟨built, sub, credentials, parsed, rebuilt, ?_⟩
  refine (passes Core.modelCrypto 5 ⟨5, 5, 5⟩ Gate.soleTenantRegistry Gate.freshGate
    ⟨1, Core.modelHash Gate.soleTenantKey.toList, 1, 1, 0⟩ (Core.modelKeypair_correct _) rfl
    ?_ ?_ ?_ ?_).mpr ?_
  · decide +kernel
  · decide +kernel
  · unfold TokenLeft
    decide +kernel
  · unfold NonceUnknown
    decide +kernel
  · decide +kernel

/-- The same line is refused when the wall clock is moved by more than the window between
its two readings, although its tenant is registered, has a token left and the nonce is
new. -/
theorem moved_clock_refused :
    buildPayloads flatLibraries 0 (productManifest ["push".toList]) "push".toList pushEvent =
        .ok [productPayload] ∧
      Gate.soleTenantRegistry.get productPayload.tenantId =
        some ⟨1, fingerprint Core.modelCrypto Gate.soleTenantKey, 1, 1, 0⟩ ∧
      TokenLeft Gate.freshGate ⟨1, fingerprint Core.modelCrypto Gate.soleTenantKey, 1, 1, 0⟩ 1
        70000000000 ∧
      NonceUnknown Core.modelCrypto Gate.freshGate productPayload 70000000000 ∧
      (match parseSubmissionLine flatReader
          (signAndSerialize productPayload (Core.modelKeypair Gate.soleTenantKey)) with
        | some (.legacy sub) => (checkLegacy Core.modelCrypto 5
            ⟨70000000000, 70000000000, 70000000000⟩ Gate.soleTenantRegistry Gate.freshGate sub).1
        | _ => .ok) = .replayDetected := by
  have wire : productPayload.kind = JobKind.mul.asWire := rfl
  rw [parseSubmissionLine_signAndSerialize flatReader_readsFlat wire]
  unfold TokenLeft NonceUnknown
  decide +kernel

end Cosaci.Webhook
