import Cosaci.Core.Attestation
import Cosaci.Foundation.CborValues

/-!
# Decoding attestations

`decanonicalize` reads one CBOR item off the front of its input and takes the fields of
an attestation from it.  It inverts `canonicalize`, so that the signed message of an
attestation tells all of its fields but the signature.  It also accepts inputs that
`canonicalize` never produces.
-/

namespace Cosaci.Core.Attestation

open Foundation
open Foundation.Cbor (Item field readItem)

/-! ## The decoder -/

/-- How deep the CBOR library lets items be nested. -/
def recursionLimit : Nat := 256

/-- The fields in declaration order. -/
def fieldNames : List String :=
  ["version", "job_id", "commit", "runner_id", "result", "environment_hash", "artifact_hash",
    "timestamp_unix_ns", "signature"]

def readBytes (width : Nat) (item : Item) : Option (Bytes width) :=
  item.asBytes.bind fun bytes =>
    if full : bytes.length = width then some (ofBytes bytes full) else none

def readUInt64 (item : Item) : Option UInt64 :=
  (item.asIntWithin 0 (2 ^ 64)).map fun value => UInt64.ofNat value.toNat

def readInt64 (item : Item) : Option Int64 :=
  (item.asIntWithin (-2 ^ 63) (2 ^ 63)).map Int64.ofInt

def readResult (item : Item) : Option AttestationResult :=
  item.asText.bind fun name =>
    if name = utf8 (resultName .pass).toList then some .pass
    else if name = utf8 (resultName .fail).toList then some .fail
    else none

/-- Take the fields from the entries of a record, in whatever order they come.  Each has
to be there exactly once; other entries are ignored. -/
def ofFields (fields : List (List UInt8 × Item)) : Option Attestation := do
  let version ← (field "version" fields).bind Item.asByte
  let jobId ← (field "job_id" fields).bind (readBytes 16)
  let commit ← (field "commit" fields).bind (readBytes 32)
  let runnerId ← (field "runner_id" fields).bind readUInt64
  let result ← (field "result" fields).bind readResult
  let environmentHash ← (field "environment_hash" fields).bind (readBytes 32)
  let artifactHash ← (field "artifact_hash" fields).bind (readBytes 32)
  let timestampUnixNs ← (field "timestamp_unix_ns" fields).bind readInt64
  let signature ← (field "signature" fields).bind (readBytes 64)
  return ⟨version, jobId, commit, runnerId, result, environmentHash, artifactHash,
    timestampUnixNs, signature⟩

/-- Parse an attestation.  What follows the item is not looked at. -/
def decanonicalize (bytes : List UInt8) : Option Attestation :=
  (readItem recursionLimit bytes).bind fun read => read.1.fields.bind ofFields

/-! ## Fields in declaration order -/

/-- The codes of the fields. -/
def fieldCodes (attestation : Attestation) : List (List UInt8) :=
  [Cbor.unsigned attestation.version.toNat, Cbor.byteArray attestation.jobId.toList,
    Cbor.byteArray attestation.commit.toList, Cbor.unsigned attestation.runnerId.toNat,
    Cbor.text (resultName attestation.result),
    Cbor.byteArray attestation.environmentHash.toList,
    Cbor.byteArray attestation.artifactHash.toList,
    Cbor.signed attestation.timestampUnixNs.toInt,
    Cbor.byteArray attestation.signature.toList]

variable (attestation : Attestation) {item : Item}

theorem canonicalize_eq :
    canonicalize attestation = Cbor.record (fieldNames.zip attestation.fieldCodes) := rfl

/-- The names as they stand in the encoding. -/
def fieldKeys : List (List UInt8) :=
  fieldNames.map fun name => utf8 name.toList

theorem fieldKeys_nodup : fieldKeys.Nodup := by
  have injective : Function.Injective fun name : String => utf8 name.toList := by
    intro first second same
    have decoded := congrArg utf8Decode same
    simp only [utf8Decode_utf8, Option.some.injEq] at decoded
    exact String.toList_inj.mp decoded
  rw [fieldKeys, List.nodup_map_iff injective]
  decide

theorem fieldKeys_valid {key : List UInt8} (member : key ∈ fieldKeys) :
    (utf8Decode key).isSome = true ∧ key.length < 2 ^ 64 := by
  obtain ⟨name, listed, rfl⟩ := List.mem_map.mp member
  refine ⟨by rw [utf8Decode_utf8]; rfl, ?_⟩
  revert name
  decide +kernel

/-- Values for the fields, in declaration order. -/
theorem ofFields_ordered (version jobId commit runnerId result environmentHash artifactHash
    timestampUnixNs signature : Item) :
    ofFields (fieldKeys.zip [version, jobId, commit, runnerId, result, environmentHash,
      artifactHash, timestampUnixNs, signature]) = (do
        return ⟨← version.asByte, ← readBytes 16 jobId, ← readBytes 32 commit,
          ← readUInt64 runnerId, ← readResult result, ← readBytes 32 environmentHash,
          ← readBytes 32 artifactHash, ← readInt64 timestampUnixNs,
          ← readBytes 64 signature⟩) := by
  have found {name : String} {value : Item} (member : (utf8 name.toList, value) ∈
      fieldKeys.zip [version, jobId, commit, runnerId, result, environmentHash, artifactHash,
        timestampUnixNs, signature]) :=
    Cbor.field_of_mem (by exact fieldKeys_nodup) member
  simp only [ofFields, found (List.mem_of_getElem? (i := 0) rfl),
    found (List.mem_of_getElem? (i := 1) rfl), found (List.mem_of_getElem? (i := 2) rfl),
    found (List.mem_of_getElem? (i := 3) rfl), found (List.mem_of_getElem? (i := 4) rfl),
    found (List.mem_of_getElem? (i := 5) rfl), found (List.mem_of_getElem? (i := 6) rfl),
    found (List.mem_of_getElem? (i := 7) rfl), found (List.mem_of_getElem? (i := 8) rfl),
    Option.bind_some]

/-! ## What the encoder writes is read back -/

/-- The fields as items. -/
def fieldItems (attestation : Attestation) : List Item :=
  [.integer attestation.version.toNat, .byteArray attestation.jobId.toList,
    .byteArray attestation.commit.toList, .integer attestation.runnerId.toNat,
    .text (utf8 (resultName attestation.result).toList),
    .byteArray attestation.environmentHash.toList, .byteArray attestation.artifactHash.toList,
    .integer attestation.timestampUnixNs.toInt, .byteArray attestation.signature.toList]

def toItem (attestation : Attestation) : Item :=
  .record (fieldKeys.zip attestation.fieldItems)

theorem readBytes_byteArray {width : Nat} (fits : width < 2 ^ 64) (bytes : Bytes width) :
    readBytes width (.byteArray bytes.toList) = some bytes := by
  have length : bytes.toList.length = width := bytes.toList_length
  rw [readBytes, Item.asBytes_byteArray (by rwa [length]), Option.bind_some, dif_pos length]
  exact congrArg some (List.Vector.toList_injective rfl)

theorem readUInt64_integer (value : UInt64) : readUInt64 (.integer value.toNat) = some value := by
  have bound := value.toNat_lt
  have fits : Item.Word value.toNat := bound
  rw [readUInt64, Item.asIntWithin_integer fits (by omega) (by omega), Option.map_some,
    Int.toNat_natCast, UInt64.ofNat_toNat]

theorem word_of_int64 (value : Int64) : Item.Word value.toInt := by
  have below := value.toInt_lt
  have above := value.le_toInt
  cases signed : value.toInt with
  | ofNat magnitude =>
      rw [signed, Int.ofNat_eq_natCast] at below
      simp only [Item.Word]
      omega
  | negSucc magnitude =>
      rw [signed] at above
      simp only [Item.Word]
      omega

theorem readInt64_integer (value : Int64) : readInt64 (.integer value.toInt) = some value := by
  rw [readInt64, Item.asIntWithin_integer (word_of_int64 value) value.le_toInt value.toInt_lt,
    Option.map_some, Int64.ofInt_toInt]

theorem written_resultName (depth : Nat) (result : AttestationResult) :
    Item.Written (depth + 1) (.text (utf8 (resultName result).toList)) := by
  apply Item.written_text
  · rw [utf8Decode_utf8]
    rfl
  · cases result <;> decide +kernel

theorem readResult_text (result : AttestationResult) :
    readResult (.text (utf8 (resultName result).toList)) = some result := by
  rw [readResult, Item.asText_text (written_resultName 0 result), Option.bind_some]
  cases result with
  | pass => exact if_pos rfl
  | fail =>
      rw [if_neg (by decide +kernel), if_pos rfl]

theorem written_toItem : Item.Written recursionLimit attestation.toItem := by
  have keys : (fieldKeys.zip attestation.fieldItems).map Prod.fst = fieldKeys := rfl
  have count : (fieldKeys.zip attestation.fieldItems).length = 9 := rfl
  apply Item.written_record
  · rw [count]
    decide
  · intro entry member
    apply fieldKeys_valid
    rw [← keys]
    exact List.mem_map_of_mem member
  · intro entry member
    have item := (List.of_mem_zip member).2
    simp only [fieldItems, List.mem_cons, List.not_mem_nil, or_false] at item
    rcases item with item | item | item | item | item | item | item | item | item <;> rw [item]
    · exact Item.written_integer _ _
    · exact Item.written_byteArray _ (by simp)
    · exact Item.written_byteArray _ (by simp)
    · exact Item.written_integer _ _
    · exact written_resultName _ _
    · exact Item.written_byteArray _ (by simp)
    · exact Item.written_byteArray _ (by simp)
    · exact Item.written_integer _ _
    · exact Item.written_byteArray _ (by simp)

theorem fields_toItem :
    attestation.toItem.fields = some (fieldKeys.zip attestation.fieldItems) := by
  have keys : (fieldKeys.zip attestation.fieldItems).map Prod.fst = fieldKeys := rfl
  apply Item.fields_record attestation.written_toItem
  intro entry member
  apply fieldKeys_valid
  rw [← keys]
  exact List.mem_map_of_mem member

theorem ofFields_fieldItems :
    ofFields (fieldKeys.zip attestation.fieldItems) = some attestation := by
  simp only [fieldItems, ofFields_ordered, Item.asByte_integer, readUInt64_integer,
    readInt64_integer, readResult_text, readBytes_byteArray (by decide : 16 < 2 ^ 64),
    readBytes_byteArray (by decide : 32 < 2 ^ 64), readBytes_byteArray (by decide : 64 < 2 ^ 64)]
  rfl

/-! ## What is read has been written plainly -/

theorem bytes_of_readBytes (plain : item.plain = true) {width : Nat} {bytes : Bytes width}
    (read : readBytes width item = some bytes) : item.bytes = Cbor.byteArray bytes.toList := by
  obtain ⟨found, asBytes, full⟩ := Option.bind_eq_some_iff.mp read
  split at full
  · cases full
    exact Item.bytes_of_asBytes plain asBytes
  · cases full

theorem bytes_of_readUInt64 (plain : item.plain = true) {value : UInt64}
    (read : readUInt64 item = some value) : item.bytes = Cbor.unsigned value.toNat := by
  obtain ⟨found, within, rfl⟩ := Option.map_eq_some_iff.mp read
  obtain ⟨asInt, low, high⟩ := Item.asIntWithin_eq_some_iff.mp within
  lift found to Nat using low
  have fits : found < 2 ^ 64 := by exact_mod_cast high
  rw [Item.bytes_of_asInt plain asInt, Int.toNat_natCast, UInt64.toNat_ofNat_of_lt' fits]
  rfl

theorem bytes_of_readInt64 (plain : item.plain = true) {value : Int64}
    (read : readInt64 item = some value) : item.bytes = Cbor.signed value.toInt := by
  obtain ⟨found, within, rfl⟩ := Option.map_eq_some_iff.mp read
  obtain ⟨asInt, low, high⟩ := Item.asIntWithin_eq_some_iff.mp within
  rw [Item.bytes_of_asInt plain asInt, Int64.toInt_ofInt_of_le low high]

theorem bytes_of_readResult (plain : item.plain = true) {result : AttestationResult}
    (read : readResult item = some result) : item.bytes = Cbor.text (resultName result) := by
  obtain ⟨name, asText, known⟩ := Option.bind_eq_some_iff.mp read
  have bytes := Item.bytes_of_asText plain asText
  split at known
  · next pass =>
      cases known
      rw [bytes, pass]
      rfl
  · split at known
    · next fail =>
        cases known
        rw [bytes, fail]
        rfl
    · cases known

/-- Plain items for the fields have the codes of the fields. -/
theorem fieldCodes_of_ofFields {values : List Item} (count : values.length = 9)
    (plain : ∀ value ∈ values, value.plain = true) {attestation : Attestation}
    (read : ofFields (fieldKeys.zip values) = some attestation) :
    values.map Item.bytes = attestation.fieldCodes := by
  match values, count with
  | [version, jobId, commit, runnerId, result, environmentHash, artifactHash, timestampUnixNs,
      signature], _ =>
      simp only [List.forall_mem_cons] at plain
      rw [ofFields_ordered] at read
      simp only [Option.bind_eq_bind, Option.bind_eq_some_iff, Option.pure_def,
        Option.some.injEq] at read
      obtain ⟨readVersion, version', readJobId, jobId', readCommit, commit', readRunnerId,
        runnerId', readResult, result', readEnvironment, environment', readArtifact, artifact',
        readTimestamp, timestamp', readSignature, signature', rfl⟩ := read
      obtain ⟨plainVersion, plainJobId, plainCommit, plainRunnerId, plainResult,
        plainEnvironment, plainArtifact, plainTimestamp, plainSignature, -⟩ := plain
      simp only [List.map_cons, List.map_nil, fieldCodes,
        Item.bytes_of_asByte plainVersion version', bytes_of_readBytes plainJobId jobId',
        bytes_of_readBytes plainCommit commit', bytes_of_readUInt64 plainRunnerId runnerId',
        bytes_of_readResult plainResult result',
        bytes_of_readBytes plainEnvironment environment',
        bytes_of_readBytes plainArtifact artifact',
        bytes_of_readInt64 plainTimestamp timestamp',
        bytes_of_readBytes plainSignature signature']

/-- The bytes of a plain item whose entries are the fields in declaration order are the
canonical encoding of what is read from it. -/
theorem bytes_eq_canonicalize (plain : item.plain = true) {entries : List (List UInt8 × Item)}
    (fields : item.fields = some entries) (ordered : entries.map Prod.fst = fieldKeys)
    {attestation : Attestation} (read : ofFields entries = some attestation) :
    item.bytes = canonicalize attestation := by
  have split : entries = fieldKeys.zip (entries.map Prod.snd) := by
    rw [← ordered]
    exact List.zip_of_prod rfl rfl
  have count : (entries.map Prod.snd).length = 9 := by
    have length := congrArg List.length ordered
    rw [List.length_map] at length
    rw [List.length_map, length]
    rfl
  have plainValues : ∀ value ∈ entries.map Prod.snd, value.plain = true := by
    intro value member
    obtain ⟨entry, inside, rfl⟩ := List.mem_map.mp member
    exact (Item.bytes_of_fields plain fields).2 entry inside
  rw [split] at read
  have codes := fieldCodes_of_ofFields count plainValues read
  rw [List.map_map] at codes
  rw [canonicalize_eq]
  exact Item.bytes_eq_record plain fields ordered codes

theorem bytes_toItem : attestation.toItem.bytes = canonicalize attestation :=
  bytes_eq_canonicalize attestation.written_toItem.plain attestation.fields_toItem rfl
    attestation.ofFields_fieldItems

/-- An encoded attestation is read back, whatever follows it. -/
theorem readItem_canonicalize (rest : List UInt8) :
    readItem recursionLimit (canonicalize attestation ++ rest) =
      some (attestation.toItem, rest) := by
  rw [← bytes_toItem]
  exact attestation.written_toItem.readable rest

theorem decanonicalize_append (rest : List UInt8) :
    decanonicalize (canonicalize attestation ++ rest) = some attestation := by
  rw [decanonicalize, readItem_canonicalize, Option.bind_some, fields_toItem, Option.bind_some,
    ofFields_fieldItems]

theorem decanonicalize_canonicalize :
    decanonicalize (canonicalize attestation) = some attestation := by
  have read := decanonicalize_append attestation []
  rwa [List.append_nil] at read

theorem canonicalize_injective : Function.Injective canonicalize := by
  intro first second same
  have read := decanonicalize_canonicalize first
  rw [same, decanonicalize_canonicalize] at read
  exact (Option.some.inj read).symm

/-! ## Faithful encoding -/

/-- Two attestations agree on every field but the signature. -/
structure AgreeUnsigned (first second : Attestation) : Prop where
  version : first.version = second.version
  jobId : first.jobId = second.jobId
  commit : first.commit = second.commit
  runnerId : first.runnerId = second.runnerId
  result : first.result = second.result
  environmentHash : first.environmentHash = second.environmentHash
  artifactHash : first.artifactHash = second.artifactHash
  timestampUnixNs : first.timestampUnixNs = second.timestampUnixNs

/-- The signed message tells every field but the signature. -/
theorem canonicalSigningInput_eq_iff {first second : Attestation} :
    first.canonicalSigningInput = second.canonicalSigningInput ↔
      AgreeUnsigned first second := by
  constructor
  · intro same
    have fields := canonicalize_injective same
    simp only [Attestation.mk.injEq, and_true] at fields
    obtain ⟨version, jobId, commit, runnerId, result, environmentHash, artifactHash,
      timestampUnixNs⟩ := fields
    exact ⟨version, jobId, commit, runnerId, result, environmentHash, artifactHash,
      timestampUnixNs⟩
  · intro agree
    rw [canonicalSigningInput, canonicalSigningInput, agree.version, agree.jobId, agree.commit,
      agree.runnerId, agree.result, agree.environmentHash, agree.artifactHash,
      agree.timestampUnixNs]

/-- Encoding is faithful: attestations are read back as they were, two of them have the
same signed message exactly when they agree on all that is signed, and a change to a
signed attestation in anything but its signature changes the message. -/
theorem encoding_faithful :
    (∀ attestation, decanonicalize (canonicalize attestation) = some attestation) ∧
      (∀ first second : Attestation,
        first.canonicalSigningInput = second.canonicalSigningInput ↔
          AgreeUnsigned first second) ∧
      ∀ (attestation : Attestation) (keypair : Keypair) (changed : Attestation),
        ¬AgreeUnsigned (attestation.signWith keypair) changed →
          changed.canonicalSigningInput ≠
            (attestation.signWith keypair).canonicalSigningInput := by
  refine ⟨decanonicalize_canonicalize, fun _ _ => canonicalSigningInput_eq_iff, ?_⟩
  intro attestation keypair changed differs same
  exact differs (canonicalSigningInput_eq_iff.mp same.symm)

/-! ## Canonical form -/

/-- A byte string in canonical form: one item and nothing after it, all of its headers in
their shortest form, without tags and byte strings, and with the fields in declaration
order and no others. -/
def InCanonicalForm (bytes : List UInt8) : Prop :=
  ∃ item, readItem recursionLimit bytes = some (item, []) ∧ item.plain = true ∧
    item.fields.map (List.map Prod.fst) = some fieldKeys

theorem inCanonicalForm_canonicalize : InCanonicalForm (canonicalize attestation) := by
  have read := readItem_canonicalize attestation []
  rw [List.append_nil] at read
  refine ⟨attestation.toItem, read, attestation.written_toItem.plain, ?_⟩
  rw [fields_toItem]
  rfl

/-- Of the byte strings that decode to an attestation, exactly the one in canonical form
is its encoding. -/
theorem canonicalize_decanonicalize_iff (bytes : List UInt8) (attestation : Attestation)
    (decoded : decanonicalize bytes = some attestation) :
    canonicalize attestation = bytes ↔ InCanonicalForm bytes := by
  constructor
  · rintro rfl
    exact inCanonicalForm_canonicalize attestation
  · rintro ⟨item, read, plain, ordered⟩
    obtain ⟨entries, fields, keys⟩ := Option.map_eq_some_iff.mp ordered
    rw [decanonicalize, read, Option.bind_some, fields, Option.bind_some] at decoded
    rw [Cbor.readItem_sound recursionLimit bytes item [] read, List.append_nil,
      bytes_eq_canonicalize plain fields keys decoded]

/-- An unsigned attestation. -/
def blankAttestation : Attestation where
  version := currentVersion
  jobId := List.Vector.replicate 16 0
  commit := List.Vector.replicate 32 0
  runnerId := 7
  result := .pass
  environmentHash := List.Vector.replicate 32 0
  artifactHash := List.Vector.replicate 32 0
  timestampUnixNs := -1
  signature := List.Vector.replicate 64 0

theorem canonicalize_decanonicalize_blank :
    decanonicalize (canonicalize blankAttestation) = some blankAttestation ∧
      InCanonicalForm (canonicalize blankAttestation) := by
  have decoded := decanonicalize_canonicalize blankAttestation
  exact ⟨decoded, (canonicalize_decanonicalize_iff _ _ decoded).mp rfl⟩

/-- A byte after the encoding is not noticed. -/
theorem decanonicalize_trailing_byte :
    decanonicalize (canonicalize blankAttestation ++ [0]) = some blankAttestation ∧
      canonicalize blankAttestation ≠ canonicalize blankAttestation ++ [0] := by
  refine ⟨decanonicalize_append blankAttestation [0], ?_⟩
  intro same
  have length := congrArg List.length same
  rw [List.length_append, List.length_singleton] at length
  omega

end Cosaci.Core.Attestation
