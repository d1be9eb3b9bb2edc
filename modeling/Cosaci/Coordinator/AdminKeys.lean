import Cosaci.Coordinator.RegistryFiles
import Cosaci.Foundation.LineFile

/-!
# Admin keys

The allowlist of admins, and the check of the greeting that opens an admin session.  An
admin is known by the fingerprint of a signing key.  The greeting is signed together with
the time, and it is accepted while the clock of the coordinator is close to that time.
-/

namespace Cosaci.Coordinator

open Foundation Cosaci.Core State

/-! ## The allowlist -/

structure AdminRecord where
  adminId : UInt64
  signingFp : Hash
  enrolledAtUnixNs : UInt64
  deriving DecidableEq

structure AdminKeySet where
  byFp : Table Hash AdminRecord

def AdminKeySet.get (set : AdminKeySet) (fp : Hash) : Option AdminRecord :=
  set.byFp.lookup fp

/-- The bytes as a debugger prints them in hexadecimal. -/
def debugHex (bytes : List UInt8) : List Char :=
  '[' :: List.intercalate ", ".toList (bytes.map fun byte =>
    [Nat.digitChar (byte.toNat / 16), Nat.digitChar (byte.toNat % 16)]) ++ [']']

def AdminKeySet.insert (set : AdminKeySet) (record : AdminRecord) :
    Except IoError AdminKeySet :=
  if (set.get record.signingFp).isSome then
    .error ⟨.alreadyExists, "admin signing_fp ".toList ++
      debugHex (record.signingFp.toList.take 4) ++ "… already enrolled".toList⟩
  else
    .ok ⟨set.byFp.insert record.signingFp record⟩

/-- An error in a line of the file. -/
def IoError.invalidAdmin (lineno : Nat) (msg : List Char) : IoError :=
  ⟨.invalidData, "admin_keys.txt line ".toList ++ Json.number lineno ++ ": ".toList ++ msg⟩

/-- The next of the remaining fields. -/
def nextAdminField (lineno : Nat) (name : String) :
    List (List Char) → Except IoError (List Char × List (List Char))
  | [] => .error (.invalidAdmin lineno ("missing field: ".toList ++ name.toList))
  | field :: rest => .ok (field, rest)

def parseAdminLine (lineno : Nat) (line : List Char) : Except IoError AdminRecord := do
  let (adminIdS, rest) ← nextAdminField lineno "admin_id" (words isAsciiWhiteSpace line)
  let (signingFpS, rest) ← nextAdminField lineno "signing_fp_hex" rest
  let (registeredS, rest) ← nextAdminField lineno "enrolled_at_unix_ns" rest
  ensure rest.isEmpty (.invalidAdmin lineno "trailing fields after enrolled_at_unix_ns".toList)
  let adminId ← orError (fun _ => .invalidAdmin lineno "admin_id not a u64".toList)
    (parseU64 adminIdS)
  let signingFp ← okOr (.invalidAdmin lineno "signing_fp_hex not 64 lowercase-hex chars".toList)
    (parseHex32 signingFpS)
  let enrolledAtUnixNs ← orError
    (fun _ => .invalidAdmin lineno "enrolled_at_unix_ns not a u64".toList) (parseU64 registeredS)
  return ⟨adminId, signingFp, enrolledAtUnixNs⟩

theorem nextAdminField_eq_ok {lineno : Nat} {name : String} {fields rest : List (List Char)}
    {field : List Char} :
    nextAdminField lineno name fields = .ok (field, rest) ↔ fields = field :: rest := by
  cases fields with
  | nil => exact ⟨nofun, nofun⟩
  | cons first others => simp [nextAdminField]

/-- A line stands for an admin when it has three words that do. -/
theorem parseAdminLine_eq_ok_iff {lineno : Nat} {line : List Char} {record : AdminRecord} :
    parseAdminLine lineno line = .ok record ↔
      ∃ adminIdS signingFpS registeredS,
        words isAsciiWhiteSpace line = [adminIdS, signingFpS, registeredS] ∧
        parseU64 adminIdS = .ok record.adminId ∧
        parseHex32 signingFpS = some record.signingFp ∧
        parseU64 registeredS = .ok record.enrolledAtUnixNs := by
  unfold parseAdminLine
  simp only [bind_eq_ok, Prod.exists, nextAdminField_eq_ok, ensure_eq_ok, orError_eq_ok,
    okOr_eq_ok]
  constructor
  · rintro ⟨adminIdS, _, fields, signingFpS, _, rfl, registeredS, rest, rfl, _, last, adminId,
      identified, signingFp, signed, enrolledAt, registered, same⟩
    cases same
    rw [List.isEmpty_iff.mp last] at fields
    exact ⟨adminIdS, signingFpS, registeredS, fields, identified, signed, registered⟩
  · rintro ⟨adminIdS, signingFpS, registeredS, fields, identified, signed, registered⟩
    exact ⟨adminIdS, _, fields, signingFpS, _, rfl, registeredS, [], rfl, (), rfl, _, identified,
      _, signed, _, registered, rfl⟩

/-- How admins stand in the lines of the file. -/
def adminKeysFormat : LineFormat IoError AdminRecord where
  skips := isSkipped
  parse := parseAdminLine
  numbered parsed := by
    rw [parseAdminLine_eq_ok_iff] at parsed ⊢
    exact parsed

/-- The allowlist that a text stands for. -/
def AdminKeySet.loadFromText (text : List Char) : Except IoError AdminKeySet :=
  adminKeysFormat.load AdminKeySet.insert 1 ⟨∅⟩ (textLines text)

/-- No two admins share a fingerprint. -/
theorem AdminKeySet.insertsNew :
    InsertsNew AdminRecord.signingFp AdminKeySet.insert AdminKeySet.get where
  accepts {set record} := by
    unfold AdminKeySet.insert
    cases set.get record.signingFp <;> simp
  updates {set next record} inserted := by
    unfold AdminKeySet.insert at inserted
    split at inserted
    · cases inserted
    · cases inserted
      funext fp
      rw [Function.update_apply]
      exact Table.lookup_insert_eq set.byFp record.signingFp fp record

/-- The fingerprints that a file allows are in its lines. -/
theorem AdminKeySet.mem_of_loadFromText {text : List Char} {set : AdminKeySet}
    (load : AdminKeySet.loadFromText text = .ok set) :
    ∃ records, adminKeysFormat.Holds (textLines text) records ∧
      ∀ fp record, set.get fp = some record → record ∈ records ∧ record.signingFp = fp := by
  have empty : AdminKeySet.get ⟨∅⟩ = fun _ => none := rfl
  obtain ⟨records, holds, -, known⟩ := (insertsNew.load_iff empty).mp ⟨set, load, rfl⟩
  refine ⟨records, holds, fun fp record found => ?_⟩
  rw [← known] at found
  exact mem_of_latestBy found

/-! ## The greeting -/

inductive AdminAuthCheck where
  | ok (adminId : UInt64)
  | unauthorized
  deriving DecidableEq

def adminHelloChallenge : List UInt8 :=
  "cosaci-admin-hello-v1".toUTF8.toList

/-- Sixty seconds. -/
def adminHelloFreshnessNs : UInt64 :=
  60 * 1000000000

/-- What an admin signs. -/
def adminHelloMessage (challenge : List UInt8) (tsUnixNs : UInt64) : List UInt8 :=
  challenge ++ littleEndian 8 tsUnixNs.toNat

/-- `u64::abs_diff` -/
def absDiff (first second : UInt64) : UInt64 :=
  if first < second then second - first else first - second

def verifyAdminHello (crypto : Crypto) (set : AdminKeySet) (pubkey : Bytes 32)
    (tsUnixNs : UInt64) (signature : Bytes 64) (challenge : List UInt8) (freshnessNs : UInt64)
    (now : UInt64) : AdminAuthCheck :=
  if absDiff now tsUnixNs > freshnessNs then
    .unauthorized
  else
    match set.get (crypto.sha256 pubkey.toList) with
    | none => .unauthorized
    | some record =>
        if !crypto.validKey pubkey then
          .unauthorized
        else if !crypto.verify pubkey (adminHelloMessage challenge tsUnixNs) signature then
          .unauthorized
        else
          .ok record.adminId

theorem verifyAdminHello_eq_ok_iff {crypto : Crypto} {set : AdminKeySet} {pubkey : Bytes 32}
    {tsUnixNs : UInt64} {signature : Bytes 64} {challenge : List UInt8} {freshnessNs : UInt64}
    {now adminId : UInt64} :
    verifyAdminHello crypto set pubkey tsUnixNs signature challenge freshnessNs now =
        .ok adminId ↔
      absDiff now tsUnixNs ≤ freshnessNs ∧
      (set.get (crypto.sha256 pubkey.toList)).map AdminRecord.adminId = some adminId ∧
      crypto.validKey pubkey = true ∧
      crypto.verify pubkey (adminHelloMessage challenge tsUnixNs) signature = true := by
  unfold verifyAdminHello
  split
  · next stale =>
      refine ⟨nofun, fun fresh => absurd fresh.1 (UInt64.not_le.mpr stale)⟩
  · next fresh =>
      have fresh := UInt64.not_lt.mp fresh
      cases set.get (crypto.sha256 pubkey.toList) with
      | none => simp
      | some record =>
          cases crypto.validKey pubkey <;>
            cases crypto.verify pubkey (adminHelloMessage challenge tsUnixNs) signature <;>
              simp [fresh]

end Cosaci.Coordinator
