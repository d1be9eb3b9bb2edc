import Cosaci.Coordinator.Session
import Cosaci.Coordinator.Submission
import Cosaci.Foundation.LineFile

/-!
# Registry files

The files of tenants and of enrolled agents: one record in a line, comments and blank
lines between them.  Loading a file stops at the first line that is no record.  Revoking
an identifier copies the lines of a file, without reading more of them than the first
word.
-/

namespace Cosaci.Coordinator

open Foundation Cosaci.Core State

/-! ## Errors -/

inductive IoErrorKind where
  | notFound
  | alreadyExists
  | invalidData
  deriving DecidableEq, Repr

structure IoError where
  kind : IoErrorKind
  text : List Char
  deriving DecidableEq

/-- A file that does not exist. -/
def IoError.noSuchFile : IoError :=
  ⟨.notFound, "No such file or directory (os error 2)".toList⟩

/-- A file that is not text. -/
def IoError.notUtf8 : IoError :=
  ⟨.invalidData, "stream did not contain valid UTF-8".toList⟩

def IoError.invalid (lineno : Nat) (msg : List Char) : IoError :=
  ⟨.invalidData, "tenants.txt line ".toList ++ Json.number lineno ++ ": ".toList ++ msg⟩

/-- Replace the error of a parser. -/
def orError {α ε ε' : Type} (error : ε → ε') : Except ε α → Except ε' α
  | .ok value => .ok value
  | .error reason => .error (error reason)

/-- Fail unless the condition holds. -/
def ensure {ε : Type} (condition : Bool) (error : ε) : Except ε Unit :=
  if condition then .ok () else .error error

def okOr {α ε : Type} (error : ε) : Option α → Except ε α
  | some value => .ok value
  | none => .error error

/-- A line without a record: blank, or a comment. -/
def isSkipped (trimmed : List Char) : Bool :=
  trimmed.isEmpty || trimmed.head? == some '#'

/-! ## Tenants -/

def fingerprintHex (fp : Hash) : List Char :=
  fp.toList.flatMap fun byte =>
    [Nat.digitChar (byte.toNat / 16), Nat.digitChar (byte.toNat % 16)]

/-- The next of the remaining fields. -/
def nextField (lineno : Nat) (name : String) :
    List (List Char) → Except IoError (List Char × List (List Char))
  | [] => .error (.invalid lineno ("missing field: ".toList ++ name.toList))
  | field :: rest => .ok (field, rest)

def parseTenantLine (lineno : Nat) (line : List Char) : Except IoError TenantRecord := do
  let (tenantIdS, rest) ← nextField lineno "tenant_id" (words isAsciiWhiteSpace line)
  let (signingFpS, rest) ← nextField lineno "signing_fp_hex" rest
  let (capS, rest) ← nextField lineno "rate_capacity" rest
  let (refillS, rest) ← nextField lineno "rate_refill_per_sec" rest
  let (registeredS, rest) ← nextField lineno "registered_at_unix_ns" rest
  ensure rest.isEmpty (.invalid lineno "trailing fields after registered_at_unix_ns".toList)
  let tenantId ← orError (fun _ => .invalid lineno "tenant_id not a u64".toList)
    (parseU64 tenantIdS)
  let signingFp ← okOr (.invalid lineno "signing_fp_hex not 64 lowercase-hex chars".toList)
    (parseHex32 signingFpS)
  let rateCapacity ← orError (fun _ => .invalid lineno "rate_capacity not a u64".toList)
    (parseU64 capS)
  let rateRefillPerSec ← orError
    (fun _ => .invalid lineno "rate_refill_per_sec not a u64".toList) (parseU64 refillS)
  let registeredAtUnixNs ← orError
    (fun _ => .invalid lineno "registered_at_unix_ns not a u64".toList) (parseU64 registeredS)
  return ⟨tenantId, signingFp, rateCapacity, rateRefillPerSec, registeredAtUnixNs⟩

/-- The text of a tenant's identifier. -/
def showId (id : UInt64) : List Char :=
  Json.number id.toNat

def TenantRegistry.insert (registry : TenantRegistry) (record : TenantRecord) :
    Except IoError TenantRegistry :=
  if (registry.byId.lookup record.tenantId).isSome then
    .error ⟨.alreadyExists,
      "tenant_id ".toList ++ showId record.tenantId ++ " already registered".toList⟩
  else
    .ok ⟨registry.byId.insert record.tenantId record⟩

/-- The loop over the lines, with the number of the next line and the registry so far. -/
def TenantRegistry.loadLines (lineno : Nat) (registry : TenantRegistry) :
    List (List Char) → Except IoError TenantRegistry
  | [] => .ok registry
  | line :: rest =>
      if isSkipped (trim line) then
        loadLines (lineno + 1) registry rest
      else do
        let record ← parseTenantLine lineno (trim line)
        let registry ← TenantRegistry.insert registry record
        loadLines (lineno + 1) registry rest

/-- The registry that a text stands for. -/
def TenantRegistry.loadFromText (text : List Char) : Except IoError TenantRegistry :=
  loadLines 1 ⟨∅⟩ (textLines text)

/-- The line of a new tenant. -/
def tenantLine (record : TenantRecord) : List Char :=
  showId record.tenantId ++ ' ' :: fingerprintHex record.signingFp ++ ' ' ::
    showId record.rateCapacity ++ ' ' :: showId record.rateRefillPerSec ++ ' ' ::
      showId record.registeredAtUnixNs

/-! ## Enrolled agents -/

/-- Single-precision numbers of the standard library. -/
structure FloatLibrary where
  F32 : Type
  parse : List Char → Except (List Char) F32
  display : F32 → List Char
  /-- An integer divided by a thousand. -/
  thousandths : UInt32 → F32
  /-- Whether a number lies between zero and one. -/
  inUnit : F32 → Bool

def enrollmentHexDigit (b : UInt8) : Except (List Char) UInt8 :=
  if '0'.toUInt8 ≤ b ∧ b ≤ '9'.toUInt8 then .ok (b - '0'.toUInt8)
  else if 'a'.toUInt8 ≤ b ∧ b ≤ 'f'.toUInt8 then .ok (b - 'a'.toUInt8 + 10)
  else if 'A'.toUInt8 ≤ b ∧ b ≤ 'F'.toUInt8 then .ok (b - 'A'.toUInt8 + 10)
  else .error ("non-hex byte 0x".toList ++
    [Nat.digitChar (b.toNat / 16), Nat.digitChar (b.toNat % 16)])

/-- The bytes of pairs of digits of either case. -/
def enrollmentHexPairs : List UInt8 → Except (List Char) (List UInt8)
  | hi :: lo :: rest => do
      let hi ← enrollmentHexDigit hi
      let lo ← enrollmentHexDigit lo
      let bytes ← enrollmentHexPairs rest
      return ((hi <<< 4) ||| lo) :: bytes
  | _ => .ok []

def enrollmentHex32 (s : List Char) : Except (List Char) Hash :=
  let bytes := utf8 s
  let wrongLength := "expected 64 hex chars, got ".toList ++ Json.number bytes.length
  if bytes.length ≠ 64 then
    .error wrongLength
  else do
    let out ← enrollmentHexPairs bytes
    if full : out.length = 32 then return ofBytes out full else throw wrongLength

/-- The next of the remaining fields. -/
def nextEnrollmentField (name : String) :
    List (List Char) → Except (List Char) (List Char × List (List Char))
  | [] => .error ("missing field ".toList ++ name.toList)
  | field :: rest => .ok (field, rest)

/-- The field in front of the reason of an error. -/
def inField (name : String) (reason : List Char) : List Char :=
  name.toList ++ ": ".toList ++ reason

/-- `parse_line`, with the initial reputation as it is read. -/
def parseEnrollmentFields (floats : FloatLibrary) (line : List Char) :
    Except (List Char) (EnrolledRecord × Int64 × floats.F32) := do
  let (runnerIdS, rest) ← nextEnrollmentField "runner_id" (words isWhiteSpace line)
  let runnerId ← orError (fun error => inField "runner_id" error.display) (parseU64 runnerIdS)
  let (signingFpHex, rest) ← nextEnrollmentField "signing_fp" rest
  let (vrfFpHex, rest) ← nextEnrollmentField "vrf_fp" rest
  let (enrolledAtS, rest) ← nextEnrollmentField "enrolled_at_unix_ns" rest
  let enrolledAtUnixNs ← orError (fun error => inField "enrolled_at_unix_ns" error.display)
    (parseI64 enrolledAtS)
  let (reputationField, rest) ← nextEnrollmentField "initial_reputation" rest
  let reputation ← orError (inField "initial_reputation") (floats.parse reputationField)
  ensure rest.isEmpty "trailing fields after initial_reputation".toList
  ensure (floats.inUnit reputation) ("initial_reputation ".toList ++
    floats.display reputation ++ " not in [0.0, 1.0]".toList)
  let signingFp ← orError (inField "signing_fp") (enrollmentHex32 signingFpHex)
  let vrfFp ← orError (inField "vrf_fp") (enrollmentHex32 vrfFpHex)
  return (⟨runnerId, signingFp, vrfFp⟩, enrolledAtUnixNs, reputation)

/-- What the gate looks at. -/
def parseEnrollmentLine (floats : FloatLibrary) (line : List Char) :
    Except (List Char) EnrolledRecord :=
  (parseEnrollmentFields floats line).map Prod.fst

/-- The loop over the lines; a later record of a runner replaces an earlier one. -/
def EnrollmentSet.parseLines (floats : FloatLibrary) (lineno : Nat) (enrolled : EnrollmentSet) :
    List (List Char) → Except IoError EnrollmentSet
  | [] => .ok enrolled
  | line :: rest =>
      if isSkipped (trim line) then
        parseLines floats (lineno + 1) enrolled rest
      else do
        let record ← orError (fun error => ⟨.invalidData,
            "enrollment line ".toList ++ Json.number lineno ++ ": ".toList ++ error⟩)
          (parseEnrollmentLine floats (trim line))
        parseLines floats (lineno + 1) (enrolled.insert record) rest

def EnrollmentSet.parse (floats : FloatLibrary) (text : List Char) :
    Except IoError EnrollmentSet :=
  parseLines floats 1 ⟨∅⟩ (textLines text)

/-- The line of a new agent. -/
def enrollmentLine (floats : FloatLibrary) (record : EnrolledRecord) (enrolledAtUnixNs : Int64)
    (initialReputationThousandths : UInt32) : List Char :=
  let reputation := floats.thousandths (min initialReputationThousandths 1000)
  showId record.runnerId ++ ' ' :: fingerprintHex record.signingFp ++ ' ' ::
    fingerprintHex record.vrfFp ++ ' ' :: Json.integer enrolledAtUnixNs.toInt ++ ' ' ::
      floats.display reputation

/-! ## Changes -/

/-- Whether the first word of a line is the identifier. -/
def namesId (id : UInt64) (line : List Char) : Bool :=
  let trimmed := trimStart line
  if isSkipped trimmed then false
  else
    match parseU64 ((words isWhiteSpace trimmed).headD []) with
    | .ok found => found = id
    | .error _ => false

/-- The lines of a text that do not begin with the identifier. -/
def keptLines (id : UInt64) (text : List Char) : List (List Char) :=
  (textLines text).filter fun line => !namesId id line

/-- The text without the lines of the identifier, if it has any. -/
def revokeLines (id : UInt64) (text : List Char) : Option (List Char) :=
  if (textLines text).any (namesId id) then some (unlines (keptLines id text)) else none

/-- The text with one more line. -/
def appendLine (text line : List Char) : List Char :=
  let ended :=
    if !text.isEmpty && text.getLast? ≠ some '\n' then text ++ ['\n'] else text
  ended ++ line ++ ['\n']

/-! ## Revoked tenants -/

variable {lineno : Nat} {line : List Char}

@[simp] theorem nextField_eq_ok {name : String} {fields rest : List (List Char)}
    {field : List Char} :
    nextField lineno name fields = .ok (field, rest) ↔ fields = field :: rest := by
  cases fields with
  | nil => exact ⟨nofun, nofun⟩
  | cons first others => simp [nextField]

@[simp] theorem ensure_eq_ok {ε : Type} {condition : Bool} {error : ε} {value : Unit} :
    ensure condition error = .ok value ↔ condition = true := by
  cases condition with
  | false => exact ⟨nofun, nofun⟩
  | true => exact ⟨fun _ => rfl, fun _ => rfl⟩

@[simp] theorem orError_eq_ok {α ε ε' : Type} {error : ε → ε'} {result : Except ε α} {value : α} :
    orError error result = .ok value ↔ result = .ok value := by
  cases result with
  | error reason => exact ⟨nofun, nofun⟩
  | ok found => simp [orError]

@[simp] theorem okOr_eq_ok {α ε : Type} {error : ε} {result : Option α} {value : α} :
    okOr error result = .ok value ↔ result = some value := by
  cases result with
  | none => exact ⟨nofun, nofun⟩
  | some found => simp [okOr]

/-- A line stands for a record when it has five words that do. -/
theorem parseTenantLine_eq_ok_iff {record : TenantRecord} :
    parseTenantLine lineno line = .ok record ↔
      ∃ tenantIdS signingFpS capS refillS registeredS,
        words isAsciiWhiteSpace line = [tenantIdS, signingFpS, capS, refillS, registeredS] ∧
        parseU64 tenantIdS = .ok record.tenantId ∧
        parseHex32 signingFpS = some record.signingFp ∧
        parseU64 capS = .ok record.rateCapacity ∧
        parseU64 refillS = .ok record.rateRefillPerSec ∧
        parseU64 registeredS = .ok record.registeredAtUnixNs := by
  unfold parseTenantLine
  simp only [bind_eq_ok, Prod.exists, nextField_eq_ok, ensure_eq_ok, orError_eq_ok, okOr_eq_ok]
  constructor
  · rintro ⟨tenantIdS, _, fields, signingFpS, _, rfl, capS, _, rfl, refillS, _, rfl, registeredS,
      rest, rfl, _, last, tenantId, identified, signingFp, signed, rateCapacity, capped,
      rateRefillPerSec, refilled, registeredAtUnixNs, registered, same⟩
    cases same
    rw [List.isEmpty_iff.mp last] at fields
    exact ⟨tenantIdS, signingFpS, capS, refillS, registeredS, fields, identified, signed, capped,
      refilled, registered⟩
  · rintro ⟨tenantIdS, signingFpS, capS, refillS, registeredS, fields, identified, signed, capped,
      refilled, registered⟩
    exact ⟨tenantIdS, _, fields, signingFpS, _, rfl, capS, _, rfl, refillS, _, rfl, registeredS,
      [], rfl, (), rfl, _, identified, _, signed, _, capped, _, refilled, _, registered, rfl⟩

/-- White space at the end does not make a line count. -/
theorem isSkipped_trimStart (line : List Char) :
    isSkipped (trimStart line) = isSkipped (trim line) := by
  obtain ⟨tail, whole, blank⟩ := exists_trim_append line
  cases trimmed : trim line with
  | cons start rest =>
      rw [whole, trimmed]
      rfl
  | nil =>
      rw [trimmed, List.nil_append] at whole
      cases tail with
      | nil => rw [whole]
      | cons first rest =>
          have visible : isWhiteSpace first = false := by
            apply eq_false_of_mem_head?_dropWhile
            rw [← trimStart, whole]
            rfl
          rw [blank first List.mem_cons_self] at visible
          cases visible

/-- A blank line or a comment is never removed. -/
theorem namesId_of_isSkipped (blank : isSkipped (trim line) = true) (id : UInt64) :
    namesId id line = false := by
  rw [← isSkipped_trimStart] at blank
  rw [namesId, if_pos blank]

theorem namesId_of_head? {line word : List Char} {found : UInt64}
    (counted : isSkipped (trim line) = false)
    (first : (words isWhiteSpace (trimStart line)).head? = some word)
    (identified : parseU64 word = .ok found) (id : UInt64) :
    namesId id line = decide (found = id) := by
  rw [← isSkipped_trimStart] at counted
  rw [namesId]
  simp only [counted, Bool.false_eq_true, if_false, List.headD_eq_head?_getD, first,
    Option.getD_some, identified]

/-- The line of a tenant is removed when the tenant is revoked, and no other one. -/
theorem namesId_of_parseTenantLine {record : TenantRecord} (counted : isSkipped (trim line) = false)
    (parsed : parseTenantLine lineno (trim line) = .ok record) (id : UInt64) :
    namesId id line = decide (record.tenantId = id) := by
  obtain ⟨word, _, _, _, _, fields, identified, -⟩ := parseTenantLine_eq_ok_iff.mp parsed
  have solid : ∀ character ∈ word, isWhiteSpace character = false := by
    intro character member
    rcases digit_or_plus_of_parseU64 identified character member with digit | rfl
    · exact isWhiteSpace_eq_false_of_isDigit digit
    · decide
  exact namesId_of_head? counted (head?_words_trimStart (congrArg List.head? fields) solid)
    identified id

/-! ## What a file of tenants stands for -/

/-- The tenants that a registry knows. -/
abbrev Tenants := TenantId → Option TenantRecord

/-- How tenants stand in the lines of the file. -/
def tenantFormat : LineFormat IoError TenantRecord where
  skips := isSkipped
  parse := parseTenantLine
  numbered parsed := parseTenantLine_eq_ok_iff.mpr (parseTenantLine_eq_ok_iff.mp parsed)

theorem loadLines_eq_load (lineno : Nat) (registry : TenantRegistry) (lines : List (List Char)) :
    TenantRegistry.loadLines lineno registry lines =
      tenantFormat.load TenantRegistry.insert lineno registry lines := by
  induction lines generalizing lineno registry with
  | nil => rfl
  | cons line rest ih =>
      simp only [TenantRegistry.loadLines, LineFormat.load, ih]
      rfl

/-- No two tenants share an identifier. -/
theorem TenantRegistry.insertsNew :
    InsertsNew TenantRecord.tenantId TenantRegistry.insert TenantRegistry.get where
  accepts {registry record} := by
    unfold TenantRegistry.insert TenantRegistry.get
    cases registry.byId.lookup record.tenantId <;> simp
  updates {registry next record} inserted := by
    unfold TenantRegistry.insert at inserted
    split at inserted
    · cases inserted
    · cases inserted
      funext id
      rw [Function.update_apply]
      exact Table.lookup_insert_eq registry.byId record.tenantId id record

/-- A text loads to the given tenants. -/
def LoadsTo (text : List Char) (tenants : Tenants) : Prop :=
  ∃ registry, TenantRegistry.loadFromText text = .ok registry ∧ registry.get = tenants

theorem loadsTo_iff {text : List Char} {tenants : Tenants} :
    LoadsTo text tenants ↔ ∃ records, tenantFormat.Holds (textLines text) records ∧
      (records.map TenantRecord.tenantId).Nodup ∧
        latestBy TenantRecord.tenantId records = tenants := by
  have empty : TenantRegistry.get ⟨∅⟩ = fun _ => none := rfl
  simp only [LoadsTo, TenantRegistry.loadFromText, loadLines_eq_load]
  exact TenantRegistry.insertsNew.load_iff empty

theorem newline_notMem_of_mem_keptLines {id : UInt64} {text line : List Char}
    (kept : line ∈ keptLines id text) : '\n' ∉ line :=
  newline_notMem_of_mem_textLines (List.mem_of_mem_filter kept)

/-- What is left after a revocation does not register the tenant. -/
theorem get_of_revokeLines {id : UInt64} {text rest : List Char} {loaded : TenantRegistry}
    (revoked : revokeLines id text = some rest)
    (load : TenantRegistry.loadFromText rest = .ok loaded) : loaded.get id = none := by
  obtain ⟨records, holds, -, known⟩ := loadsTo_iff.mp ⟨loaded, load, rfl⟩
  unfold revokeLines at revoked
  split at revoked
  · obtain rfl := Option.some.inj revoked
    rw [LineFormat.holds_unlines_iff fun _ => newline_notMem_of_mem_keptLines] at holds
    have named := holds.any_eq (fun line blank => namesId_of_isSkipped blank id)
      fun line record counted parsed => namesId_of_parseTenantLine counted parsed id
    have unnamed : (keptLines id text).any (namesId id) = false := by
      simp [keptLines, List.any_filter]
    rw [unnamed, ← isSome_latestBy, known] at named
    exact Option.not_isSome_iff_eq_none.mp (Bool.eq_false_iff.mp named.symm)
  · cases revoked

end Cosaci.Coordinator
