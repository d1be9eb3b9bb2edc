import Cosaci.Coordinator.TenantFile
import Cosaci.Protocol.Messages

/-!
# The enrollment file as a map

Whole enrollment records, with the time of the enrollment and the initial reputation that
the gate does not look at.  An enrollment file stands for a map from runners to records,
where a later line replaces an earlier one.  The requests that change the file act on
this map, and the request that lists the agents returns it.
-/

namespace Cosaci.Coordinator

open Foundation Cosaci.Core State

/-! ## Records -/

/-- The conversions between reputations and thousandths. -/
structure ReputationLibrary extends FloatLibrary where
  /-- `(x * 1000.0).round() as u16` -/
  milli : F32 → UInt16
  /-- `(x * 1000.0).round().clamp(0.0, 1000.0) as u32` -/
  clampedMilli : F32 → UInt32

/-- An enrollment as the file has it. -/
structure Enrollment extends EnrolledRecord where
  enrolledAtUnixNs : Int64
  initialReputationMilli : UInt16
  deriving DecidableEq

def Enrollment.initialReputation (floats : ReputationLibrary) (enrollment : Enrollment) :
    floats.F32 :=
  floats.thousandths enrollment.initialReputationMilli.toUInt32

/-- The enrollment that the fields of a line stand for. -/
def parseEnrollment (floats : ReputationLibrary) (line : List Char) :
    Except (List Char) Enrollment :=
  (parseEnrollmentFields floats.toFloatLibrary line).map fun (record, enrolledAt, reputation) =>
    ⟨record, enrolledAt, floats.milli reputation⟩

/-- The gate reads the same lines, and less of them. -/
theorem parseEnrollmentLine_eq_map (floats : ReputationLibrary) (line : List Char) :
    parseEnrollmentLine floats.toFloatLibrary line =
      (parseEnrollment floats line).map Enrollment.toEnrolledRecord := by
  unfold parseEnrollmentLine parseEnrollment
  cases parseEnrollmentFields floats.toFloatLibrary line <;> rfl

@[simp] theorem nextEnrollmentField_eq_ok {name : String} {fields rest : List (List Char)}
    {field : List Char} :
    nextEnrollmentField name fields = .ok (field, rest) ↔ fields = field :: rest := by
  cases fields with
  | nil => exact ⟨nofun, nofun⟩
  | cons first others => simp [nextEnrollmentField]

variable {line : List Char} {text : List Char}

/-- A line stands for an enrollment when it has five words that do. -/
theorem parseEnrollmentFields_eq_ok_iff {floats : FloatLibrary} {record : EnrolledRecord}
    {enrolledAt : Int64} {reputation : floats.F32} :
    parseEnrollmentFields floats line = .ok (record, enrolledAt, reputation) ↔
      ∃ runnerIdS signingFpHex vrfFpHex enrolledAtS reputationField,
        words isWhiteSpace line =
          [runnerIdS, signingFpHex, vrfFpHex, enrolledAtS, reputationField] ∧
        parseU64 runnerIdS = .ok record.runnerId ∧
        enrollmentHex32 signingFpHex = .ok record.signingFp ∧
        enrollmentHex32 vrfFpHex = .ok record.vrfFp ∧
        parseI64 enrolledAtS = .ok enrolledAt ∧
        floats.parse reputationField = .ok reputation ∧ floats.inUnit reputation = true := by
  unfold parseEnrollmentFields
  simp only [bind_eq_ok, Prod.exists, nextEnrollmentField_eq_ok, ensure_eq_ok, orError_eq_ok]
  constructor
  · rintro ⟨runnerIdS, _, fields, runnerId, identified, signingFpHex, _, rfl, vrfFpHex, _, rfl,
      enrolledAtS, _, rfl, enrolledAt, dated, reputationField, rest, rfl, reputation, rated, _,
      last, _, inUnit, signingFp, signed, vrfFp, proved, same⟩
    cases same
    rw [List.isEmpty_iff.mp last] at fields
    exact ⟨runnerIdS, signingFpHex, vrfFpHex, enrolledAtS, reputationField, fields, identified,
      signed, proved, dated, rated, inUnit⟩
  · rintro ⟨runnerIdS, signingFpHex, vrfFpHex, enrolledAtS, reputationField, fields, identified,
      signed, proved, dated, rated, inUnit⟩
    exact ⟨runnerIdS, _, fields, _, identified, signingFpHex, _, rfl, vrfFpHex, _, rfl,
      enrolledAtS, _, rfl, _, dated, reputationField, [], rfl, reputation, rated, (), rfl, (),
      inUnit, _, signed, _, proved, rfl⟩

theorem parseEnrollment_eq_ok_iff {floats : ReputationLibrary} {enrollment : Enrollment} :
    parseEnrollment floats line = .ok enrollment ↔ ∃ reputation,
      parseEnrollmentFields floats.toFloatLibrary line =
        .ok (enrollment.toEnrolledRecord, enrollment.enrolledAtUnixNs, reputation) ∧
      floats.milli reputation = enrollment.initialReputationMilli := by
  constructor
  · intro parsed
    obtain ⟨⟨record, enrolledAt, reputation⟩, read, rfl⟩ := map_eq_ok parsed
    exact ⟨reputation, read, rfl⟩
  · rintro ⟨reputation, read, milli⟩
    rw [parseEnrollment, read]
    simp only [Except.map, milli]

/-! ## The file -/

/-- How enrollments stand in the lines of the file. -/
def enrollmentFormat (floats : ReputationLibrary) : LineFormat IoError Enrollment where
  skips := isSkipped
  parse lineno line := orError (fun error => ⟨.invalidData,
    "enrollment line ".toList ++ Json.number lineno ++ ": ".toList ++ error⟩)
    (parseEnrollment floats line)
  numbered parsed := by
    rw [orError_eq_ok] at parsed ⊢
    exact parsed

/-- The records of an `EnrollmentSet`. -/
abbrev Enrollments := Table RunnerId Enrollment

def Enrollments.insertRecord (set : Enrollments) (record : Enrollment) :
    Except IoError Enrollments :=
  .ok (set.insert record.runnerId record)

/-- `EnrollmentSet::parse` -/
def Enrollments.parse (floats : ReputationLibrary) (text : List Char) :
    Except IoError Enrollments :=
  (enrollmentFormat floats).load insertRecord 1 ∅ (textLines text)

/-- What the gate knows of a set. -/
def Forgets (set : Enrollments) (enrolled : EnrollmentSet) : Prop :=
  ∀ runnerId, enrolled.records.lookup runnerId =
    (set.lookup runnerId).map Enrollment.toEnrolledRecord

theorem Forgets.insert {set : Enrollments} {enrolled : EnrollmentSet}
    (forgets : Forgets set enrolled) (record : Enrollment) :
    Forgets (set.insert record.runnerId record) (enrolled.insert record.toEnrolledRecord) := by
  intro runnerId
  rw [EnrollmentSet.insert, Table.lookup_insert_eq, Table.lookup_insert_eq]
  split
  · rfl
  · exact forgets runnerId

/-- The gate loads a file exactly when the whole records load. -/
theorem parseLines_of_load {floats : ReputationLibrary} {lineno : Nat} {set loaded : Enrollments}
    {enrolled : EnrollmentSet} {lines : List (List Char)} (forgets : Forgets set enrolled)
    (load : (enrollmentFormat floats).load Enrollments.insertRecord lineno set lines =
      .ok loaded) :
    ∃ known, EnrollmentSet.parseLines floats.toFloatLibrary lineno enrolled lines = .ok known ∧
      Forgets loaded known := by
  induction lines generalizing lineno set enrolled with
  | nil =>
      cases load
      exact ⟨enrolled, rfl, forgets⟩
  | cons line rest ih =>
      rw [LineFormat.load] at load
      rw [EnrollmentSet.parseLines]
      cases blank : isSkipped (trim line) with
      | true =>
          have skips : (enrollmentFormat floats).skips (trim line) = true := blank
          rw [if_pos skips] at load
          rw [if_pos rfl]
          exact ih forgets load
      | false =>
          have counted : ¬ (enrollmentFormat floats).skips (trim line) = true :=
            Bool.eq_false_iff.mp blank
          rw [if_neg counted] at load
          rw [if_neg Bool.false_ne_true]
          obtain ⟨record, parsed, load⟩ := bind_eq_ok.mp load
          obtain ⟨next, inserted, load⟩ := bind_eq_ok.mp load
          cases inserted
          have read : parseEnrollment floats (trim line) = .ok record := orError_eq_ok.mp parsed
          obtain ⟨known, later, last⟩ := ih (forgets.insert record) load
          refine ⟨known, bind_eq_ok.mpr ⟨record.toEnrolledRecord, ?_, later⟩, last⟩
          rw [orError_eq_ok, parseEnrollmentLine_eq_map, read]
          rfl

/-! ## What a file stands for -/

/-- The enrolled runners. -/
abbrev Enrolled := RunnerId → Option Enrollment

/-- A text loads to the given enrollments. -/
def EnrolledTo (floats : ReputationLibrary) (text : List Char) (enrolled : Enrolled) : Prop :=
  ∃ set, Enrollments.parse floats text = .ok set ∧ ∀ runnerId,
    set.lookup runnerId = enrolled runnerId

theorem foldlM_insertRecord (records : List Enrollment) (set : Enrollments) :
    records.foldlM Enrollments.insertRecord set =
      .ok (set.insertAll (records.map fun record => (record.runnerId, record))) := by
  induction records generalizing set with
  | nil => rfl
  | cons record rest ih => exact ih _

theorem enrolledTo_iff {floats : ReputationLibrary} {enrolled : Enrolled} :
    EnrolledTo floats text enrolled ↔ ∃ records,
      (enrollmentFormat floats).Holds (textLines text) records ∧
        latestBy (·.runnerId) records = enrolled := by
  simp only [EnrolledTo, Enrollments.parse, LineFormat.load_eq_ok_iff, foldlM_insertRecord]
  constructor
  · rintro ⟨set, ⟨records, holds, same⟩, known⟩
    cases same
    refine ⟨records, holds, funext fun runnerId => ?_⟩
    rw [← known, Table.lookup_insertAll, AList.lookup_empty, Option.or_none]
    rfl
  · rintro ⟨records, holds, rfl⟩
    refine ⟨_, ⟨records, holds, rfl⟩, fun runnerId => ?_⟩
    rw [Table.lookup_insertAll, AList.lookup_empty, Option.or_none]
    rfl

/-! ## Revoked agents -/

/-- The line of an enrollment is removed when its runner is revoked, and no other one. -/
theorem namesId_of_parseEnrollment {floats : ReputationLibrary} {record : Enrollment}
    (counted : isSkipped (trim line) = false)
    (parsed : parseEnrollment floats (trim line) = .ok record) (runnerId : RunnerId) :
    namesId runnerId line = decide (record.runnerId = runnerId) := by
  obtain ⟨_, read, -⟩ := parseEnrollment_eq_ok_iff.mp parsed
  obtain ⟨word, _, _, _, _, fields, identified, -⟩ := parseEnrollmentFields_eq_ok_iff.mp read
  rw [← words_trimStart] at fields
  exact namesId_of_head? counted (congrArg List.head? fields) identified runnerId

theorem EnrolledTo.revokeLines_eq {floats : ReputationLibrary} {enrolled : Enrolled}
    (loads : EnrolledTo floats text enrolled) (runnerId : RunnerId) :
    revokeLines runnerId text =
      if (enrolled runnerId).isSome then some (unlines (keptLines runnerId text)) else none := by
  obtain ⟨records, holds, rfl⟩ := enrolledTo_iff.mp loads
  have known : (textLines text).any (namesId runnerId) =
      (latestBy (·.runnerId) records runnerId).isSome := by
    rw [isSome_latestBy]
    apply holds.any_eq (fun line blank => namesId_of_isSkipped blank runnerId)
    intro line record counted parsed
    exact namesId_of_parseEnrollment counted (orError_eq_ok.mp parsed) runnerId
  rw [revokeLines, known]

/-- What is left of the file loads to the other enrollments. -/
theorem EnrolledTo.revoked {floats : ReputationLibrary} {enrolled : Enrolled}
    (loads : EnrolledTo floats text enrolled) (runnerId : RunnerId) :
    EnrolledTo floats (unlines (keptLines runnerId text))
      (Function.update enrolled runnerId none) := by
  obtain ⟨records, holds, rfl⟩ := enrolledTo_iff.mp loads
  have kept : (enrollmentFormat floats).Holds (keptLines runnerId text)
      (records.filter fun record => record.runnerId ≠ runnerId) := by
    apply holds.filter
    · intro line blank
      rw [namesId_of_isSkipped blank]
      rfl
    · intro line record counted parsed
      rw [namesId_of_parseEnrollment counted (orError_eq_ok.mp parsed), decide_not]
  exact enrolledTo_iff.mpr ⟨_,
    (LineFormat.holds_unlines_iff fun _ => newline_notMem_of_mem_keptLines).mpr kept,
    latestBy_filter _ records runnerId⟩

/-! ## The line of a new agent -/

theorem enrollmentHexDigit_of_hexNibble {b value : UInt8} (read : hexNibble b = some value) :
    enrollmentHexDigit b = .ok value := by
  revert read
  unfold hexNibble enrollmentHexDigit
  split
  · intro read
    rw [Option.some.inj read]
  · split
    · intro read
      rw [Option.some.inj read]
    · exact nofun

theorem enrollmentHexPairs_of_hexPairs {bytes out : List UInt8} (read : hexPairs bytes = some out) :
    enrollmentHexPairs bytes = .ok out := by
  induction bytes using hexPairs.induct generalizing out with
  | case1 hi lo rest ih =>
      rw [hexPairs] at read
      obtain ⟨high, first, read⟩ := Option.bind_eq_some_iff.mp read
      obtain ⟨low, second, read⟩ := Option.bind_eq_some_iff.mp read
      obtain ⟨others, behind, read⟩ := Option.bind_eq_some_iff.mp read
      rw [enrollmentHexPairs, enrollmentHexDigit_of_hexNibble first,
        enrollmentHexDigit_of_hexNibble second, ih behind]
      exact congrArg Except.ok (Option.some.inj read)
  | case2 bytes short =>
      rw [hexPairs] at read
      · rw [enrollmentHexPairs]
        · exact congrArg Except.ok (Option.some.inj read)
        · exact short
      · exact short

/-- A fingerprint is read back from its digits. -/
theorem enrollmentHex32_fingerprintHex (fp : Hash) :
    enrollmentHex32 (fingerprintHex fp) = .ok fp := by
  have read : parseHexArray 32 (fingerprintHex fp) = some fp := parseHexArray_digits fp
  simp only [parseHexArray] at read
  split at read
  · cases read
  · next length =>
      obtain ⟨out, pairs, read⟩ := Option.bind_eq_some_iff.mp read
      split at read
      · next full =>
          rw [enrollmentHex32, if_neg length, enrollmentHexPairs_of_hexPairs pairs]
          simp only [bind, Except.bind, dif_pos full]
          exact congrArg Except.ok (Option.some.inj read)
      · cases read

/-- Thousandths up to one are written, read and converted without loss. -/
structure ReputationLibrary.Exact (floats : ReputationLibrary) : Prop where
  inUnit : ∀ count ≤ 1000, floats.inUnit (floats.thousandths count) = true
  solid : ∀ count ≤ 1000, Solid (floats.display (floats.thousandths count))
  parse : ∀ count ≤ 1000, floats.parse (floats.display (floats.thousandths count)) =
    .ok (floats.thousandths count)
  milli : ∀ count ≤ 1000, floats.milli (floats.thousandths count) = count.toUInt16

/-- What a request to enroll an agent puts into the file. -/
def enrollmentOf (record : EnrolledRecord) (enrolledAtUnixNs : Int64)
    (initialReputationThousandths : UInt32) : Enrollment :=
  ⟨record, enrolledAtUnixNs, (min initialReputationThousandths 1000).toUInt16⟩

/-- The words of the line of a new agent. -/
def enrollmentFields (floats : ReputationLibrary) (record : EnrolledRecord)
    (enrolledAtUnixNs : Int64) (initialReputationThousandths : UInt32) : List (List Char) :=
  [showId record.runnerId, fingerprintHex record.signingFp, fingerprintHex record.vrfFp,
    Json.integer enrolledAtUnixNs.toInt,
    floats.display (floats.thousandths (min initialReputationThousandths 1000))]

theorem min_thousand_le (count : UInt32) : min count 1000 ≤ 1000 := by
  change (if count ≤ 1000 then count else 1000) ≤ 1000
  split
  · assumption
  · exact UInt32.le_refl 1000

theorem enrollmentLine_eq (floats : ReputationLibrary) (record : EnrolledRecord)
    (enrolledAtUnixNs : Int64) (initialReputationThousandths : UInt32) :
    enrollmentLine floats.toFloatLibrary record enrolledAtUnixNs initialReputationThousandths =
      spaced (enrollmentFields floats record enrolledAtUnixNs initialReputationThousandths) := by
  simp only [enrollmentLine, enrollmentFields, spaced, List.append_assoc, List.cons_append]

section NewLine

variable {floats : ReputationLibrary} (exact : floats.Exact) (record : EnrolledRecord)
variable (enrolledAtUnixNs : Int64) (initialReputationThousandths : UInt32)

include exact

theorem solid_enrollmentFields :
    ∀ field ∈ enrollmentFields floats record enrolledAtUnixNs initialReputationThousandths,
      Solid field := by
  simp only [enrollmentFields, List.forall_mem_cons]
  exact ⟨solid_number _, solid_fingerprintHex _, solid_fingerprintHex _, solid_integer _,
    exact.solid _ (min_thousand_le _), by simp⟩

/-- Loading finds the enrollment in the line that is written for it. -/
theorem holds_enrollmentLine :
    (enrollmentFormat floats).Holds [enrollmentLine floats.toFloatLibrary record
        enrolledAtUnixNs initialReputationThousandths]
      [enrollmentOf record enrolledAtUnixNs initialReputationThousandths] := by
  have solid := solid_enrollmentFields exact record enrolledAtUnixNs initialReputationThousandths
  have small := min_thousand_le initialReputationThousandths
  rw [enrollmentLine_eq]
  refine .record ?_ ?_ .nil
  · rw [trim_spaced solid]
    exact isSkipped_spaced _ _
  · rw [trim_spaced solid]
    exact orError_eq_ok.mpr (parseEnrollment_eq_ok_iff.mpr ⟨_,
      parseEnrollmentFields_eq_ok_iff.mpr ⟨_, _, _, _, _, words_spaced_of (by decide) solid,
        parseU64_number _, enrollmentHex32_fingerprintHex _, enrollmentHex32_fingerprintHex _,
        parseI64_integer _, exact.parse _ small, exact.inUnit _ small⟩, exact.milli _ small⟩)

/-- The file with the line of a new agent loads to one enrollment more. -/
theorem EnrolledTo.added {enrolled : Enrolled} (loads : EnrolledTo floats text enrolled) :
    EnrolledTo floats (appendLine text (enrollmentLine floats.toFloatLibrary record
        enrolledAtUnixNs initialReputationThousandths))
      (Function.update enrolled record.runnerId (some (enrollmentOf record enrolledAtUnixNs
        initialReputationThousandths))) := by
  obtain ⟨records, holds, rfl⟩ := enrolledTo_iff.mp loads
  have last := holds_enrollmentLine exact record enrolledAtUnixNs initialReputationThousandths
  have plain : '\n' ∉ enrollmentLine floats.toFloatLibrary record enrolledAtUnixNs
      initialReputationThousandths := by
    rw [enrollmentLine_eq]
    exact newline_notMem_spaced (solid_enrollmentFields exact _ _ _)
  exact enrolledTo_iff.mpr ⟨_, holds_appendLine holds last plain, latestBy_concat _ records _⟩

end NewLine

/-! ## The handlers -/

/-- The requests that change the enrollment file. -/
inductive EnrollmentRequest where
  | enroll (record : EnrolledRecord) (enrolledAtUnixNs : Int64)
      (initialReputationThousandths : UInt32)
  | revoke (runnerId : RunnerId)

def EnrollmentRequest.request : EnrollmentRequest → AdminRequest
  | .enroll record enrolledAtUnixNs initialReputationThousandths =>
      .enrollAgent record enrolledAtUnixNs initialReputationThousandths
  | .revoke runnerId => .revokeAgent runnerId

/-- The handlers, one request after the other. -/
def enrollmentHandlers (config : AdminConfig) :
    Machine RegistryStore EnrollmentRequest AdminReply where
  step store request := (handleAdmin config request.request).run store

/-- What the requests mean: the map gets or loses a record. -/
def enrolledRunners : Machine Enrolled EnrollmentRequest AdminReply where
  step enrolled
    | .enroll record enrolledAtUnixNs initialReputationThousandths =>
        if (enrolled record.runnerId).isSome then
          (.error ("runner_id ".toList ++ showId record.runnerId ++ " already enrolled".toList),
            enrolled)
        else
          (.enrollAck, Function.update enrolled record.runnerId (some (enrollmentOf record
            enrolledAtUnixNs initialReputationThousandths)))
    | .revoke runnerId =>
        if (enrolled runnerId).isSome then
          (.revokeAck, Function.update enrolled runnerId none)
        else
          (.error ("runner_id ".toList ++ showId runnerId ++ " not enrolled".toList), enrolled)

/-- An enrollment as the admin API lists it. -/
def Enrollment.listed (floats : ReputationLibrary) (enrollment : Enrollment) :
    Protocol.AdminAgentRecord where
  runnerId := enrollment.runnerId
  signingFp := enrollment.signingFp
  vrfFp := enrollment.vrfFp
  enrolledAtUnixNs := enrollment.enrolledAtUnixNs
  initialReputationThousandths := floats.clampedMilli (enrollment.initialReputation floats)

/-- The enrollments of a set, in the order of their runners. -/
def listedAgents (floats : ReputationLibrary) (order : IterationOrder RunnerId Enrollment)
    (set : Enrollments) : List Protocol.AdminAgentRecord :=
  ((order.visit set).map fun entry => entry.2.listed floats).insertionSort fun first second =>
    first.runnerId ≤ second.runnerId

/-- The request that lists the agents. -/
def adminListAgents (floats : ReputationLibrary) (order : IterationOrder RunnerId Enrollment) :
    Process RegistryStore (Except (List Char) (List Protocol.AdminAgentRecord)) := do
  let text ← readRegistry
  match text.bind (Enrollments.parse floats) with
  | .error error => return .error ("enrollment file: ".toList ++ error.text)
  | .ok set => return .ok (listedAgents floats order set)

/-- The file of a store loads to the given enrollments. -/
def RegistryStore.Enrolls (floats : ReputationLibrary) (store : RegistryStore)
    (enrolled : Enrolled) : Prop :=
  ∃ text, store.HasText text ∧ EnrolledTo floats text enrolled

/-- A handler that writes a text and has nothing to reload. -/
theorem run_publish_of_eq {write : Process RegistryStore (Except IoError Unit)}
    {store : RegistryStore} {content : List Char}
    (written : write.run store = (writeAtomic content).run store) (failed : List Char)
    (ack : AdminReply) :
    ((publish write failed (pure false) ack).run store).1 = ack ∧
      ((publish write failed (pure false) ack).run store).2.HasText content := by
  unfold publish
  simp only [Process.run_bind, written, run_writeAtomic, Process.run_pure, true_and]
  exact hasText_writeAtomic content store

section Handlers

variable {floats : ReputationLibrary} {tenantsPath : List Char} {hasAuthState : Bool}
variable {store : RegistryStore} {enrolled : Enrolled}

/-- One request. -/
theorem RegistryStore.Enrolls.step (exact : floats.Exact) (enrolls : store.Enrolls floats enrolled)
    (request : EnrollmentRequest) :
    let handlers := enrollmentHandlers ⟨floats.toFloatLibrary, tenantsPath, hasAuthState⟩
    (handlers.step store request).1 = (enrolledRunners.step enrolled request).1 ∧
      (handlers.step store request).2.Enrolls floats (enrolledRunners.step enrolled request).2 := by
  intro handlers
  obtain ⟨text, file, loads⟩ := enrolls
  have read : store.readToString = .ok text := RegistryStore.readToString_of_contents file
  cases request with
  | enroll record enrolledAtUnixNs initialReputationThousandths =>
      have added := loads.added exact record enrolledAtUnixNs initialReputationThousandths
      obtain ⟨set, parsed, known⟩ := loads
      have nothing : Forgets ∅ ⟨∅⟩ := fun _ => rfl
      obtain ⟨gate, load, forgets⟩ := parseLines_of_load nothing parsed
      have loaded : store.readToString.bind (EnrollmentSet.parse floats.toFloatLibrary) =
          .ok gate := by
        rw [read]
        exact load
      have same : (gate.records.lookup record.runnerId).isSome =
          (enrolled record.runnerId).isSome := by
        rw [forgets, known, Option.isSome_map]
      simp only [handlers, enrollmentHandlers, enrolledRunners, EnrollmentRequest.request,
        handleAdmin, adminEnrollAgent, Process.run_bind, readRegistry, Process.run_look, loaded,
        same]
      cases (enrolled record.runnerId).isSome with
      | true => exact ⟨rfl, text, file, set, parsed, known⟩
      | false =>
          obtain ⟨acknowledged, content⟩ := run_publish_of_eq (run_appendAtomic_of_read read
            (enrollmentLine floats.toFloatLibrary record enrolledAtUnixNs
              initialReputationThousandths)) "write enrollment: ".toList .enrollAck
          exact ⟨acknowledged, _, content, added⟩
  | revoke runnerId =>
      simp only [handlers, enrollmentHandlers, enrolledRunners, EnrollmentRequest.request,
        handleAdmin, adminRevokeAgent, Process.run_bind, readRegistry, Process.run_look, read,
        loads.revokeLines_eq runnerId]
      cases (enrolled runnerId).isSome with
      | false => exact ⟨rfl, text, file, loads⟩
      | true =>
          have written : (writeAtomic (unlines (keptLines runnerId text))).run store = _ := rfl
          obtain ⟨acknowledged, content⟩ := run_publish_of_eq written
            "write enrollment: ".toList .revokeAck
          exact ⟨acknowledged, _, content, loads.revoked runnerId⟩

end Handlers

/-- A stand-in that counts thousandths. -/
def wholeFloats : ReputationLibrary where
  F32 := UInt32
  parse text := (orError IntError.display (parseU64 text)).map UInt64.toUInt32
  display count := Json.number count.toNat
  thousandths := id
  inUnit count := count ≤ 1000
  milli := UInt32.toUInt16
  clampedMilli count := min count 1000

end Cosaci.Coordinator
