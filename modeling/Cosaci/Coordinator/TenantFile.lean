import Cosaci.Coordinator.Revocation

/-!
# The tenants file as a map

What a tenants file stands for is a map from identifiers to records.  Adding a tenant
appends one line, and revoking one copies all lines but its own; the one side splits lines
into words by other rules than the other.  For every file that loads, with whatever blank
lines, comments and line ends, the two change the map as they should.
-/

namespace Cosaci.Coordinator

open Foundation Cosaci.Core State

/-- The record that loading finds in a line. -/
def lineRecord (line : List Char) : Option TenantRecord :=
  if isSkipped (trim line) then none else (parseTenantLine 0 (trim line)).toOption

/-- The line holds the record of the tenant. -/
def holdsRecordOf (id : TenantId) (line : List Char) : Bool :=
  (lineRecord line).map TenantRecord.tenantId = some id

variable {line : List Char} {record : TenantRecord}

theorem holdsRecordOf_of_isSkipped (blank : isSkipped (trim line) = true) (id : TenantId) :
    holdsRecordOf id line = false := by
  rw [holdsRecordOf, lineRecord, if_pos blank]
  rfl

theorem holdsRecordOf_of_parseTenantLine (counted : isSkipped (trim line) = false)
    (parsed : parseTenantLine 0 (trim line) = .ok record) (id : TenantId) :
    holdsRecordOf id line = decide (record.tenantId = id) := by
  rw [holdsRecordOf, lineRecord, if_neg (Bool.eq_false_iff.mp counted), parsed]
  simp [Except.toOption]

/-! ## The lines of a revoked tenant -/

/-- The lines that do not hold the record of the tenant. -/
def otherLines (id : TenantId) (text : List Char) : List (List Char) :=
  (textLines text).filter fun line => !holdsRecordOf id line

/-- The reviser and the loader find the same tenant in a line that loads. -/
theorem keptLines_eq_otherLines {text : List Char} {records : List TenantRecord}
    (holds : tenantFormat.Holds (textLines text) records) (id : TenantId) :
    keptLines id text = otherLines id text := by
  apply List.filter_congr
  intro line member
  rcases holds.line_cases member with blank | ⟨record, counted, parsed⟩
  · rw [namesId_of_isSkipped blank, holdsRecordOf_of_isSkipped blank]
  · rw [namesId_of_parseTenantLine counted parsed,
      holdsRecordOf_of_parseTenantLine counted parsed]

theorem revokeLines_eq {text : List Char} {tenants : Tenants} (loads : LoadsTo text tenants)
    (id : TenantId) :
    revokeLines id text =
      if (tenants id).isSome then some (unlines (otherLines id text)) else none := by
  obtain ⟨records, holds, -, rfl⟩ := loadsTo_iff.mp loads
  have known : (textLines text).any (namesId id) =
      (latestBy TenantRecord.tenantId records id).isSome := by
    rw [isSome_latestBy]
    exact holds.any_eq (fun line blank => namesId_of_isSkipped blank id)
      fun line record counted parsed => namesId_of_parseTenantLine counted parsed id
  rw [revokeLines, known, keptLines_eq_otherLines holds]

/-- What is left of the file loads to the other tenants. -/
theorem LoadsTo.revoked {text : List Char} {tenants : Tenants} (loads : LoadsTo text tenants)
    (id : TenantId) :
    LoadsTo (unlines (otherLines id text)) (Function.update tenants id none) := by
  obtain ⟨records, holds, distinct, rfl⟩ := loadsTo_iff.mp loads
  have others : tenantFormat.Holds (otherLines id text)
      (records.filter fun record => record.tenantId ≠ id) := by
    apply holds.filter
    · intro line blank
      rw [holdsRecordOf_of_isSkipped blank]
      rfl
    · intro line record counted parsed
      rw [holdsRecordOf_of_parseTenantLine counted parsed, decide_not]
  have plain : ∀ line ∈ otherLines id text, '\n' ∉ line := fun line member =>
    newline_notMem_of_mem_textLines (List.mem_of_mem_filter member)
  exact loadsTo_iff.mpr ⟨_, (LineFormat.holds_unlines_iff plain).mpr others,
    distinct.sublist (List.filter_sublist.map _), latestBy_filter _ records id⟩

/-! ## The line of a new tenant -/

theorem map_trim_appendLine (text : List Char) (plain : '\n' ∉ line) :
    (textLines (appendLine text line)).map trim = (textLines text).map trim ++ [trim line] := by
  have last : splitTerminated (line ++ ['\n']) = [(line, true)] :=
    splitTerminated_append plain []
  rw [map_trim_textLines, map_trim_textLines, appendLine]
  split
  · next unended =>
      rw [Bool.and_eq_true, Bool.not_eq_true', decide_eq_true_iff] at unended
      have terminated := congrArg (List.map trim) (splitTerminated_terminate
        (fun empty => by rw [empty] at unended; cases unended.1) unended.2)
      rw [List.map_map, List.map_map] at terminated
      rw [List.append_assoc, splitTerminated_append_of_ended (by simp), List.map_append, last]
      exact congrArg (· ++ [trim line]) terminated
  · next ended =>
      rw [List.append_assoc, splitTerminated_append_of_ended, List.map_append, last]
      · rfl
      · intro character found
        by_contra other
        apply ended
        rw [Option.mem_def.mp found]
        have nonempty : text ≠ [] := fun empty => by rw [empty] at found; cases found
        simp [nonempty, other]

theorem holds_appendLine {ε ρ : Type} {format : LineFormat ε ρ} {text line : List Char}
    {records : List ρ} {record : ρ} (holds : format.Holds (textLines text) records)
    (last : format.Holds [line] [record]) (plain : '\n' ∉ line) :
    format.Holds (textLines (appendLine text line)) (records ++ [record]) := by
  apply (holds.append last).congr_trim
  rw [map_trim_appendLine text plain, List.map_append]
  rfl

/-- A line that begins with a number is not skipped. -/
theorem isSkipped_spaced (value : Nat) (rest : List (List Char)) :
    isSkipped (spaced (Json.number value :: rest)) = false := by
  have first := head?_spaced (number_ne_nil value) rest
  cases shown : spaced (Json.number value :: rest) with
  | nil =>
      rw [shown] at first
      exact absurd (List.head?_eq_none_iff.mp first.symm) (number_ne_nil _)
  | cons start others =>
      rw [shown] at first
      have other : start ≠ '#' := by
        rintro rfl
        exact head?_number value (by decide) first.symm
      simp [isSkipped, other]

/-- The words of the line of a new tenant. -/
def tenantFields (record : TenantRecord) : List (List Char) :=
  [showId record.tenantId, fingerprintHex record.signingFp, showId record.rateCapacity,
    showId record.rateRefillPerSec, showId record.registeredAtUnixNs]

theorem tenantLine_eq (record : TenantRecord) :
    tenantLine record = spaced (tenantFields record) := by
  simp only [tenantLine, tenantFields, spaced, List.append_assoc, List.cons_append]

theorem solid_fingerprintHex (fp : Hash) : Solid (fingerprintHex fp) := by
  have visible : ∀ value < 16, isWhiteSpace (Nat.digitChar value) = false := by decide
  constructor
  · intro empty
    have length := congrArg List.length empty
    rw [fingerprintHex, List.length_flatMap] at length
    simp at length
  · intro character member
    obtain ⟨byte, -, digit⟩ := List.mem_flatMap.mp member
    have bounded := byte.toNat_lt
    rcases List.mem_cons.mp digit with rfl | digit
    · exact visible _ (by omega)
    · rw [List.mem_singleton.mp digit]
      exact visible _ (by omega)

theorem solid_tenantFields (record : TenantRecord) :
    ∀ field ∈ tenantFields record, Solid field := by
  simp only [tenantFields, List.forall_mem_cons]
  exact ⟨solid_number _, solid_fingerprintHex _, solid_number _, solid_number _, solid_number _,
    by simp⟩

/-- Loading finds the record in the line that is written for it. -/
theorem holds_tenantLine (record : TenantRecord) :
    tenantFormat.Holds [tenantLine record] [record] := by
  have solid := solid_tenantFields record
  rw [tenantLine_eq]
  refine .record ?_ ?_ .nil
  · rw [trim_spaced solid]
    exact isSkipped_spaced _ _
  · rw [trim_spaced solid]
    exact parseTenantLine_eq_ok_iff.mpr ⟨_, _, _, _, _, words_spaced solid,
      parseU64_number _, parseHexArray_digits _, parseU64_number _, parseU64_number _,
      parseU64_number _⟩

/-- The file with the line of a new tenant loads to one tenant more. -/
theorem LoadsTo.added {text : List Char} {tenants : Tenants} (loads : LoadsTo text tenants)
    (fresh : tenants record.tenantId = none) :
    LoadsTo (appendLine text (tenantLine record))
      (Function.update tenants record.tenantId (some record)) := by
  obtain ⟨records, holds, distinct, rfl⟩ := loadsTo_iff.mp loads
  have plain : '\n' ∉ tenantLine record := by
    rw [tenantLine_eq]
    exact newline_notMem_spaced (solid_tenantFields record)
  exact loadsTo_iff.mpr ⟨_, holds_appendLine holds (holds_tenantLine record) plain,
    (nodup_map_concat_iff records record).mpr ⟨fresh, distinct⟩,
    latestBy_concat _ records record⟩

/-! ## The handlers -/

/-- The text of the registry file, which is all that the handlers leave there. -/
def RegistryStore.HasText (store : RegistryStore) (text : List Char) : Prop :=
  store.contents = some (utf8 text)

theorem hasText_writeAtomic (content : List Char) (store : RegistryStore) :
    ((writeAtomic content).run store).2.HasText content := by
  simp only [writeAtomic, Process.run_bind, Process.run_atomic]
  exact ((store.holds_create).writeAll (utf8 content)).rename

theorem contents_reloadTenantsInState (config : AdminConfig) (store : RegistryStore) :
    ((reloadTenantsInState config).run store).2.contents = store.contents := by
  unfold reloadTenantsInState
  split
  · simp only [readRegistry, Process.run_bind, Process.run_look]
    split <;> rfl
  · rfl

theorem isSome_published_of_read {store : RegistryStore} {text : List Char}
    (read : store.readToString = .ok text) : store.published.isSome = true := by
  unfold RegistryStore.readToString RegistryStore.contents at read
  cases published : store.published with
  | none =>
      rw [published] at read
      cases read
  | some inode => rfl

theorem run_appendAtomic_of_read {store : RegistryStore} {text : List Char}
    (read : store.readToString = .ok text) (line : List Char) :
    (appendAtomic line).run store = (writeAtomic (appendLine text line)).run store := by
  simp only [appendAtomic, Process.run_bind, Process.run_look, isSome_published_of_read read,
    if_true, readRegistry, read]

/-- A handler that writes a text acknowledges it and leaves it in the file. -/
theorem run_publish {write : Process RegistryStore (Except IoError Unit)} {failed : List Char}
    {config : AdminConfig} {ack : AdminReply} {store : RegistryStore} {content : List Char}
    (success : (write.run store).1 = .ok ()) (written : (write.run store).2.HasText content) :
    ((publish write failed (reloadTenantsInState config) ack).run store).1 = ack ∧
      ((publish write failed (reloadTenantsInState config) ack).run store).2.HasText content := by
  unfold publish
  simp only [Process.run_bind, success, Process.run_pure, true_and]
  exact (contents_reloadTenantsInState config _).trans written

variable {config : AdminConfig} {store : RegistryStore} {text : List Char} {tenants : Tenants}

theorem run_adminAddTenant (configured : config.tenantsPath ≠ []) (file : store.HasText text)
    (loads : LoadsTo text tenants) (fresh : tenants record.tenantId = none) :
    ((adminAddTenant config record).run store).1 = .addTenantAck ∧
      ((adminAddTenant config record).run store).2.HasText
        (appendLine text (tenantLine record)) := by
  obtain ⟨registry, load, rfl⟩ := loads
  have read : store.readToString = .ok text := RegistryStore.readToString_of_contents file
  have existing : emptyIfMissing (store.readToString.bind TenantRegistry.loadFromText) =
      .ok registry := by
    rw [read, Except.bind, load]
    rfl
  have written := run_writeAtomic (appendLine text (tenantLine record)) store
  have holds := hasText_writeAtomic (appendLine text (tenantLine record)) store
  rw [← run_appendAtomic_of_read read] at written holds
  unfold adminAddTenant
  rw [if_neg (by simpa using configured)]
  simp only [Process.run_bind, readRegistry, Process.run_look, existing, fresh, Option.isSome_none,
    Bool.false_eq_true, if_false]
  exact run_publish written holds

/-- What the handler answers, and what it leaves in the file. -/
theorem run_adminRevokeTenant (configured : config.tenantsPath ≠ []) (file : store.HasText text)
    (loads : LoadsTo text tenants) (id : TenantId) :
    (((adminRevokeTenant config id).run store).1 = .revokeTenantAck ↔
        (tenants id).isSome = true) ∧
      ((tenants id).isSome = true → ((adminRevokeTenant config id).run store).2.HasText
        (unlines (otherLines id text))) := by
  have read : store.readToString = .ok text := RegistryStore.readToString_of_contents file
  unfold adminRevokeTenant
  rw [if_neg (by simpa using configured)]
  simp only [Process.run_bind, readRegistry, Process.run_look, read, revokeLines_eq loads id]
  cases (tenants id).isSome with
  | false => exact ⟨⟨nofun, nofun⟩, nofun⟩
  | true =>
      have written := run_writeAtomic (unlines (otherLines id text)) store
      have holds := hasText_writeAtomic (unlines (otherLines id text)) store
      exact ⟨iff_of_true (run_publish written holds).1 rfl, fun _ => (run_publish written holds).2⟩

/-- For every tenants file that loads: a new tenant is added to what it loads to, a tenant
is revoked exactly when it is there, all other lines stay, and a tenant that is added and
revoked leaves the tenants as they were. -/
theorem tenant_file_algebra (config : AdminConfig) (configured : config.tenantsPath ≠ [])
    (store : RegistryStore) (text : List Char) (registry : TenantRegistry)
    (file : store.contents = some (utf8 text))
    (load : TenantRegistry.loadFromText text = .ok registry) :
    (∀ record : TenantRecord, registry.get record.tenantId = none →
      ((adminAddTenant config record).run store).1 = .addTenantAck ∧
        ∃ text', ((adminAddTenant config record).run store).2.contents = some (utf8 text') ∧
          LoadsTo text' (Function.update registry.get record.tenantId (some record))) ∧
      (∀ id : TenantId, (((adminRevokeTenant config id).run store).1 = .revokeTenantAck ↔
          (registry.get id).isSome = true) ∧
        ((registry.get id).isSome = true →
          ((adminRevokeTenant config id).run store).2.contents =
              some (utf8 (unlines ((textLines text).filter fun line =>
                !holdsRecordOf id line))) ∧
            LoadsTo (unlines ((textLines text).filter fun line => !holdsRecordOf id line))
              (Function.update registry.get id none))) ∧
      ∀ record : TenantRecord, registry.get record.tenantId = none →
        let added := ((adminAddTenant config record).run store).2
        ((adminRevokeTenant config record.tenantId).run added).1 = .revokeTenantAck ∧
          ∃ text', ((adminRevokeTenant config record.tenantId).run added).2.contents =
            some (utf8 text') ∧ LoadsTo text' registry.get := by
  have loads : LoadsTo text registry.get := ⟨registry, load, rfl⟩
  refine ⟨?_, ?_, ?_⟩
  · intro record fresh
    obtain ⟨acknowledged, written⟩ := run_adminAddTenant configured file loads fresh
    exact ⟨acknowledged, _, written, loads.added fresh⟩
  · intro id
    obtain ⟨acknowledged, written⟩ := run_adminRevokeTenant configured file loads id
    exact ⟨acknowledged, fun known => ⟨written known, loads.revoked id⟩⟩
  · intro record fresh added
    obtain ⟨-, written⟩ := run_adminAddTenant configured file loads fresh
    obtain ⟨acknowledged, rewritten⟩ :=
      run_adminRevokeTenant configured written (loads.added fresh) record.tenantId
    have known : (Function.update registry.get record.tenantId (some record)
        record.tenantId).isSome = true := by
      rw [Function.update_self]
      rfl
    have again := (loads.added fresh).revoked record.tenantId
    rw [Function.update_idem, ← fresh, Function.update_eq_self] at again
    exact ⟨acknowledged.mpr known, _, rewritten known, again⟩

/-- A record for the file. -/
def newTenant : TenantRecord := ⟨7, modelHash [], 10, 1, 0⟩

/-- A file of one comment, without a line feed at its end. -/
theorem tenant_file_algebra_comment :
    tenantsConfig.tenantsPath ≠ [] ∧
      TenantRegistry.loadFromText "# none".toList = .ok ⟨∅⟩ ∧
      ((adminAddTenant tenantsConfig newTenant).run (storeOf (some "# none".toList))).1 =
        .addTenantAck ∧
      ((adminRevokeTenant tenantsConfig 7).run
        ((adminAddTenant tenantsConfig newTenant).run (storeOf (some "# none".toList))).2).1 =
          .revokeTenantAck := by
  have load : TenantRegistry.loadFromText "# none".toList = .ok ⟨∅⟩ := rfl
  obtain ⟨added, -, again⟩ := tenant_file_algebra tenantsConfig (by decide)
    (storeOf (some "# none".toList)) "# none".toList ⟨∅⟩ rfl load
  exact ⟨by decide, load, (added newTenant rfl).1, (again newTenant rfl).1⟩

end Cosaci.Coordinator
