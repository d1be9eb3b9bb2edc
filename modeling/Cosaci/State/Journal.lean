import Cosaci.Core.FileStore
import Cosaci.Foundation.Text

/-!
# The job journal

One JSON object per line, synced after every record.  A crash may leave an initial
part of the record being written; `replay` reads the file line by line and skips
the lines that do not parse.  `serde_json`'s reader is a parameter, constrained
only on the records of the run under consideration.
-/

namespace Cosaci.State

open Foundation
open Cosaci.Core (IoErrorKind JobId RunnerId)

/-- Outcome of a job's aggregation as journaled. -/
inductive JournalOutcome where
  | pass
  | fail
  | escalate
  | retry
  deriving DecidableEq, Repr

/-- One state transition in a job's lifecycle. -/
inductive JournalEntry where
  | jobSubmitted (jobId : JobId)
  | committeeSelected (jobId : JobId) (committee : List RunnerId)
  | attestationReceived (jobId : JobId) (runnerId : RunnerId)
  | aggregated (jobId : JobId) (outcome : JournalOutcome) (artifactHex : String)
  | anchored (jobId : JobId) (position : Nat)
  deriving DecidableEq, Repr

variable (entry : JournalEntry)

namespace JournalEntry

private def outcomeName : JournalOutcome → String
  | .pass => "Pass"
  | .fail => "Fail"
  | .escalate => "Escalate"
  | .retry => "Retry"

private def text (value : String) : List Char :=
  Json.string value.toList

private def jobIdField (jobId : JobId) : String × List Char :=
  ("job_id", Json.number jobId.toNat)

/-- The JSON text of an entry; the variant name is the field `k`. -/
def toJson : JournalEntry → List Char
  | .jobSubmitted jobId =>
      Json.object [("k", text "JobSubmitted"), jobIdField jobId]
  | .committeeSelected jobId committee =>
      Json.object [("k", text "CommitteeSelected"), jobIdField jobId,
        ("committee", Json.array (committee.map fun runner => Json.number runner.toNat))]
  | .attestationReceived jobId runnerId =>
      Json.object [("k", text "AttestationReceived"), jobIdField jobId,
        ("runner_id", Json.number runnerId.toNat)]
  | .aggregated jobId outcome artifactHex =>
      Json.object [("k", text "Aggregated"), jobIdField jobId,
        ("outcome", text (outcomeName outcome)), ("artifact_hex", text artifactHex)]
  | .anchored jobId position =>
      Json.object [("k", text "Anchored"), jobIdField jobId,
        ("position", Json.number position)]

/-- Every entry is written as an object. -/
theorem toJson_braces : ∃ body, entry.toJson = '\x7b' :: (body ++ ['\x7d']) := by
  cases entry <;> exact ⟨_, rfl⟩

theorem inline_toJson : Json.Inline entry.toJson := by
  cases entry with
  | jobSubmitted jobId =>
      apply Json.inline_object
      simp [text, jobIdField, Json.inline_string, Json.inline_number]
  | committeeSelected jobId committee =>
      apply Json.inline_object
      have members : Json.Inline
          (Json.array (committee.map fun runner => Json.number runner.toNat)) := by
        apply Json.inline_array
        intro item member
        rcases List.mem_map.mp member with ⟨runner, _, rfl⟩
        exact Json.inline_number _
      simp [text, jobIdField, Json.inline_string, Json.inline_number, members]
  | attestationReceived jobId runnerId =>
      apply Json.inline_object
      simp [text, jobIdField, Json.inline_string, Json.inline_number]
  | aggregated jobId outcome artifactHex =>
      apply Json.inline_object
      simp [text, jobIdField, Json.inline_string, Json.inline_number]
  | anchored jobId position =>
      apply Json.inline_object
      simp [text, jobIdField, Json.inline_string, Json.inline_number]

/-- The bytes `append` writes for an entry. -/
def record (entry : JournalEntry) : List UInt8 :=
  utf8 entry.toJson ++ [newline]

end JournalEntry

/-- Replay a journal file with a given line parser. -/
def replay (parse : List Char → Option JournalEntry) (file : List UInt8) :
    Except IoErrorKind (List JournalEntry) :=
  match (splitLines file).mapM readLine with
  | none => .error .invalidData
  | some lines =>
      .ok (lines.filterMap fun line =>
        let trimmed := trim line
        if trimmed.isEmpty then none else parse trimmed)

/-- What is assumed of the parser on the entries of a run: it reads back their
JSON texts, and rejects every text cut short. -/
structure Serde (parse : List Char → Option JournalEntry) (entries : List JournalEntry) :
    Prop where
  roundTrip : ∀ entry ∈ entries, parse entry.toJson = some entry
  truncated : ∀ entry ∈ entries, ∀ count < entry.toJson.length,
    parse (entry.toJson.take count) = none

theorem Serde.mono {parse : List Char → Option JournalEntry}
    {entries fewer : List JournalEntry} (serde : Serde parse entries)
    (subset : fewer ⊆ entries) : Serde parse fewer where
  roundTrip entry member := serde.roundTrip entry (subset member)
  truncated entry member := serde.truncated entry (subset member)

/-! ## Sessions -/

/-- A record cut off by a crash: fewer bytes than the record has. -/
structure TornWrite where
  entry : JournalEntry
  cut : Nat
  strict : cut < entry.record.length

namespace TornWrite

def bytes (torn : TornWrite) : List UInt8 :=
  torn.entry.record.take torn.cut

/-- The cut does not fall inside the encoding of a character. -/
def AtBoundary (torn : TornWrite) : Prop :=
  ∃ count, torn.bytes = utf8 ((torn.entry.toJson ++ ['\n']).take count)

end TornWrite

/-- A session opens the journal, appends entries that are acknowledged, and ends
cleanly or in the middle of a further append. -/
structure Session where
  acknowledged : List JournalEntry
  torn : Option TornWrite

namespace Session

def tornBytes (session : Session) : List UInt8 :=
  (session.torn.map TornWrite.bytes).getD []

/-- The bytes a session adds to the file. -/
def bytes (session : Session) : List UInt8 :=
  session.acknowledged.flatMap JournalEntry.record ++ session.tornBytes

/-- The entries passed to `append`. -/
def appended (session : Session) : List JournalEntry :=
  session.acknowledged ++ (session.torn.map TornWrite.entry).toList

end Session

/-- The file left by a sequence of sessions. -/
def journalFile (sessions : List Session) : List UInt8 :=
  sessions.flatMap Session.bytes

/-- No session writes after a session that left part of a record, and no record is
cut inside a character. -/
structure Recoverable (sessions : List Session) : Prop where
  lastTorn : sessions.Pairwise fun earlier later => earlier.tornBytes = [] ∨ later.bytes = []
  boundaries : ∀ session ∈ sessions, ∀ torn ∈ session.torn, torn.AtBoundary

/-! ## Replaying complete records -/

variable {parse : List Char → Option JournalEntry}

private theorem readLine_toJson : readLine (utf8 entry.toJson, true) = some entry.toJson := by
  rcases entry.toJson_braces with ⟨body, shape⟩
  have ends : entry.toJson.getLast? = some '\x7d' := by
    rw [shape, ← List.cons_append, List.getLast?_concat]
  simp [readLine, stripReturn, ends]

private theorem trim_toJson : trim entry.toJson = entry.toJson := by
  rcases entry.toJson_braces with ⟨body, shape⟩
  rw [shape]
  exact trim_eq_self body (by decide) (by decide)

/-- A complete record at the front of a file is read back. -/
theorem replay_record {entry : JournalEntry} (parsed : parse entry.toJson = some entry)
    {rest : List UInt8} {found : List JournalEntry} (replayed : replay parse rest = .ok found) :
    replay parse (entry.record ++ rest) = .ok (entry :: found) := by
  have lines : splitLines (entry.record ++ rest) =
      (utf8 entry.toJson, true) :: splitLines rest := by
    rw [JournalEntry.record, List.append_assoc, List.singleton_append]
    exact splitLines_terminated rest (newline_notMem_utf8 entry.inline_toJson)
  have visible : entry.toJson.isEmpty = false := by
    rcases entry.toJson_braces with ⟨body, shape⟩
    rw [shape]
    rfl
  unfold replay at replayed ⊢
  rw [lines, List.mapM_cons, readLine_toJson]
  cases texts : (splitLines rest).mapM readLine with
  | none =>
      rw [texts] at replayed
      cases replayed
  | some texts =>
      simp only [texts, Except.ok.injEq] at replayed
      simp only [Option.bind_eq_bind, Option.bind_some, Option.pure_def, Except.ok.injEq]
      rw [List.filterMap_cons_some, replayed]
      simp only [trim_toJson, visible, Bool.false_eq_true, ↓reduceIte, parsed]

/-- Complete records at the front of a file are read back in order. -/
theorem replay_records {entries : List JournalEntry}
    (parsed : ∀ entry ∈ entries, parse entry.toJson = some entry)
    {tail : List UInt8} {found : List JournalEntry} (replayed : replay parse tail = .ok found) :
    replay parse (entries.flatMap JournalEntry.record ++ tail) = .ok (entries ++ found) := by
  induction entries with
  | nil => exact replayed
  | cons entry rest ih =>
      rw [List.flatMap_cons, List.append_assoc, List.cons_append]
      apply replay_record (parsed entry List.mem_cons_self)
      exact ih fun entry member => parsed entry (List.mem_cons_of_mem _ member)

/-! ## Replaying a torn record -/

/-- A cut at a character boundary leaves an initial part of the JSON text. -/
theorem TornWrite.AtBoundary.text {torn : TornWrite} (boundary : torn.AtBoundary) :
    ∃ count, torn.bytes = utf8 (torn.entry.toJson.take count) := by
  rcases boundary with ⟨count, cut⟩
  by_cases short : count ≤ torn.entry.toJson.length
  · rw [List.take_append_of_le_length short] at cut
    exact ⟨count, cut⟩
  · have whole : torn.bytes = torn.entry.record := by
      rw [cut, List.take_of_length_le (by simp; omega), utf8_append]
      rfl
    have strict := torn.strict
    rw [← whole, TornWrite.bytes, List.length_take] at strict
    omega

private theorem readLine_utf8 (text : List Char) : readLine (utf8 text, false) = some text := by
  simp [readLine, stripReturn]

/-- Trimming an initial part of a JSON text leaves an initial part. -/
private theorem trim_take_toJson (count : Nat) :
    ∃ kept, trim (entry.toJson.take (count + 1)) = entry.toJson.take kept := by
  rcases entry.toJson_braces with ⟨body, shape⟩
  have text : entry.toJson.take (count + 1) = '\x7b' :: (body ++ ['\x7d']).take count := by
    rw [shape, List.take_succ_cons]
  rcases trim_take ((body ++ ['\x7d']).take count) (show isWhiteSpace '\x7b' = false by decide)
    with ⟨kept, trimmed⟩
  rw [text, trimmed, ← text, List.take_take]
  exact ⟨_, rfl⟩

/-- What is parsed from an initial part of a JSON text is the entry itself. -/
private theorem eq_of_parse_take {entry recovered : JournalEntry} (serde : Serde parse [entry])
    {count : Nat} (parsed : parse (entry.toJson.take count) = some recovered) :
    recovered = entry := by
  rcases Nat.lt_or_ge count entry.toJson.length with short | full
  · rw [serde.truncated entry List.mem_cons_self _ short] at parsed
    cases parsed
  · rw [List.take_of_length_le full, serde.roundTrip entry List.mem_cons_self] at parsed
    exact (Option.some.inj parsed).symm

/-- A torn record is skipped, unless only its line feed is missing. -/
theorem replay_torn {entry : JournalEntry} (serde : Serde parse [entry]) (count : Nat) :
    ∃ found, replay parse (utf8 (entry.toJson.take count)) = .ok found ∧
      ∀ recovered ∈ found, recovered = entry := by
  cases count with
  | zero => exact ⟨[], rfl, nofun⟩
  | succ count =>
      have inline : newline ∉ utf8 (entry.toJson.take (count + 1)) := by
        apply newline_notMem_utf8
        intro member
        exact entry.inline_toJson (List.mem_of_mem_take member)
      have nonempty : utf8 (entry.toJson.take (count + 1)) ≠ [] := by
        intro empty
        have decoded := utf8Decode_utf8 (entry.toJson.take (count + 1))
        rcases entry.toJson_braces with ⟨body, shape⟩
        rw [empty, shape, List.take_succ_cons] at decoded
        cases decoded
      unfold replay
      rw [splitLines_unterminated inline nonempty, List.mapM_cons, readLine_utf8]
      refine ⟨_, rfl, ?_⟩
      intro recovered member
      rcases List.mem_filterMap.mp member with ⟨line, inside, parsed⟩
      cases List.mem_singleton.mp inside
      rcases trim_take_toJson entry count with ⟨kept, cut⟩
      simp only [cut] at parsed
      split at parsed
      · cases parsed
      · exact eq_of_parse_take serde parsed

/-! ## Whole histories -/

def acknowledgedEntries (sessions : List Session) : List JournalEntry :=
  sessions.flatMap Session.acknowledged

def appendedEntries (sessions : List Session) : List JournalEntry :=
  sessions.flatMap Session.appended

theorem acknowledgedEntries_subset (sessions : List Session) :
    acknowledgedEntries sessions ⊆ appendedEntries sessions := by
  intro entry member
  rcases List.mem_flatMap.mp member with ⟨session, inside, acknowledged⟩
  exact List.mem_flatMap.mpr ⟨session, inside, List.mem_append_left _ acknowledged⟩

theorem TornWrite.mem_appendedEntries {torn : TornWrite} {session : Session}
    {sessions : List Session} (inside : torn ∈ session.torn) (member : session ∈ sessions) :
    torn.entry ∈ appendedEntries sessions := by
  have passed : torn.entry ∈ (session.torn.map TornWrite.entry).toList := by
    rw [Option.mem_toList, Option.mem_def.mp inside, Option.map_some]
  exact List.mem_flatMap.mpr ⟨session, member, List.mem_append_right _ passed⟩

private theorem record_ne_nil : entry.record ≠ [] := by
  simp [JournalEntry.record]

/-- A session that writes nothing acknowledges nothing. -/
private theorem acknowledged_eq_nil {session : Session} (silent : session.bytes = []) :
    session.acknowledged = [] := by
  rw [Session.bytes, List.append_eq_nil_iff, List.flatMap_eq_nil_iff] at silent
  apply List.eq_nil_iff_forall_not_mem.mpr
  intro entry member
  exact record_ne_nil entry (silent.1 entry member)

/-- A recoverable file consists of the acknowledged records and at most one torn
record after them. -/
theorem Recoverable.file_eq {sessions : List Session} (recoverable : Recoverable sessions) :
    ∃ tail, journalFile sessions =
        (acknowledgedEntries sessions).flatMap JournalEntry.record ++ tail ∧
      (tail = [] ∨ ∃ session ∈ sessions, ∃ torn ∈ session.torn, tail = torn.bytes) := by
  have lastTorn := recoverable.lastTorn
  clear recoverable
  induction sessions with
  | nil => exact ⟨[], rfl, Or.inl rfl⟩
  | cons session rest ih =>
      rcases List.pairwise_cons.mp lastTorn with ⟨first, later⟩
      simp only [journalFile, acknowledgedEntries, List.flatMap_cons, List.flatMap_append,
        Session.bytes] at ih ⊢
      by_cases clean : session.tornBytes = []
      · rcases ih later with ⟨tail, file, origin⟩
        refine ⟨tail, by simp only [clean, file, List.append_nil, List.append_assoc], ?_⟩
        rcases origin with none | ⟨other, member, torn⟩
        · exact Or.inl none
        · exact Or.inr ⟨other, List.mem_cons_of_mem _ member, torn⟩
      · have silent : ∀ other ∈ rest, other.bytes = [] := by
          intro other member
          exact (first other member).resolve_left clean
        have noBytes : rest.flatMap Session.bytes = [] := List.flatMap_eq_nil_iff.mpr silent
        have noEntries : rest.flatMap Session.acknowledged = [] := by
          apply List.flatMap_eq_nil_iff.mpr
          intro other member
          exact acknowledged_eq_nil (silent other member)
        refine ⟨session.tornBytes, by simp [noBytes, noEntries], Or.inr ?_⟩
        cases torn : session.torn with
        | none => simp [Session.tornBytes, torn] at clean
        | some write =>
            exact ⟨session, List.mem_cons_self, write, torn, by simp [Session.tornBytes, torn]⟩

/-- Crash recovery: in every recoverable history, replay succeeds and returns all
acknowledged entries in order, and nothing that was never appended. -/
theorem replay_recovers (parse : List Char → Option JournalEntry) (sessions : List Session)
    (serde : Serde parse (appendedEntries sessions)) (recoverable : Recoverable sessions) :
    ∃ found, replay parse (journalFile sessions) = .ok found ∧
      (acknowledgedEntries sessions).Sublist found ∧
      ∀ entry ∈ found, entry ∈ appendedEntries sessions := by
  have known := acknowledgedEntries_subset sessions
  rcases recoverable.file_eq with ⟨tail, file, origin⟩
  obtain ⟨found, replayed, appended⟩ : ∃ found, replay parse tail = .ok found ∧
      found ⊆ appendedEntries sessions := by
    rcases origin with rfl | ⟨session, member, torn, inside, rfl⟩
    · exact ⟨[], rfl, List.nil_subset _⟩
    · have passed := TornWrite.mem_appendedEntries inside member
      rcases (recoverable.boundaries session member torn inside).text with ⟨count, bytes⟩
      have single := serde.mono (List.cons_subset.mpr ⟨passed, List.nil_subset _⟩)
      rcases replay_torn single count with ⟨found, replayed, same⟩
      rw [bytes]
      refine ⟨found, replayed, ?_⟩
      intro entry recovered
      rw [same entry recovered]
      exact passed
  have parsed := (serde.mono known).roundTrip
  refine ⟨acknowledgedEntries sessions ++ found, ?_, List.sublist_append_left _ _, ?_⟩
  · rw [file]
    exact replay_records parsed replayed
  · exact List.append_subset.mpr ⟨known, appended⟩

/-- A parser for the JSON texts of the given entries. -/
def parseAmong (entries : List JournalEntry) (text : List Char) : Option JournalEntry :=
  entries.find? fun entry => entry.toJson = text

/-- Two sessions, the second of which crashes five bytes into a record. -/
def tornHistory : List Session :=
  [⟨[.jobSubmitted 1], none⟩,
    ⟨[.committeeSelected 1 [2, 3]], some ⟨.anchored 1 0, 5, by decide +kernel⟩⟩]

theorem replay_recovers_tornHistory :
    ∃ found, replay (parseAmong (appendedEntries tornHistory)) (journalFile tornHistory) =
        .ok found ∧
      (acknowledgedEntries tornHistory).Sublist found ∧
      ∀ entry ∈ found, entry ∈ appendedEntries tornHistory := by
  apply replay_recovers
  · exact ⟨by decide +kernel, by decide +kernel⟩
  · refine ⟨by decide +kernel, ?_⟩
    intro session member torn inside
    simp only [tornHistory, List.mem_cons, List.not_mem_nil, or_false] at member
    rcases member with rfl | rfl
    · cases inside
    · cases inside
      exact ⟨5, by decide +kernel⟩

/-- A record appended after a torn one shares its line and is lost although it was
acknowledged; a record torn inside a character makes the whole replay fail. -/
theorem replay_loses_acknowledged :
    replay (parseAmong [.jobSubmitted 1, .jobSubmitted 2])
        (journalFile [⟨[], some ⟨.jobSubmitted 1, 5, by decide +kernel⟩⟩,
          ⟨[.jobSubmitted 2], none⟩]) = .ok [] ∧
      replay (parseAmong [.jobSubmitted 1, .aggregated 1 .pass "é"])
        (journalFile [⟨[.jobSubmitted 1],
          some ⟨.aggregated 1 .pass "é", 63, by decide +kernel⟩⟩]) = .error .invalidData := by
  decide +kernel

end Cosaci.State
