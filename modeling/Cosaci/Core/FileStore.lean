import Cosaci.Core.MerkleLog
import Cosaci.Foundation.Machine

/-!
# The file-backed log

`FileStore` keeps one 32-byte record per entry.  Three copies of the log have to
agree: the bytes of the file, the counter of the store and the in-memory mirror.
An append writes the record, syncs the file and only then moves the counter and
the mirror, so a failure after the first written byte leaves them apart.
-/

namespace Cosaci.Core

open Foundation

/-- Kinds of I/O errors that the program tells apart. -/
inductive IoErrorKind where
  | invalidData
  | unexpectedEof
  | wouldBlock
  | timedOut
  | other
  deriving DecidableEq, Repr

/-- What the system does with the two calls of an append. -/
inductive AppendIo where
  | ok
  /-- `write_all` fails after `written` bytes have reached the file. -/
  | writeFails (written : Nat)
  /-- The record is written completely, then `sync_data` fails. -/
  | syncFails
  deriving DecidableEq, Repr

/-- An append-only file and the number of records the store has counted. -/
structure FileStore where
  file : List UInt8
  len : Nat
  deriving DecidableEq

namespace FileStore

/-- The store opened on a file with the given contents. -/
def «open» (file : List UInt8) : Except IoErrorKind FileStore :=
  if file.length % 32 ≠ 0 then .error .invalidData else .ok ⟨file, file.length / 32⟩

def readAll (store : FileStore) : Except IoErrorKind (List Hash) :=
  match readRecords 32 store.file with
  | some entries => .ok entries
  | none => .error .invalidData

def append (store : FileStore) (entry : Hash) :
    AppendIo → Except IoErrorKind Nat × FileStore
  | .ok => (.ok store.len, ⟨store.file ++ entry.toList, store.len + 1⟩)
  | .writeFails written =>
      (.error .other, { store with file := store.file ++ entry.toList.take written })
  | .syncFails => (.error .other, { store with file := store.file ++ entry.toList })

end FileStore

namespace MerkleLog

/-- Open the log on a file with the given contents. -/
def «open» (file : List UInt8) : Except IoErrorKind (MerkleLog FileStore) := do
  let store ← FileStore.open file
  let entries ← store.readAll
  return ⟨entries, store⟩

def append (log : MerkleLog FileStore) (entry : Hash) (io : AppendIo) :
    Except IoErrorKind Nat × MerkleLog FileStore :=
  match log.store.append entry io with
  | (.ok position, store) => (.ok position, ⟨log.entries ++ [entry], store⟩)
  | (.error kind, store) => (.error kind, { log with store := store })

/-- A file opens exactly when it is made of whole entries, and then the three
copies agree. -/
theorem open_eq_ok_iff {file : List UInt8} {log : MerkleLog FileStore} :
    MerkleLog.open file = .ok log ↔
      file = joinRecords log.entries ∧ log.store = ⟨file, log.entries.length⟩ := by
  constructor
  · intro opened
    simp only [MerkleLog.open, FileStore.open] at opened
    split at opened
    · cases opened
    · cases read : readRecords 32 file with
      | none => simp [FileStore.readAll, read, bind, Except.bind] at opened
      | some entries =>
          simp only [FileStore.readAll, read, bind, Except.bind, pure, Except.pure,
            Except.ok.injEq] at opened
          subst opened
          have made := (readRecords_eq_some_iff (by decide)).mp read
          refine ⟨made, ?_⟩
          simp [made]
  · rintro ⟨made, counted⟩
    have read := (readRecords_eq_some_iff (by decide)).mpr made
    have whole : file.length % 32 = 0 := by simp [made]
    have count : file.length / 32 = log.entries.length := by simp [made]
    simp only [MerkleLog.open, FileStore.open, whole, count, FileStore.readAll, read, bind,
      Except.bind, pure, Except.pure, ne_eq, not_true_eq_false, ↓reduceIte]
    rw [← counted]

/-- A file of whole entries opens as the log of these entries. -/
theorem open_joinRecords (entries : List Hash) :
    MerkleLog.open (joinRecords entries) =
      .ok ⟨entries, ⟨joinRecords entries, entries.length⟩⟩ :=
  open_eq_ok_iff.mpr ⟨rfl, rfl⟩

/-! ## The log as a machine -/

/-- One append and what the system does with it. -/
structure AppendCall where
  entry : Hash
  io : AppendIo
  deriving DecidableEq

def machine : Machine (MerkleLog FileStore) AppendCall (Except IoErrorKind Nat) where
  step log call := log.append call.entry call.io

/-- The bytes a call adds to the file. -/
def AppendCall.written (call : AppendCall) : List UInt8 :=
  match call.io with
  | .ok => call.entry.toList
  | .writeFails written => call.entry.toList.take written
  | .syncFails => call.entry.toList

/-- A failed call that added nothing to the file, or a successful one. -/
def AppendCall.Clean (call : AppendCall) : Prop :=
  match call.io with
  | .ok => True
  | .writeFails written => written = 0
  | .syncFails => False

instance (call : AppendCall) : Decidable call.Clean := by
  unfold AppendCall.Clean
  cases call.io <;> infer_instance

/-- The acknowledged entry and position of a call that returned `Ok`. -/
def acknowledgement (call : AppendCall) : Except IoErrorKind Nat → Option (Hash × Nat)
  | .ok position => some (call.entry, position)
  | .error _ => none

/-- The acknowledged entries of a run with their positions, in order. -/
def acknowledged (log : MerkleLog FileStore) (calls : List AppendCall) : List (Hash × Nat) :=
  machine.observe acknowledgement log calls

/-- The entries whose two system calls both succeed. -/
def succeeded (calls : List AppendCall) : List Hash :=
  calls.filterMap fun call => if call.io = .ok then some call.entry else none

variable {call : AppendCall} (log : MerkleLog FileStore)

theorem succeeded_cons_of_ok (rest : List AppendCall) (ok : call.io = .ok) :
    succeeded (call :: rest) = call.entry :: succeeded rest := by
  simp [succeeded, ok]

theorem succeeded_cons_of_failed (rest : List AppendCall) (failed : call.io ≠ .ok) :
    succeeded (call :: rest) = succeeded rest := by
  simp [succeeded, failed]

/-- A successful append moves all three copies. -/
theorem step_of_ok (ok : call.io = .ok) :
    machine.step log call =
      (.ok log.store.len,
        ⟨log.entries ++ [call.entry], ⟨log.store.file ++ call.written, log.store.len + 1⟩⟩) := by
  simp only [machine, append, FileStore.append, AppendCall.written, ok]

/-- A failed append moves only the file. -/
theorem step_of_failed (failed : call.io ≠ .ok) :
    machine.step log call =
      (.error .other,
        { log with store := { log.store with file := log.store.file ++ call.written } }) := by
  cases io : call.io with
  | ok => exact False.elim (failed io)
  | writeFails written => simp only [machine, append, FileStore.append, AppendCall.written, io]
  | syncFails => simp only [machine, append, FileStore.append, AppendCall.written, io]

theorem file_final (calls : List AppendCall) :
    (machine.final log calls).store.file =
      log.store.file ++ calls.flatMap AppendCall.written := by
  induction calls generalizing log with
  | nil => simp [Machine.final]
  | cons call rest ih =>
      rw [Machine.final, ih, List.flatMap_cons, ← List.append_assoc]
      by_cases ok : call.io = .ok
      · rw [step_of_ok log ok]
      · rw [step_of_failed log ok]

theorem entries_final (calls : List AppendCall) :
    (machine.final log calls).entries = log.entries ++ succeeded calls := by
  induction calls generalizing log with
  | nil => simp [Machine.final, succeeded]
  | cons call rest ih =>
      rw [Machine.final, ih]
      by_cases ok : call.io = .ok
      · rw [step_of_ok log ok, succeeded_cons_of_ok rest ok, List.append_assoc,
          List.singleton_append]
      · rw [step_of_failed log ok, succeeded_cons_of_failed rest ok]

/-- The acknowledgements of a run are its successful appends, numbered from the
counter of the store. -/
theorem acknowledged_eq (calls : List AppendCall) :
    acknowledged log calls = (succeeded calls).zipIdx log.store.len := by
  induction calls generalizing log with
  | nil => rfl
  | cons call rest ih =>
      unfold acknowledged at ih ⊢
      rw [Machine.observe_cons, ih]
      by_cases ok : call.io = .ok
      · rw [step_of_ok log ok, succeeded_cons_of_ok rest ok, List.zipIdx_cons]
        rfl
      · rw [step_of_failed log ok, succeeded_cons_of_failed rest ok]
        rfl

/-! ## What survives a reopening -/

/-- The file grows by at least the successful records, and by exactly those when
no failed append left a byte behind. -/
theorem written_length (calls : List AppendCall) :
    32 * (succeeded calls).length ≤ (calls.flatMap AppendCall.written).length ∧
      ((calls.flatMap AppendCall.written).length = 32 * (succeeded calls).length →
        ∀ call ∈ calls, call.Clean) := by
  induction calls with
  | nil => simp [succeeded]
  | cons call rest ih =>
      rcases ih with ⟨bound, clean⟩
      have split : ((call :: rest).flatMap AppendCall.written).length =
          call.written.length + (rest.flatMap AppendCall.written).length := by
        rw [List.flatMap_cons, List.length_append]
      rw [split]
      simp only [List.mem_cons, forall_eq_or_imp]
      cases io : call.io with
      | ok =>
          have record : call.written.length = 32 := by simp [AppendCall.written, io]
          rw [succeeded_cons_of_ok rest io, List.length_cons]
          simp only [AppendCall.Clean, io, true_and]
          exact ⟨by omega, fun exact => clean (by omega)⟩
      | writeFails written =>
          have part : call.written.length = min written 32 := by
            simp [AppendCall.written, io]
          rw [succeeded_cons_of_failed rest (by simp [io])]
          simp only [AppendCall.Clean, io]
          exact ⟨by omega, fun exact => ⟨by omega, clean (by omega)⟩⟩
      | syncFails =>
          have record : call.written.length = 32 := by simp [AppendCall.written, io]
          rw [succeeded_cons_of_failed rest (by simp [io])]
          simp only [AppendCall.Clean, io, false_and]
          exact ⟨by omega, fun exact => by omega⟩

theorem written_of_clean {calls : List AppendCall} (clean : ∀ call ∈ calls, call.Clean) :
    calls.flatMap AppendCall.written = joinRecords (succeeded calls) := by
  induction calls with
  | nil => rfl
  | cons call rest ih =>
      have here := clean call List.mem_cons_self
      have later := ih fun call member => clean call (List.mem_cons_of_mem _ member)
      rw [List.flatMap_cons, later]
      cases io : call.io with
      | ok =>
          rw [succeeded_cons_of_ok rest io]
          simp [AppendCall.written, io, joinRecords]
      | writeFails written =>
          simp only [AppendCall.Clean, io] at here
          rw [succeeded_cons_of_failed rest (by simp [io])]
          simp [AppendCall.written, io, here]
      | syncFails => simp [AppendCall.Clean, io] at here

/-- After a run of appends the mirror and the reopened log both consist of exactly
the acknowledged entries, each at its acknowledged position, if and only if no
failed append left bytes in the file. -/
theorem reopened_eq_acknowledged_iff (file : List UInt8) (log : MerkleLog FileStore)
    (opened : MerkleLog.open file = .ok log) (calls : List AppendCall) :
    ((machine.final log calls).entries =
        log.entries ++ (acknowledged log calls).map Prod.fst ∧
      (∃ reopened, MerkleLog.open (machine.final log calls).store.file = .ok reopened ∧
        reopened.entries = log.entries ++ (acknowledged log calls).map Prod.fst) ∧
      ∀ receipt ∈ acknowledged log calls,
        (machine.final log calls).entryAt receipt.2 = some receipt.1) ↔
    ∀ call ∈ calls, call.Clean := by
  rcases open_eq_ok_iff.mp opened with ⟨made, counted⟩
  have entries : (acknowledged log calls).map Prod.fst = succeeded calls := by
    rw [acknowledged_eq, List.zipIdx_map_fst]
  have fileIs : (machine.final log calls).store.file =
      joinRecords log.entries ++ calls.flatMap AppendCall.written := by
    rw [file_final, counted, made]
  rw [entries]
  constructor
  · rintro ⟨_, ⟨reopened, opens, same⟩, _⟩
    have whole := (open_eq_ok_iff.mp opens).1
    rw [fileIs, same, joinRecords_append, List.append_cancel_left_eq] at whole
    apply (written_length calls).2
    rw [whole, length_joinRecords]
  · intro clean
    refine ⟨entries_final log calls, ?_, ?_⟩
    · rw [fileIs, written_of_clean clean, ← joinRecords_append]
      exact ⟨⟨log.entries ++ succeeded calls, joinRecords (log.entries ++ succeeded calls),
        (log.entries ++ succeeded calls).length⟩, open_eq_ok_iff.mpr ⟨rfl, rfl⟩, rfl⟩
    · intro receipt member
      rw [acknowledged_eq, counted, List.mem_zipIdx_iff_le_and_getElem?_sub] at member
      rw [entryAt, entries_final, List.getElem?_append_right member.1]
      exact member.2

/-- The log opened on an empty file. -/
def emptyLog : MerkleLog FileStore := ⟨[], [], 0⟩

theorem reopened_eq_acknowledged_retried :
    ∃ reopened, MerkleLog.open (machine.final emptyLog
        [⟨sampleEntry 1, .ok⟩, ⟨sampleEntry 2, .writeFails 0⟩, ⟨sampleEntry 2, .ok⟩]).store.file =
          .ok reopened ∧
      reopened.entries = [] ++ (acknowledged emptyLog
        [⟨sampleEntry 1, .ok⟩, ⟨sampleEntry 2, .writeFails 0⟩,
          ⟨sampleEntry 2, .ok⟩]).map Prod.fst :=
  ((reopened_eq_acknowledged_iff [] emptyLog (by decide) _).mpr (by decide)).2.1

/-- A torn record makes the file unreadable although the next append was
acknowledged; a record whose sync failed takes the position acknowledged for the
next one. -/
theorem failed_append_breaks_log :
    (acknowledged emptyLog [⟨sampleEntry 1, .writeFails 5⟩, ⟨sampleEntry 2, .ok⟩] =
        [(sampleEntry 2, 0)] ∧
      MerkleLog.open (machine.final emptyLog
        [⟨sampleEntry 1, .writeFails 5⟩, ⟨sampleEntry 2, .ok⟩]).store.file =
          .error .invalidData) ∧
    (acknowledged emptyLog [⟨sampleEntry 1, .syncFails⟩, ⟨sampleEntry 2, .ok⟩] =
        [(sampleEntry 2, 0)] ∧
      (MerkleLog.open (machine.final emptyLog
        [⟨sampleEntry 1, .syncFails⟩, ⟨sampleEntry 2, .ok⟩]).store.file).map entries =
          .ok [sampleEntry 1, sampleEntry 2]) := by
  decide +kernel

end MerkleLog

end Cosaci.Core
