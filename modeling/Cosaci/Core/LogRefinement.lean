import Cosaci.Core.FileStore

/-!
# The file-backed log refines the in-memory log

`MerkleLog` has the same read side over both stores.  A file-backed log that is closed
and opened again between its appends cannot be told from an in-memory log that was
given the same entries without a break: the appends return the same positions, and
every read gives the same answer.

Over either store an inclusion proof once given stays the same through all later
appends, and so does the root that it is checked against.
-/

namespace Cosaci.Core

open Foundation

/-- In-memory store. -/
structure MemStore where
  entries : List Hash
  deriving DecidableEq

def MemStore.append (store : MemStore) (entry : Hash) : Nat × MemStore :=
  (store.entries.length, ⟨store.entries ++ [entry]⟩)

namespace MerkleLog

/-- An in-memory log. -/
def new : MerkleLog MemStore :=
  ⟨[], ⟨[]⟩⟩

/-- Append to an in-memory log. -/
def memAppend (log : MerkleLog MemStore) (entry : Hash) : Nat × MerkleLog MemStore :=
  let (position, store) := log.store.append entry
  (position, ⟨log.entries ++ [entry], store⟩)

def memMachine : Machine (MerkleLog MemStore) Hash Nat where
  step log entry := log.memAppend entry

/-- The store of an in-memory log holds the same entries as its mirror. -/
theorem memMachine_eq (entries later : List Hash) :
    memMachine.run ⟨entries, ⟨entries⟩⟩ later = List.range' entries.length later.length ∧
      memMachine.final ⟨entries, ⟨entries⟩⟩ later =
        ⟨entries ++ later, ⟨entries ++ later⟩⟩ := by
  induction later generalizing entries with
  | nil => simp [Machine.run, Machine.final]
  | cons entry rest ih =>
      rcases ih (entries ++ [entry]) with ⟨positions, log⟩
      rw [List.append_assoc, List.singleton_append] at log
      rw [List.length_append, List.length_singleton] at positions
      constructor
      · rw [List.length_cons, List.range'_succ, ← positions]
        rfl
      · rw [← log]
        rfl

/-! ## Sessions on one file -/

/-- The successful appends of a list of entries. -/
def appendCalls (entries : List Hash) : List AppendCall :=
  entries.map fun entry => ⟨entry, .ok⟩

/-- Open the file and append the entries: what the appends return, and the log, which
is still open. -/
def session (file : List UInt8) (entries : List Hash) :
    Except IoErrorKind (List (Except IoErrorKind Nat) × MerkleLog FileStore) := do
  let log ← MerkleLog.open file
  return (machine.run log (appendCalls entries), machine.final log (appendCalls entries))

/-- Sessions one after the other, each of which closes the file: what all appends
return, and the contents of the file. -/
def sessions (file : List UInt8) :
    List (List Hash) → Except IoErrorKind (List (Except IoErrorKind Nat) × List UInt8)
  | [] => .ok ([], file)
  | entries :: rest => do
      let (positions, log) ← session file entries
      let (later, file) ← sessions log.store.file rest
      return (positions ++ later, file)

/-- The log of which the file, the counter and the mirror agree on the entries. -/
def fileLog (entries : List Hash) : MerkleLog FileStore :=
  ⟨entries, ⟨joinRecords entries, entries.length⟩⟩

theorem append_fileLog (entries : List Hash) (entry : Hash) :
    (fileLog entries).append entry .ok = (.ok entries.length, fileLog (entries ++ [entry])) := by
  simp [fileLog, append, FileStore.append, joinRecords]

/-- Successful appends keep the three copies in agreement. -/
theorem machine_fileLog (entries later : List Hash) :
    machine.run (fileLog entries) (appendCalls later) =
        (List.range' entries.length later.length).map .ok ∧
      machine.final (fileLog entries) (appendCalls later) = fileLog (entries ++ later) := by
  induction later generalizing entries with
  | nil => simp [Machine.run, Machine.final, appendCalls]
  | cons entry rest ih =>
      have step : machine.step (fileLog entries) ⟨entry, .ok⟩ =
          (.ok entries.length, fileLog (entries ++ [entry])) := append_fileLog entries entry
      rcases ih (entries ++ [entry]) with ⟨positions, log⟩
      rw [List.append_assoc, List.singleton_append] at log
      rw [List.length_append, List.length_singleton] at positions
      simp only [appendCalls] at positions log
      simp only [appendCalls, List.map_cons, Machine.run, Machine.final, step, positions, log,
        List.length_cons, List.range'_succ, and_self]

/-- A session on a file of whole entries. -/
theorem session_joinRecords (entries later : List Hash) :
    session (joinRecords entries) later =
      .ok ((List.range' entries.length later.length).map .ok, fileLog (entries ++ later)) := by
  have opened : MerkleLog.open (joinRecords entries) = .ok (fileLog entries) :=
    open_joinRecords entries
  rcases machine_fileLog entries later with ⟨positions, log⟩
  rw [session, opened, ← positions, ← log]
  rfl

/-- Sessions leave a file of whole entries behind, so that the next one opens. -/
theorem sessions_joinRecords (entries : List Hash) (closed : List (List Hash)) :
    sessions (joinRecords entries) closed =
      .ok ((List.range' entries.length closed.flatten.length).map .ok,
        joinRecords (entries ++ closed.flatten)) := by
  induction closed generalizing entries with
  | nil => simp [sessions]
  | cons first rest ih =>
      have here := session_joinRecords entries first
      have later := ih (entries ++ first)
      have file : (fileLog (entries ++ first)).store.file = joinRecords (entries ++ first) := rfl
      rw [sessions, here]
      simp only [bind, Except.bind, file, later, pure, Except.pure, List.flatten_cons,
        List.append_assoc, List.length_append]
      rw [← List.map_append, List.range'_append_1]

/-! ## Reading -/

/-- Every read of the two logs gives the same answer. -/
structure ReadsAlike {σ τ : Type} (crypto : Crypto) (left : MerkleLog σ)
    (right : MerkleLog τ) : Prop where
  len : left.len = right.len
  entryAt : ∀ position, left.entryAt position = right.entryAt position
  root : left.root crypto = right.root crypto
  rootAt : ∀ n, left.rootAt crypto n = right.rootAt crypto n
  inclusionProofAt : ∀ position length,
    left.inclusionProofAt crypto position length = right.inclusionProofAt crypto position length
  peakHashes : ∀ length, left.peakHashes crypto length = right.peakHashes crypto length

/-- Reads go to the mirror only. -/
theorem readsAlike_of_entries {σ τ : Type} (crypto : Crypto) {left : MerkleLog σ}
    {right : MerkleLog τ} (same : left.entries = right.entries) :
    ReadsAlike crypto left right := by
  rcases left with ⟨entries, leftStore⟩
  rcases right with ⟨_, rightStore⟩
  cases same
  exact ⟨rfl, fun _ => rfl, rfl, fun _ => rfl, fun _ _ => rfl, fun _ => rfl⟩

/-- At every moment of the sessions on one file, be it in the middle of the current
session, the file-backed log has returned the positions of the in-memory log and reads
as it does. -/
theorem fileLog_refines_memLog (crypto : Crypto) (closed : List (List Hash))
    (current : List Hash) :
    ∃ earlier file later log,
      sessions [] closed = .ok (earlier, file) ∧ session file current = .ok (later, log) ∧
      earlier ++ later = (memMachine.run new (closed.flatten ++ current)).map .ok ∧
      ReadsAlike crypto log (memMachine.final new (closed.flatten ++ current)) := by
  rcases memMachine_eq [] (closed.flatten ++ current) with ⟨positions, mirror⟩
  refine ⟨_, _, _, _, sessions_joinRecords [] closed, session_joinRecords _ current, ?_, ?_⟩
  · rw [new, positions, ← List.map_append, List.length_nil, List.nil_append,
      List.length_append, ← List.range'_append_1, Nat.zero_add]
  · apply readsAlike_of_entries
    rw [new, mirror]
    rfl

/-! ## Proofs that outlive appends -/

theorem entries_memMachine (log : MerkleLog MemStore) (later : List Hash) :
    (memMachine.final log later).entries = log.entries ++ later := by
  induction later generalizing log with
  | nil => exact (List.append_nil _).symm
  | cons entry rest ih =>
      rw [Machine.final, ih]
      exact List.append_assoc log.entries [entry] rest

/-- The entry at a position has the same proof at both moments, and it verifies against
the root over the length, which is the same at both moments. -/
def ProvedAlike {σ : Type} (crypto : Crypto) (log later : MerkleLog σ)
    (position length : Nat) : Prop :=
  ∃ proof root, log.inclusionProofAt crypto position length = some proof ∧
    later.inclusionProofAt crypto position length = some proof ∧
    log.rootAt crypto length = some root ∧ later.rootAt crypto length = some root ∧
    log.entryAt position = some proof.entry ∧ verifyInclusion crypto proof root = true

theorem provedAlike_of_grows {σ : Type} (crypto : Crypto) {log later : MerkleLog σ}
    (grows : log.entries <+: later.entries) {position length : Nat}
    (inside : position < length) (bounded : length ≤ log.len) :
    ProvedAlike crypto log later position length := by
  have found : log.entryAt position = some (log.entries.get ⟨position, inside.trans_le bounded⟩) :=
    List.getElem?_eq_getElem (inside.trans_le bounded)
  rcases verifyInclusion_complete crypto found inside bounded with
    ⟨proof, root, given, rooted, entry, verified⟩
  refine ⟨proof, root, given, ?_, rooted, ?_, ?_, verified⟩
  · rw [inclusionProofAt_of_grows crypto grows position bounded, given]
  · rw [rootAt_of_grows crypto grows bounded, rooted]
  · rw [entry, found]

/-- Every entry below a length that the log has reached is proved for ever, whatever is
appended to an in-memory log, and whatever is appended to a file-backed log, failed
appends included. -/
theorem inclusion_outlives_appends (crypto : Crypto) (position length : Nat)
    (inside : position < length) :
    (∀ (log : MerkleLog MemStore) (appended : List Hash), length ≤ log.len →
      ProvedAlike crypto log (memMachine.final log appended) position length) ∧
    (∀ (log : MerkleLog FileStore) (calls : List AppendCall), length ≤ log.len →
      ProvedAlike crypto log (machine.final log calls) position length) := by
  constructor
  · intro log appended bounded
    apply provedAlike_of_grows crypto _ inside bounded
    rw [entries_memMachine]
    exact List.prefix_append _ _
  · intro log calls bounded
    apply provedAlike_of_grows crypto _ inside bounded
    rw [entries_final]
    exact List.prefix_append _ _

/-- The log of three entries, over both stores. -/
theorem inclusion_outlives_appends_sample :
    (1 < 2 ∧ 2 ≤ sampleLog.len) ∧
      ProvedAlike modelCrypto ⟨sampleLog.entries, ⟨sampleLog.entries⟩⟩
        (memMachine.final ⟨sampleLog.entries, ⟨sampleLog.entries⟩⟩ [sampleEntry 4]) 1 2 ∧
      ProvedAlike modelCrypto (fileLog sampleLog.entries)
        (machine.final (fileLog sampleLog.entries)
          [⟨sampleEntry 4, .writeFails 5⟩, ⟨sampleEntry 4, .ok⟩]) 1 2 := by
  have inside : 1 < 2 := by decide
  have bounded : 2 ≤ sampleLog.len := by decide
  have outlives := inclusion_outlives_appends modelCrypto 1 2 inside
  exact ⟨⟨inside, bounded⟩, outlives.1 _ _ bounded, outlives.2 _ _ bounded⟩

end MerkleLog

end Cosaci.Core
