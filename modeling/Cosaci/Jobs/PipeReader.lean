import Cosaci.Jobs.CaptureLength

/-!
# Interrupted reads

A read of a pipe may be interrupted by a signal before any byte has arrived; nothing is
lost then, and the next read goes on.  `read_capped` ends at every error alike, so an
interruption cuts the capture and leaves the rest of the pipe unread.
-/

namespace Cosaci.Jobs

open Foundation

/-! ## Chunks and interruptions -/

/-- The number of bytes that one read asks for. -/
def scratchBytes : Nat := 8192

/-- A read before the end of the stream. -/
inductive TransientRead where
  | chunk (bytes : List UInt8) (nonempty : bytes ≠ []) (fits : bytes.length ≤ scratchBytes)
  | interrupted

def TransientRead.toPipeRead : TransientRead → PipeRead
  | .chunk bytes _ _ => .ok bytes
  | .interrupted => .error ()

/-- The bytes of a read. -/
def TransientRead.bytes : TransientRead → List UInt8
  | .chunk bytes _ _ => bytes
  | .interrupted => []

/-- All bytes that the reads bring. -/
def payload (reads : List TransientRead) : List UInt8 :=
  reads.flatMap TransientRead.bytes

/-- Reads up to the end of the stream, and what is behind it. -/
def untilEof (reads : List TransientRead) (after : List PipeRead) : List PipeRead :=
  reads.map TransientRead.toPipeRead ++ .ok [] :: after

/-- Reads without an interruption are all made, and all their bytes are delivered. -/
theorem delivered_chunks {reads : List TransientRead} (whole : .interrupted ∉ reads)
    (rest : List PipeRead) :
    delivered (reads.map TransientRead.toPipeRead ++ rest) = payload reads ++ delivered rest ∧
      unread (reads.map TransientRead.toPipeRead ++ rest) = unread rest := by
  induction reads with
  | nil => exact ⟨rfl, rfl⟩
  | cons read reads ih =>
      rw [List.mem_cons, not_or] at whole
      obtain ⟨bytes, remaining⟩ := ih whole.2
      cases read with
      | interrupted => exact absurd rfl whole.1
      | chunk chunk nonempty fits =>
          cases chunk with
          | nil => exact absurd rfl nonempty
          | cons byte more =>
              rw [List.map_cons, List.cons_append, TransientRead.toPipeRead, delivered, unread,
                bytes, remaining, ← List.append_assoc]
              exact ⟨rfl, rfl⟩

/-- Nothing behind an interruption is read. -/
theorem readCappedRounds_interrupted {cap : Nat} (fits : cap ≤ maxWord)
    {before : List TransientRead} (whole : .interrupted ∉ before) (behind : List TransientRead)
    (after : List PipeRead) :
    readCappedRounds cap (untilEof (before ++ .interrupted :: behind) after) [] 0 =
      ((payload before).take cap, untilEof behind after) := by
  obtain ⟨bytes, remaining⟩ := delivered_chunks whole (.error () :: untilEof behind after)
  have reads : untilEof (before ++ .interrupted :: behind) after =
      before.map TransientRead.toPipeRead ++ .error () :: untilEof behind after := by
    simp [untilEof, TransientRead.toPipeRead]
  rw [readCappedRounds_eq fits, reads, bytes, remaining]
  simp [delivered, unread]

theorem readCappedRounds_whole {cap : Nat} (fits : cap ≤ maxWord) {reads : List TransientRead}
    (whole : .interrupted ∉ reads) (after : List PipeRead) :
    readCappedRounds cap (untilEof reads after) [] 0 = ((payload reads).take cap, after) := by
  obtain ⟨bytes, remaining⟩ := delivered_chunks whole (.ok [] :: after)
  rw [readCappedRounds_eq fits, untilEof, bytes, remaining]
  simp [delivered, unread]

/-- The reader goes on to the end of the stream and returns the beginning of what the pipe
brings exactly when no read is interrupted. -/
theorem readCapped_until_eof_iff (cap : UInt64) (reads : List TransientRead)
    (after : List PipeRead) :
    readCappedRounds cap.toNat (untilEof reads after) [] 0 =
        ((payload reads).take (min cap.toNat (payload reads).length), after) ↔
      .interrupted ∉ reads := by
  have fits := toNat_le_maxWord cap
  rw [← List.take_eq_take_min]
  constructor
  · intro drained member
    obtain ⟨before, behind, rfl, whole⟩ := List.eq_append_cons_of_mem member
    rw [readCappedRounds_interrupted fits whole, Prod.mk.injEq] at drained
    -- What is left over still ends with the end of the stream and what is behind it.
    have longer := congrArg List.length drained.2
    simp only [untilEof, List.length_append, List.length_cons] at longer
    omega
  · intro whole
    exact readCappedRounds_whole fits whole after

/-- Two bytes with a signal between them: the second one is neither captured nor drained. -/
theorem readCapped_interrupted_between :
    readCappedRounds maxCaptureBytes
        (untilEof [.chunk [104] (by decide) (by decide), .interrupted,
          .chunk [105] (by decide) (by decide)] []) [] 0 = ([104], [.ok [105], .ok []]) ∧
      payload [.chunk [104] (by decide) (by decide), .interrupted,
        .chunk [105] (by decide) (by decide)] = [104, 105] := by
  decide

end Cosaci.Jobs
