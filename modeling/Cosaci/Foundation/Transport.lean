import Cosaci.Foundation.Encoding

/-!
# Byte transports

A reader of a byte stream does not see the pieces in which the bytes were written.
What it sees is a script: in which pieces the bytes arrive, when nothing has arrived
yet, and where the transport fails.  `readExact` is the loop that fills a buffer of a
given size from such a script.
-/

namespace Cosaci.Foundation

variable {ε : Type}

/-- What one attempt to read brings. -/
inductive Arrival (ε : Type) where
  /-- At least one byte. -/
  | data (first : UInt8) (rest : List UInt8)
  /-- Nothing yet: a blocking read was interrupted, or an asynchronous one is pending.
  The attempt is repeated. -/
  | idle
  | fault (error : ε)

/-- The bytes that arrive before the transport fails. -/
def deliverable : List (Arrival ε) → List UInt8
  | [] => []
  | .data first rest :: source => first :: rest ++ deliverable source
  | .idle :: source => deliverable source
  | .fault _ :: _ => []

/-- The transport never fails. -/
def Intact (source : List (Arrival ε)) : Prop :=
  ∀ error, Arrival.fault error ∉ source

/-- Fill a buffer; the rest of a larger piece stays for the next read. -/
def readExact (eof : ε) : Nat → List (Arrival ε) → Except ε (List UInt8) × List (Arrival ε)
  | 0, source => (.ok [], source)
  | _ + 1, [] => (.error eof, [])
  | size + 1, .idle :: source => readExact eof (size + 1) source
  | _ + 1, .fault error :: source => (.error error, source)
  | size + 1, .data first rest :: source =>
      match rest.drop size with
      | next :: others => (.ok (first :: rest.take size), .data next others :: source)
      | [] =>
          let (result, after) := readExact eof (size - rest.length) source
          (result.map (first :: rest ++ ·), after)

variable {source : List (Arrival ε)} {size : Nat}

theorem Intact.tail {arrival : Arrival ε} (intact : Intact (arrival :: source)) : Intact source :=
  fun error member => intact error (List.mem_cons_of_mem _ member)

/-- A piece without faults in front of an intact source. -/
theorem Intact.data (intact : Intact source) (first : UInt8) (rest : List UInt8) :
    Intact (.data first rest :: source) := by
  intro error member
  rcases List.mem_cons.mp member with same | member
  · cases same
  · exact intact error member

/-- A buffer is filled with the next bytes, in whatever pieces they arrive, and
nothing else is taken from the source. -/
theorem readExact_of_le (eof : ε) (enough : size ≤ (deliverable source).length) :
    ∃ after, readExact eof size source = (.ok ((deliverable source).take size), after) ∧
      deliverable after = (deliverable source).drop size ∧ (Intact source → Intact after) := by
  induction source generalizing size with
  | nil =>
      rw [Nat.le_zero.mp enough]
      exact ⟨[], by simp [readExact], rfl, id⟩
  | cons arrival source ih =>
      cases size with
      | zero => exact ⟨arrival :: source, by simp [readExact], rfl, id⟩
      | succ size =>
          cases arrival with
          | idle =>
              obtain ⟨after, read, left, intact⟩ := ih enough
              exact ⟨after, read, left, fun all => intact all.tail⟩
          | fault error => cases enough
          | data first rest =>
              simp only [deliverable, List.cons_append, List.length_cons, List.length_append]
                at enough
              cases beyond : rest.drop size with
              | cons next others =>
                  have longer : size ≤ rest.length := by
                    by_contra short
                    rw [List.drop_of_length_le (by omega)] at beyond
                    cases beyond
                  refine ⟨.data next others :: source, ?_, ?_, fun all => all.tail.data next others⟩
                  · simp [readExact, beyond, deliverable, List.take_append_of_le_length longer]
                  · simp [deliverable, List.drop_append_of_le_length longer, beyond]
              | nil =>
                  have short : rest.length ≤ size := List.drop_eq_nil_iff.mp beyond
                  have remaining : size - rest.length ≤ (deliverable source).length := by omega
                  obtain ⟨after, read, left, intact⟩ := ih remaining
                  refine ⟨after, ?_, ?_, fun all => intact all.tail⟩
                  · simp [readExact, beyond, read, Except.map, deliverable, List.take_append,
                      List.take_of_length_le short]
                  · simp [deliverable, left, List.drop_append, beyond]

theorem readExact_append (eof : ε) {front tail : List UInt8}
    (next : deliverable source = front ++ tail) (full : front.length = size) :
    ∃ after, readExact eof size source = (.ok front, after) ∧ deliverable after = tail ∧
      (Intact source → Intact after) := by
  have enough : size ≤ (deliverable source).length := by
    rw [next, List.length_append, full]
    exact Nat.le_add_right _ _
  obtain ⟨after, read, left, intact⟩ := readExact_of_le eof enough
  subst full
  refine ⟨after, ?_, ?_, intact⟩
  · rw [read, next, List.take_left]
  · rw [left, next, List.drop_left]

/-- A buffer is not filled from a source that delivers too little; the end of an intact
source is reported as such. -/
theorem readExact_of_lt (eof : ε) (short : (deliverable source).length < size) :
    ∃ error after, readExact eof size source = (.error error, after) ∧
      (Intact source → error = eof ∧ deliverable after = [] ∧ Intact after) := by
  induction source generalizing size with
  | nil =>
      cases size with
      | zero => cases short
      | succ size => exact ⟨eof, [], rfl, fun intact => ⟨rfl, rfl, intact⟩⟩
  | cons arrival source ih =>
      cases size with
      | zero => cases short
      | succ size =>
          cases arrival with
          | idle =>
              obtain ⟨error, after, read, ended⟩ := ih short
              exact ⟨error, after, read, fun intact => ended intact.tail⟩
          | fault error =>
              refine ⟨error, source, rfl, fun intact => ?_⟩
              exact False.elim (intact error List.mem_cons_self)
          | data first rest =>
              simp only [deliverable, List.cons_append, List.length_cons, List.length_append]
                at short
              have beyond : rest.drop size = [] := List.drop_eq_nil_iff.mpr (by omega)
              have remaining : (deliverable source).length < size - rest.length := by omega
              obtain ⟨error, after, read, ended⟩ := ih remaining
              refine ⟨error, after, ?_, fun intact => ended intact.tail⟩
              simp [readExact, beyond, read, Except.map]

end Cosaci.Foundation
