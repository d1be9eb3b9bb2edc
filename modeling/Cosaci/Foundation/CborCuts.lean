import Cosaci.Foundation.CborShapes

/-!
# Cut encodings

A reader does not look beyond what it reads, so more bytes behind an item change
nothing.  An encoding that is cut short is therefore not read as anything: what was read
from it would be read from the whole encoding as well.
-/

namespace Cosaci.Foundation.Cbor

section Local

variable {α : Type} {read : Reader α}

/-- What is read does not depend on what follows it. -/
def Local (read : Reader α) : Prop :=
  ∀ bytes value rest more, read bytes = some (value, rest) →
    read (bytes ++ more) = some (value, rest ++ more)

theorem local_readHead : Local readHead := by
  intro bytes head rest more found
  rw [bytes_of_readHead found, List.append_assoc]
  exact readHead_bytes head (rest ++ more)

theorem Local.readMany (isLocal : Local read) (count : Nat) : Local (readMany read count) := by
  induction count with
  | zero =>
      intro bytes values rest more found
      cases found
      rfl
  | succ count ih =>
      intro bytes values rest more found
      rw [Cbor.readMany] at found ⊢
      cases first : read bytes with
      | none => simp [first] at found
      | some taken =>
          obtain ⟨value, following⟩ := taken
          simp only [first, Option.map_eq_some_iff] at found
          obtain ⟨⟨others, last⟩, later, same⟩ := found
          cases same
          simp only [isLocal _ _ _ more first, ih _ _ _ more later, Option.map_some]

theorem Local.readUntilBreak (isLocal : Local read) (needs : read [] = none) {bound larger : Nat}
    (le : bound ≤ larger) {bytes rest : List UInt8} {values : List α} (more : List UInt8)
    (found : readUntilBreak read bound bytes = some (values, rest)) :
    readUntilBreak read larger (bytes ++ more) = some (values, rest ++ more) := by
  induction bound generalizing larger bytes values with
  | zero => cases found
  | succ bound ih =>
      obtain ⟨larger, rfl⟩ := Nat.exists_eq_add_of_le' (Nat.le_of_add_left_le le)
      have smaller := Nat.le_of_succ_le_succ le
      rw [Cbor.readUntilBreak] at found ⊢
      by_cases closed : bytes.head? = some breakByte
      · rw [if_pos closed] at found
        cases found
        obtain ⟨tail, rfl⟩ := List.head?_eq_some_iff.mp closed
        rfl
      · rw [if_neg closed] at found
        cases first : read bytes with
        | none => simp [first] at found
        | some taken =>
            obtain ⟨value, following⟩ := taken
            simp only [first, Option.map_eq_some_iff] at found
            obtain ⟨⟨others, last⟩, later, same⟩ := found
            cases same
            cases bytes with
            | nil =>
                rw [needs] at first
                cases first
            | cons byte bytes =>
                rw [List.cons_append, List.head?_cons] at *
                rw [if_neg closed, ← List.cons_append, isLocal _ _ _ more first]
                simp only [ih smaller later, Option.map_some]

end Local

theorem local_readBody {child : Reader Item} (isLocal : Local child) (needs : child [] = none)
    (head : Head) : Local (readBody child head) := by
  intro bytes body rest more found
  unfold readBody at found ⊢
  split at found
  · cases found
  · next length known =>
      split at found
      · next enough =>
          cases found
          have still : length ≤ (bytes ++ more).length := by
            rw [List.length_append]
            exact Nat.le_add_right_of_le enough
          simp only [if_pos still, List.take_append_of_le_length enough,
            List.drop_append_of_le_length enough]
      · cases found
  · next count known =>
      obtain ⟨⟨items, last⟩, inner, same⟩ := Option.map_eq_some_iff.mp found
      cases same
      simp only [isLocal.readMany count _ _ _ more inner, Option.map_some]
  · next known =>
      obtain ⟨⟨items, last⟩, inner, same⟩ := Option.map_eq_some_iff.mp found
      cases same
      have longer : bytes.length ≤ (bytes ++ more).length := by
        rw [List.length_append]
        exact Nat.le_add_right _ _
      simp only [isLocal.readUntilBreak needs longer more inner, Option.map_some]

theorem readItem_nil (depth : Nat) : readItem depth [] = none := by
  cases depth <;> rfl

theorem local_readItem (depth : Nat) : Local (readItem depth) := by
  induction depth with
  | zero => intro bytes item rest more found; cases found
  | succ depth ih =>
      intro bytes item rest more found
      simp only [readItem, readNode] at found ⊢
      cases first : readHead bytes with
      | none => simp [first] at found
      | some taken =>
          obtain ⟨head, following⟩ := taken
          simp only [first, local_readHead _ _ _ more first] at found ⊢
          cases inner : readBody (readItem depth) head following with
          | none => simp [inner] at found
          | some body =>
              obtain ⟨⟨content, children⟩, last⟩ := body
              simp only [inner, local_readBody ih (readItem_nil depth) head _ _ _ more inner]
                at found ⊢
              split at found
              · next consistent =>
                  cases found
                  rw [if_pos consistent]
              · cases found

/-- Nothing is read from a code that has been cut short. -/
theorem Code.Sent.readItem_cut {code : Code} {nesting depth : Nat} (sent : code.Sent nesting)
    (deep : nesting ≤ depth) {bytes : List UInt8} (cut : bytes <+: code.bytes)
    (short : bytes.length < code.bytes.length) : readItem depth bytes = none := by
  obtain ⟨missing, whole⟩ := cut
  rw [← sent.bytes] at whole short
  cases found : readItem depth bytes with
  | none => rfl
  | some taken =>
      obtain ⟨item, rest⟩ := taken
      have again := local_readItem depth _ _ _ missing found
      rw [whole, ← List.append_nil code.item.bytes, sent.readable depth deep []] at again
      have nothing : rest ++ missing = [] := (congrArg Prod.snd (Option.some.inj again)).symm
      have lengths := congrArg List.length whole
      rw [(List.append_eq_nil_iff.mp nothing).2, List.append_nil] at lengths
      omega

end Cosaci.Foundation.Cbor
