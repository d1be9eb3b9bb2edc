import Cosaci.Foundation.Text

/-!
# Lossy decoding of UTF-8

The decoder that never fails: every maximal beginning of a sequence that is cut short
or malformed becomes one replacement character, and decoding goes on at the first byte
that did not fit.  On well-formed input it is the inverse of the encoder.
-/

namespace Cosaci.Foundation

/-- U+FFFD, what a malformed sequence is replaced by. -/
def replacement : Char := '\uFFFD'

/-- The number of continuation bytes that a leading byte of a longer sequence announces. -/
def trailing (lead : UInt8) : Option Nat :=
  if 0xC2 ≤ lead.toNat ∧ lead.toNat ≤ 0xDF then some 1
  else if 0xE0 ≤ lead.toNat ∧ lead.toNat ≤ 0xEF then some 2
  else if 0xF0 ≤ lead.toNat ∧ lead.toNat ≤ 0xF4 then some 3
  else none

def isContinuation (byte : UInt8) : Bool :=
  0x80 ≤ byte.toNat && byte.toNat ≤ 0xBF

/-- The second byte also excludes overlong forms, surrogates and values beyond U+10FFFF. -/
def isSecond (lead second : UInt8) : Bool :=
  isContinuation second &&
    (lead.toNat != 0xE0 || 0xA0 ≤ second.toNat) && (lead.toNat != 0xED || second.toNat ≤ 0x9F) &&
    (lead.toNat != 0xF0 || 0x90 ≤ second.toNat) && (lead.toNat != 0xF4 || second.toNat ≤ 0x8F)

/-- The bytes after a leading byte that continue its sequence, at most `count` of them. -/
def continuation (lead : UInt8) (count : Nat) : List UInt8 → List UInt8
  | [] => []
  | second :: more =>
      if isSecond lead second then second :: (more.take (count - 1)).takeWhile isContinuation
      else []

/-- The value of a complete sequence with `count` continuation bytes. -/
def sequenceValue (lead : UInt8) (count : Nat) (bytes : List UInt8) : Nat :=
  bytes.foldl (fun value byte => value * 64 + byte.toNat % 64) (lead.toNat % 2 ^ (6 - count))

/-- The first character of a text and the number of bytes after the leading one it takes. -/
def lossyFront (lead : UInt8) (rest : List UInt8) : Char × Nat :=
  if lead.toNat < 0x80 then (Char.ofNat lead.toNat, 0)
  else match trailing lead with
    | none => (replacement, 0)
    | some count =>
        let bytes := continuation lead count rest
        if bytes.length = count then (Char.ofNat (sequenceValue lead count bytes), count)
        else (replacement, bytes.length)

/-- Decode after the first `skip` bytes, which belong to the character before. -/
def lossyFrom : Nat → List UInt8 → List Char
  | _, [] => []
  | skip + 1, _ :: rest => lossyFrom skip rest
  | 0, lead :: rest => (lossyFront lead rest).1 :: lossyFrom (lossyFront lead rest).2 rest

/-- `String::from_utf8_lossy`, which is also how a file name is shown as text. -/
def utf8Lossy (bytes : List UInt8) : List Char :=
  lossyFrom 0 bytes

theorem lossyFrom_append (skipped rest : List UInt8) :
    lossyFrom skipped.length (skipped ++ rest) = lossyFrom 0 rest := by
  induction skipped with
  | nil => rfl
  | cons byte skipped ih => exact ih

variable {value : Nat} {lead : UInt8} {count : Nat} {more : List UInt8}

private theorem toNat_byte (small : value < 256) : (UInt8.ofNat value).toNat = value := by
  rw [UInt8.toNat_ofNat', Nat.mod_eq_of_lt small]

private theorem toNat_continuation (value : Nat) :
    (UInt8.ofNat (value % 64 + 128)).toNat = value % 64 + 128 :=
  toNat_byte (by omega)

private theorem isContinuation_byte (value : Nat) :
    isContinuation (UInt8.ofNat (value % 64 + 128)) = true := by
  simp only [isContinuation, toNat_continuation, Bool.and_eq_true, decide_eq_true_eq]
  omega

private theorem isSecond_byte (long : lead.toNat = 0xE0 → 32 ≤ value % 64)
    (scalar : lead.toNat = 0xED → value % 64 < 32) (longer : lead.toNat = 0xF0 → 16 ≤ value % 64)
    (small : lead.toNat = 0xF4 → value % 64 < 16) :
    isSecond lead (UInt8.ofNat (value % 64 + 128)) = true := by
  simp only [isSecond, isContinuation_byte, toNat_continuation, Bool.true_and, Bool.and_eq_true,
    Bool.or_eq_true, bne_iff_ne, decide_eq_true_eq]
  omega

theorem trailing_eq_some (announced : trailing lead = some count) :
    count = 1 ∧ 0xC2 ≤ lead.toNat ∧ lead.toNat ≤ 0xDF ∨
      count = 2 ∧ 0xE0 ≤ lead.toNat ∧ lead.toNat ≤ 0xEF ∨
      count = 3 ∧ 0xF0 ≤ lead.toNat ∧ lead.toNat ≤ 0xF4 := by
  rw [trailing] at announced
  split_ifs at announced with two three four
  all_goals cases announced
  · exact Or.inl ⟨rfl, two⟩
  · exact Or.inr (Or.inl ⟨rfl, three⟩)
  · exact Or.inr (Or.inr ⟨rfl, four⟩)

/-- A complete sequence of continuation bytes is taken as it is. -/
theorem continuation_complete {lead second : UInt8} (fits : isSecond lead second = true)
    (follow : ∀ byte ∈ more, isContinuation byte = true) (rest : List UInt8) :
    continuation lead (second :: more).length (second :: more ++ rest) = second :: more := by
  rw [List.cons_append, continuation, if_pos fits, List.length_cons, Nat.add_sub_cancel,
    List.take_left, List.takeWhile_eq_self_iff.mpr follow]

/-- A complete sequence gives its value as a character. -/
theorem lossyFront_complete {lead second : UInt8}
    (announced : trailing lead = some (second :: more).length) (fits : isSecond lead second = true)
    (follow : ∀ byte ∈ more, isContinuation byte = true)
    (valued : sequenceValue lead (second :: more).length (second :: more) = value)
    (rest : List UInt8) :
    lossyFront lead (second :: more ++ rest) = (Char.ofNat value, (second :: more).length) := by
  have range := trailing_eq_some announced
  rw [lossyFront, if_neg (by omega), announced]
  simp only [continuation_complete fits follow, valued, if_true]

/-- The front of an encoded character is that character with all its further bytes. -/
theorem lossyFront_utf8EncodeChar (character : Char)
    (encoded : String.utf8EncodeChar character = lead :: more) (rest : List UInt8) :
    lossyFront lead (more ++ rest) = (character, more.length) := by
  have valid : character.val.toNat.isValidChar := character.valid
  have decoded : Char.ofNat character.val.toNat = character := Char.ofNat_toNat character
  simp only [String.utf8EncodeChar] at encoded
  generalize character.val.toNat = value at encoded decoded valid
  rw [Nat.isValidChar] at valid
  -- One case for each length of a sequence, in each of which the bytes are known.
  split_ifs at encoded with one two three
  all_goals
    obtain ⟨rfl, rfl⟩ := List.cons.inj encoded
    rw [← decoded]
  · rw [lossyFront, toNat_byte (by omega), if_pos (by omega)]
    rfl
  · have first := toNat_byte (show value / 64 % 32 + 192 < 256 by omega)
    apply lossyFront_complete
    · rw [trailing, first, if_pos (by omega)]
      rfl
    · exact isSecond_byte (by omega) (by omega) (by omega) (by omega)
    · exact List.forall_mem_nil _
    · simp only [sequenceValue, List.foldl_cons, List.foldl_nil, List.length_cons,
        List.length_nil, first, toNat_continuation]
      omega
  · have first := toNat_byte (show value / 4096 % 16 + 224 < 256 by omega)
    apply lossyFront_complete
    · rw [trailing, first, if_neg (by omega), if_pos (by omega)]
      rfl
    · exact isSecond_byte (by omega) (by omega) (by omega) (by omega)
    · exact List.forall_mem_singleton.mpr (isContinuation_byte _)
    · simp only [sequenceValue, List.foldl_cons, List.foldl_nil, List.length_cons,
        List.length_nil, first, toNat_continuation]
      omega
  · have first := toNat_byte (show value / 262144 % 8 + 240 < 256 by omega)
    apply lossyFront_complete
    · rw [trailing, first, if_neg (by omega), if_neg (by omega), if_pos (by omega)]
      rfl
    · exact isSecond_byte (by omega) (by omega) (by omega) (by omega)
    · exact List.forall_mem_cons.mpr
        ⟨isContinuation_byte _, List.forall_mem_singleton.mpr (isContinuation_byte _)⟩
    · simp only [sequenceValue, List.foldl_cons, List.foldl_nil, List.length_cons,
        List.length_nil, first, toNat_continuation]
      omega

/-- Well-formed text is decoded as it is. -/
@[simp] theorem utf8Lossy_utf8 (characters : List Char) :
    utf8Lossy (utf8 characters) = characters := by
  induction characters with
  | nil => rfl
  | cons character characters ih =>
      obtain ⟨lead, more, encoded, -⟩ := utf8EncodeChar_lead character
      have front := lossyFront_utf8EncodeChar character encoded (utf8 characters)
      have bytes : utf8 (character :: characters) = lead :: (more ++ utf8 characters) := by
        rw [utf8, List.flatMap_cons, encoded]
        rfl
      rw [utf8Lossy, bytes, lossyFrom, front, lossyFrom_append]
      exact congrArg (character :: ·) ih

/-! ## What malformed text becomes -/

/-- Only continuation bytes continue a sequence, and the second one fits the leading byte. -/
theorem continuation_eq_cons {lead second : UInt8} {rest more : List UInt8}
    (continued : continuation lead count rest = second :: more) :
    isSecond lead second = true ∧ ∀ byte ∈ more, isContinuation byte = true := by
  cases rest with
  | nil => cases continued
  | cons first rest =>
      rw [continuation] at continued
      split_ifs at continued with fits
      cases continued
      exact ⟨fits, fun byte inside => List.mem_takeWhile_imp inside⟩

/-- A complete sequence is a scalar value, and not one that a shorter sequence has. -/
theorem sequenceValue_valid {rest : List UInt8} (announced : trailing lead = some count)
    (complete : (continuation lead count rest).length = count) :
    (sequenceValue lead count (continuation lead count rest)).isValidChar ∧
      128 ≤ sequenceValue lead count (continuation lead count rest) := by
  have range := trailing_eq_some announced
  generalize continued : continuation lead count rest = bytes at complete
  subst complete
  cases bytes with
  | nil => simp only [List.length_nil] at range; omega
  | cons second more =>
      obtain ⟨fits, follow⟩ := continuation_eq_cons continued
      simp only [isSecond, isContinuation, Bool.and_eq_true, Bool.or_eq_true, bne_iff_ne,
        decide_eq_true_eq] at fits follow
      -- At most two bytes follow the second one.
      rcases more with _ | ⟨third, _ | ⟨fourth, _ | ⟨fifth, more⟩⟩⟩
      all_goals
        simp only [List.mem_cons, List.not_mem_nil, forall_eq_or_imp] at follow
        simp only [sequenceValue, List.foldl_cons, List.foldl_nil, List.length_cons,
          List.length_nil, Nat.isValidChar] at range ⊢
        omega

theorem toNat_ofNat_of_valid (valid : value.isValidChar) : (Char.ofNat value).toNat = value := by
  rw [Char.ofNat, dif_pos valid]
  rfl

/-- No sequence but the byte NUL itself is shown as the character NUL. -/
theorem lossyFront_ne_nul (other : lead ≠ 0) (rest : List UInt8) :
    (lossyFront lead rest).1 ≠ '\x00' := by
  rw [lossyFront]
  split_ifs with ascii
  · intro nul
    have code := congrArg Char.toNat nul
    rw [toNat_ofNat_of_valid (Or.inl (by omega))] at code
    exact other (UInt8.toNat_inj.mp code)
  · cases announced : trailing lead with
    | none => exact (by decide : replacement ≠ '\x00')
    | some count =>
        dsimp only
        split_ifs with complete
        · obtain ⟨valid, large⟩ := sequenceValue_valid announced complete
          intro nul
          have code := congrArg Char.toNat nul
          rw [toNat_ofNat_of_valid valid] at code
          have none_below : ('\x00' : Char).toNat = 0 := rfl
          omega
        · exact (by decide : replacement ≠ '\x00')

theorem nul_notMem_lossyFrom {bytes : List UInt8} (absent : 0 ∉ bytes) (skip : Nat) :
    '\x00' ∉ lossyFrom skip bytes := by
  induction bytes generalizing skip with
  | nil => cases skip <;> exact List.not_mem_nil
  | cons lead rest ih =>
      rw [List.mem_cons, not_or] at absent
      cases skip with
      | succ skip => exact ih absent.2 skip
      | zero =>
          rw [lossyFrom, List.mem_cons, not_or]
          exact ⟨(lossyFront_ne_nul (Ne.symm absent.1) rest).symm, ih absent.2 _⟩

theorem nul_notMem_utf8Lossy {bytes : List UInt8} (absent : 0 ∉ bytes) :
    '\x00' ∉ utf8Lossy bytes :=
  nul_notMem_lossyFrom absent 0

end Cosaci.Foundation
