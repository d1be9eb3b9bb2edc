import Cosaci.Foundation.CborTree

/-!
# CBOR codes that delimit themselves

Headers tell their type and argument, so integers of every width delimit themselves.
The length of a text or an array is written with at most 64 bits; longer ones do not
delimit themselves, but they are still told apart when less than that follows them.
-/

namespace Cosaci.Foundation

/-! ## Leading zeros -/

theorem ofLittleEndian_append_zero (bytes : List UInt8) :
    ofLittleEndian (bytes ++ [0]) = ofLittleEndian bytes := by
  induction bytes with
  | nil => rfl
  | cons byte rest ih => rw [List.cons_append, ofLittleEndian, ih, ofLittleEndian]

/-- Leading zeros do not change a number. -/
theorem ofBigEndian_dropWhile (bytes : List UInt8) :
    ofBigEndian (bytes.dropWhile fun byte => byte == 0) = ofBigEndian bytes := by
  induction bytes with
  | nil => rfl
  | cons byte rest ih =>
      by_cases zero : byte = 0
      · subst zero
        rw [List.dropWhile_cons_of_pos (by decide), ih, ofBigEndian, ofBigEndian,
          List.reverse_cons, ofLittleEndian_append_zero]
      · rw [List.dropWhile_cons_of_neg (by simpa using zero)]

theorem bigEndian_mod (width value : Nat) :
    bigEndian width (value % 256 ^ width) = bigEndian width value := by
  rw [bigEndian, bigEndian]
  congr 1
  induction width generalizing value with
  | zero => rfl
  | succ width ih =>
      have low : UInt8.ofNat (value % 256 ^ (width + 1)) = UInt8.ofNat value := by
        apply UInt8.toNat_inj.mp
        rw [UInt8.toNat_ofNat', UInt8.toNat_ofNat', Nat.pow_succ', Nat.mod_mul_right_mod]
      have high : value % 256 ^ (width + 1) / 256 = value / 256 % 256 ^ width := by
        rw [Nat.pow_succ', Nat.mod_mul_right_div_self]
      rw [littleEndian, littleEndian, low, high, ih]

namespace Cbor

/-- The header that is written for an argument of any size; only 64 bits of it are. -/
theorem header_eq_bytes (major : Fin 8) (argument : Nat) :
    ∃ head : Head, head.major = major ∧ head.argument = argument % 2 ^ 64 ∧
      head.bytes = header major argument := by
  by_cases bounded : argument < 2 ^ 64
  · refine ⟨⟨major, .shortest argument, argument, Form.fits_shortest bounded⟩, rfl,
      (Nat.mod_eq_of_lt bounded).symm, Head.bytes_of_shortest rfl⟩
  · have long : header major argument =
        UInt8.ofNat (32 * major + 27) :: bigEndian 8 argument := by
      rw [header, if_neg (by omega), if_neg (by omega), if_neg (by omega), if_neg (by omega)]
    refine ⟨⟨major, .next8, argument % 2 ^ 64, Nat.mod_lt _ (by decide)⟩, rfl, rfl, ?_⟩
    rw [long, ← bigEndian_mod]
    rfl

variable {rest others : List UInt8}

/-- Headers tell their type and 64 bits of their argument. -/
theorem header_split_word (major other : Fin 8) {argument argument' : Nat}
    (equal : header major argument ++ rest = header other argument' ++ others) :
    major = other ∧ argument % 2 ^ 64 = argument' % 2 ^ 64 ∧ rest = others := by
  obtain ⟨head, rfl, word, bytes⟩ := header_eq_bytes major argument
  obtain ⟨head', rfl, word', bytes'⟩ := header_eq_bytes other argument'
  have read := readHead_bytes head rest
  rw [bytes, equal, ← bytes', readHead_bytes] at read
  cases read
  exact ⟨rfl, word.symm.trans word', rfl⟩

/-! ## Integers -/

/-- The type of a signed integer. -/
def signMajor : Int → Fin 8
  | .ofNat _ => 0
  | .negSucc _ => 1

/-- The argument of a signed integer. -/
def magnitude : Int → Nat
  | .ofNat value => value
  | .negSucc value => value

theorem signed_eq (value : Int) : signed value = header (signMajor value) (magnitude value) := by
  cases value <;> rfl

theorem eq_of_signMajor {first second : Int} (sign : signMajor first = signMajor second)
    (same : magnitude first = magnitude second) : first = second := by
  cases first <;> cases second <;> simp_all [signMajor, magnitude]

theorem magnitude_lt {value : Int} (low : -2 ^ 63 ≤ value) (high : value < 2 ^ 63) :
    magnitude value < 2 ^ 64 := by
  cases value with
  | ofNat value =>
      rw [Int.ofNat_eq_natCast] at high
      simp only [magnitude]
      omega
  | negSucc value =>
      simp only [magnitude]
      omega

theorem length_signed_le (value : Int) : (signed value).length ≤ 9 :=
  (signed_eq value) ▸ length_header_le _ _

variable {α : Type}

/-- Signed integers of up to 64 bits delimit themselves. -/
theorem signed_prefixFree {project : α → Int} (injective : Function.Injective project)
    (bounded : ∀ a, -2 ^ 63 ≤ project a ∧ project a < 2 ^ 63) :
    PrefixFree fun a => signed (project a) := by
  apply PrefixFree.of_split
  intro a b rest others equal
  rw [signed_eq, signed_eq] at equal
  obtain ⟨sign, word, -⟩ := header_split_word _ _ equal
  rw [Nat.mod_eq_of_lt (magnitude_lt (bounded a).1 (bounded a).2),
    Nat.mod_eq_of_lt (magnitude_lt (bounded b).1 (bounded b).2)] at word
  exact injective (eq_of_signMajor sign word)

theorem int32_prefixFree : PrefixFree fun value : Int32 => signed value.toInt := by
  refine signed_prefixFree (fun _ _ same => Int32.toInt_inj.mp same) fun value => ?_
  have low := value.le_toInt
  have high := value.toInt_lt
  omega

/-- The digits of a bignum. -/
def digits (value : Nat) : List UInt8 :=
  (bigEndian 16 value).dropWhile fun byte => byte == 0

theorem length_digits_le (value : Nat) : (digits value).length ≤ 16 :=
  (List.dropWhile_suffix _).length_le.trans_eq (length_bigEndian 16 value)

theorem ofBigEndian_digits {value : Nat} (fits : value < 2 ^ 128) :
    ofBigEndian (digits value) = value := by
  rw [digits, ofBigEndian_dropWhile, ofBigEndian_bigEndian (fits.trans_eq (by decide))]

theorem length_wide_le (value : Nat) : (wide value).length ≤ 34 := by
  have number := length_unsigned_le value
  have tag := length_header_le 6 2
  have head := length_header_le 2 (digits value).length
  have body := length_digits_le value
  rw [wide]
  split
  · omega
  · change (header 6 2 ++ header 2 (digits value).length ++ digits value).length ≤ 34
    rw [List.length_append, List.length_append]
    omega

/-- Integers of up to 128 bits delimit themselves. -/
theorem wide_prefixFree {project : α → Nat} (injective : Function.Injective project)
    (bounded : ∀ a, project a < 2 ^ 128) : PrefixFree fun a => wide (project a) := by
  have small {value : Nat} (word : value < 2 ^ 64) : wide value = header 0 value := if_pos word
  have large {value : Nat} (long : ¬value < 2 ^ 64) :
      wide value = header 6 2 ++ (header 2 (digits value).length ++ digits value) := by
    rw [wide, if_neg long, List.append_assoc]
    rfl
  apply PrefixFree.of_split
  intro a b rest others equal
  apply injective
  by_cases smallA : project a < 2 ^ 64
  · by_cases smallB : project b < 2 ^ 64
    · rw [small smallA, small smallB] at equal
      obtain ⟨-, word, -⟩ := header_split_word 0 0 equal
      rwa [Nat.mod_eq_of_lt smallA, Nat.mod_eq_of_lt smallB] at word
    · rw [small smallA, large smallB, List.append_assoc] at equal
      exact absurd (header_split_word 0 6 equal).1 (by decide)
  · by_cases smallB : project b < 2 ^ 64
    · rw [large smallA, small smallB, List.append_assoc] at equal
      exact absurd (header_split_word 6 0 equal).1 (by decide)
    · rw [large smallA, large smallB] at equal
      simp only [List.append_assoc, List.append_cancel_left_eq] at equal
      obtain ⟨-, word, tail⟩ := header_split_word 2 2 equal
      have lengthA := length_digits_le (project a)
      have lengthB := length_digits_le (project b)
      rw [Nat.mod_eq_of_lt (by omega), Nat.mod_eq_of_lt (by omega)] at word
      have same := congrArg ofBigEndian (List.append_inj tail word).1
      rwa [ofBigEndian_digits (bounded a), ofBigEndian_digits (bounded b)] at same

/-! ## Texts and arrays before a bounded rest -/

/-- Lengths that agree on 64 bits and differ by less than that are equal. -/
private theorem eq_of_word {first second restLength othersLength : Nat}
    (word : first % 2 ^ 64 = second % 2 ^ 64)
    (total : first + restLength = second + othersLength) (shortRest : restLength < 2 ^ 64)
    (shortOthers : othersLength < 2 ^ 64) : first = second := by
  omega

theorem text_split {first second : String} (equal : text first ++ rest = text second ++ others)
    (shortRest : rest.length < 2 ^ 64) (shortOthers : others.length < 2 ^ 64) :
    first = second ∧ rest = others := by
  rw [text, text, List.append_assoc, List.append_assoc] at equal
  obtain ⟨-, word, tail⟩ := header_split_word 3 3 equal
  have total := congrArg List.length tail
  rw [List.length_append, List.length_append] at total
  obtain ⟨bytes, remaining⟩ :=
    List.append_inj tail (eq_of_word word total shortRest shortOthers)
  exact ⟨utf8_inj bytes, remaining⟩

theorem length_unsigned_pos (value : Nat) : 0 < (unsigned value).length := by
  obtain ⟨head, -, -, bytes⟩ := header_eq_bytes 0 value
  rw [unsigned, ← Fin.val_zero 8, ← bytes]
  exact Nat.succ_pos _

theorem length_le_flatten_unsigned (bytes : List UInt8) :
    bytes.length ≤ (bytes.map fun byte => unsigned byte.toNat).flatten.length := by
  induction bytes with
  | nil => exact Nat.le_refl 0
  | cons byte rest ih =>
      have positive := length_unsigned_pos byte.toNat
      simp only [List.map_cons, List.flatten_cons, List.length_append, List.length_cons]
      omega

/-- The shorter of two arrays with the same 64 bits of length cannot be continued by as
few bytes as follow it. -/
private theorem byteArray_split_le {first second : List UInt8}
    (shorter : first.length ≤ second.length)
    (equal : byteArray first ++ rest = byteArray second ++ others)
    (shortRest : rest.length < 2 ^ 64) : first = second ∧ rest = others := by
  simp only [byteArray, array, List.length_map, List.append_assoc] at equal
  obtain ⟨-, word, tail⟩ := header_split_word 4 4 equal
  obtain ⟨more, rfl, remaining⟩ := unsigned_byte_prefixFree.flatten_split_le shorter tail
  have grown := congrArg List.length remaining
  have atLeast := length_le_flatten_unsigned more
  rw [List.length_append] at grown word
  have none : more.length = 0 := by omega
  rw [List.eq_nil_of_length_eq_zero none] at remaining ⊢
  exact ⟨(List.append_nil first).symm, remaining⟩

theorem byteArray_split {first second : List UInt8}
    (equal : byteArray first ++ rest = byteArray second ++ others)
    (shortRest : rest.length < 2 ^ 64) (shortOthers : others.length < 2 ^ 64) :
    first = second ∧ rest = others := by
  rcases Nat.le_total first.length second.length with shorter | longer
  · exact byteArray_split_le shorter equal shortRest
  · obtain ⟨same, tail⟩ := byteArray_split_le longer equal.symm shortOthers
    exact ⟨same.symm, tail.symm⟩

end Cbor

end Cosaci.Foundation
