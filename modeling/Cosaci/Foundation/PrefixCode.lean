import Cosaci.Foundation.Encoding

/-!
# Codes that delimit themselves

An encoding no code of which is an initial part of another can be read off the
front of a longer byte string.  Such encodings compose: fields written one after
the other, fixed texts in between, and rows of a known number of items delimit
themselves when their parts do.  The items of CBOR are of this kind.
-/

namespace Cosaci.Foundation

variable {α β γ : Type}

/-- No code is an initial part of another one. -/
def PrefixFree (encode : α → List UInt8) : Prop :=
  ∀ a b, encode a <+: encode b → a = b

variable {items others : List α}

namespace PrefixFree

variable {encode : α → List UInt8} {second : β → List UInt8}

/-- The front of a byte string decides the first item and what follows it. -/
theorem split (free : PrefixFree encode) {a b : α} {rest others : List UInt8}
    (equal : encode a ++ rest = encode b ++ others) : a = b ∧ rest = others := by
  have first : encode a <+: encode b ++ others := equal ▸ List.prefix_append _ _
  have same : a = b := by
    rcases List.prefix_or_prefix_of_prefix first (List.prefix_append _ _) with shorter | longer
    · exact free a b shorter
    · exact (free b a longer).symm
  subst same
  exact ⟨rfl, List.append_cancel_left equal⟩

/-- A code is prefix-free when the front of a byte string decides the item. -/
theorem of_split (decides : ∀ a b rest others,
    encode a ++ rest = encode b ++ others → a = b) : PrefixFree encode := by
  rintro a b ⟨rest, equal⟩
  exact decides a b rest [] (by rw [equal, List.append_nil])

theorem injective (free : PrefixFree encode) : Function.Injective encode := by
  intro a b equal
  exact free a b (equal ▸ List.prefix_rfl)

/-- Values that are told apart by what is encoded of them. -/
theorem comp (free : PrefixFree encode) {project : γ → α}
    (injective : Function.Injective project) : PrefixFree fun c => encode (project c) :=
  fun _ _ initial => injective (free _ _ initial)

/-- A fixed text in front. -/
theorem lead (free : PrefixFree encode) (front : List UInt8) :
    PrefixFree fun a => front ++ encode a :=
  fun a b initial => free a b ((List.prefix_append_right_inj front).mp initial)

/-- Two items one after the other. -/
theorem append (free : PrefixFree encode) (next : PrefixFree second) :
    PrefixFree fun pair : α × β => encode pair.1 ++ second pair.2 := by
  rintro ⟨a, c⟩ ⟨b, d⟩ ⟨rest, equal⟩
  rw [List.append_assoc] at equal
  obtain ⟨rfl, equal⟩ := free.split equal
  exact Prod.ext rfl (next c d ⟨rest, equal⟩)

/-- Of two rows of items the shorter one is the beginning of the other. -/
theorem flatten_split_le (free : PrefixFree encode) (shorter : items.length ≤ others.length)
    {rest following : List UInt8}
    (equal : (items.map encode).flatten ++ rest = (others.map encode).flatten ++ following) :
    ∃ more, others = items ++ more ∧ rest = (more.map encode).flatten ++ following := by
  induction items generalizing others with
  | nil => exact ⟨others, rfl, equal⟩
  | cons item items ih =>
      cases others with
      | nil => cases shorter
      | cons other others =>
          simp only [List.map_cons, List.flatten_cons, List.append_assoc] at equal
          obtain ⟨rfl, remaining⟩ := free.split equal
          obtain ⟨more, rfl, tail⟩ := ih (Nat.le_of_succ_le_succ shorter) remaining
          exact ⟨more, rfl, tail⟩

/-- Rows of equally many items are told apart by their codes. -/
theorem flatten_split (free : PrefixFree encode) (length : items.length = others.length)
    {rest following : List UInt8}
    (equal : (items.map encode).flatten ++ rest = (others.map encode).flatten ++ following) :
    items = others := by
  obtain ⟨more, rfl, -⟩ := free.flatten_split_le length.le equal
  rw [List.length_append, Nat.left_eq_add] at length
  rw [List.eq_nil_of_length_eq_zero length, List.append_nil]

/-- Rows of items none of which has an empty code are told apart by their codes. -/
theorem flatMap_injective (free : PrefixFree encode) (visible : ∀ a, encode a ≠ []) :
    Function.Injective fun items : List α => items.flatMap encode := by
  intro items others equal
  induction items generalizing others with
  | nil =>
      cases others with
      | nil => rfl
      | cons other others => exact absurd (List.append_eq_nil_iff.mp equal.symm).1 (visible other)
  | cons item items ih =>
      cases others with
      | nil => exact absurd (List.append_eq_nil_iff.mp equal).1 (visible item)
      | cons other others =>
          obtain ⟨rfl, remaining⟩ := free.split equal
          rw [ih remaining]

/-- A field of a fixed width in front, whatever it holds. -/
theorem header (free : PrefixFree encode) {front : α → List UInt8} {width : Nat}
    (fixed : ∀ a, (front a).length = width) : PrefixFree fun a => front a ++ encode a := by
  rintro a b ⟨rest, equal⟩
  rw [List.append_assoc] at equal
  exact free a b ⟨rest, (List.append_inj equal (by rw [fixed, fixed])).2⟩

/-- Texts that are ended by a byte which does not occur in them. -/
theorem terminated {code : α → List UInt8} (injective : Function.Injective code) {stop : UInt8}
    (absent : ∀ a, stop ∉ code a) : PrefixFree fun a => code a ++ [stop] := by
  have front (a : α) (more : List UInt8) :
      (code a ++ stop :: more).takeWhile (fun byte => byte ≠ stop) = code a := by
    rw [List.takeWhile_append_of_pos, List.takeWhile_cons_of_neg, List.append_nil]
    · simp only [ne_eq, not_true_eq_false, decide_false, Bool.false_eq_true, not_false_eq_true]
    · intro byte inside
      exact decide_eq_true fun same => absent a (same ▸ inside)
  rintro a b ⟨rest, equal⟩
  rw [List.append_assoc, List.singleton_append] at equal
  apply injective
  rw [← front a rest, ← front b [], equal]

/-- Byte strings of a fixed width. -/
theorem bytes (width : Nat) : PrefixFree fun value : Bytes width => value.toList := by
  rintro a b ⟨rest, equal⟩
  apply List.Vector.toList_injective
  exact (List.append_inj (equal.trans (List.append_nil _).symm) (by simp)).1

end PrefixFree

/-! ## CBOR items -/

theorem ofLittleEndian_littleEndian {width value : Nat} (fits : value < 256 ^ width) :
    ofLittleEndian (littleEndian width value) = value := by
  induction width generalizing value with
  | zero =>
      rw [Nat.pow_zero, Nat.lt_one_iff] at fits
      rw [fits]
      rfl
  | succ width ih =>
      have smaller : value / 256 < 256 ^ width := by
        rw [Nat.div_lt_iff_lt_mul (by decide), ← Nat.pow_succ]
        exact fits
      rw [littleEndian, ofLittleEndian, ih smaller, UInt8.toNat_ofNat']
      omega

/-- The number with the given bytes, most significant byte first. -/
def ofBigEndian (bytes : List UInt8) : Nat :=
  ofLittleEndian bytes.reverse

theorem ofBigEndian_bigEndian {width value : Nat} (fits : value < 256 ^ width) :
    ofBigEndian (bigEndian width value) = value := by
  rw [ofBigEndian, bigEndian, List.reverse_reverse, ofLittleEndian_littleEndian fits]

@[simp] theorem length_bigEndian (width value : Nat) :
    (bigEndian width value).length = width := by
  rw [bigEndian, List.length_reverse, length_littleEndian]

namespace Cbor

/-- The argument of the header at the front of a byte string. -/
def readArgument : List UInt8 → Option Nat
  | [] => none
  | initial :: rest =>
      match initial.toNat % 32 with
      | 24 => some (ofBigEndian (rest.take 1))
      | 25 => some (ofBigEndian (rest.take 2))
      | 26 => some (ofBigEndian (rest.take 4))
      | 27 => some (ofBigEndian (rest.take 8))
      | small => some small

private theorem toNat_initial {major information : Nat} (fits : information < 32) :
    (UInt8.ofNat (32 * major + information)).toNat % 32 = information := by
  rw [UInt8.toNat_ofNat']
  omega

private theorem ofBigEndian_take {width argument : Nat} (fits : argument < 256 ^ width)
    (rest : List UInt8) :
    ofBigEndian ((bigEndian width argument ++ rest).take width) = argument := by
  rw [List.take_append_of_le_length (length_bigEndian width argument).ge,
    List.take_of_length_le (length_bigEndian width argument).le, ofBigEndian_bigEndian fits]

theorem readArgument_header (major : Nat) {argument : Nat} (fits : argument < 2 ^ 64)
    (rest : List UInt8) :
    readArgument (header major argument ++ rest) = some argument := by
  unfold header
  split
  · next small =>
      rw [List.singleton_append, readArgument, toNat_initial (by omega)]
      split <;> first | omega | rfl
  · split
    · next one =>
        rw [List.cons_append, readArgument, toNat_initial (by decide)]
        exact congrArg some (ofBigEndian_take one rest)
    · split
      · next two =>
          rw [List.cons_append, readArgument, toNat_initial (by decide)]
          exact congrArg some (ofBigEndian_take two rest)
      · split
        · next four =>
            rw [List.cons_append, readArgument, toNat_initial (by decide)]
            exact congrArg some (ofBigEndian_take four rest)
        · rw [List.cons_append, readArgument, toNat_initial (by decide)]
          exact congrArg some (ofBigEndian_take (fits.trans_eq (by decide)) rest)

/-- Headers of one type tell their arguments. -/
theorem header_split {major argument other : Nat} (fits : argument < 2 ^ 64)
    (fits' : other < 2 ^ 64) {rest others : List UInt8}
    (equal : header major argument ++ rest = header major other ++ others) :
    argument = other := by
  have read := readArgument_header major fits rest
  rw [equal, readArgument_header major fits' others] at read
  exact (Option.some.inj read).symm

theorem unsigned_prefixFree {project : α → Nat} (injective : Function.Injective project)
    (bounded : ∀ a, project a < 2 ^ 64) : PrefixFree fun a => unsigned (project a) := by
  apply PrefixFree.of_split
  intro a b rest others equal
  exact injective (header_split (bounded a) (bounded b) equal)

theorem unsigned_byte_prefixFree : PrefixFree fun byte : UInt8 => unsigned byte.toNat :=
  unsigned_prefixFree (fun _ _ same => UInt8.toNat_inj.mp same)
    fun byte => byte.toNat_lt.trans (by decide)

theorem uint32_prefixFree : PrefixFree fun value : UInt32 => unsigned value.toNat :=
  unsigned_prefixFree (fun _ _ same => UInt32.toNat_inj.mp same)
    fun value => value.toNat_lt.trans (by decide)

theorem uint64_prefixFree : PrefixFree fun value : UInt64 => unsigned value.toNat :=
  unsigned_prefixFree (fun _ _ same => UInt64.toNat_inj.mp same) UInt64.toNat_lt

/-- Byte strings of a known length delimit themselves. -/
theorem byteArray_prefixFree (width : Nat) :
    PrefixFree fun bytes : Bytes width => byteArray bytes.toList := by
  apply PrefixFree.of_split
  intro a b rest others equal
  have length : a.toList.length = b.toList.length := by
    rw [List.Vector.toList_length, List.Vector.toList_length]
  simp only [byteArray, array, List.length_map, length, List.append_assoc] at equal
  exact List.Vector.toList_injective
    (unsigned_byte_prefixFree.flatten_split length (List.append_cancel_left equal))

/-- Arrays of equally many items are told apart by their codes. -/
theorem array_inj {encode : α → List UInt8} (free : PrefixFree encode)
    (length : items.length = others.length)
    (equal : array (items.map encode) = array (others.map encode)) : items = others := by
  simp only [array, List.length_map, length] at equal
  have body := List.append_cancel_left equal
  exact free.flatten_split length (congrArg (· ++ []) body)

end Cbor

end Cosaci.Foundation
