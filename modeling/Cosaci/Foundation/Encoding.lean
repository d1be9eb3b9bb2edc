import Mathlib.Data.Vector.Basic
import Mathlib.Tactic

/-!
# Byte strings and their encodings

Fixed-width byte strings, the two byte orders, files of fixed-width records, and
the writer side of CBOR in its preferred form: definite lengths and the shortest
header for every argument.  In CBOR a record is written as a map with text keys in
declaration order, a byte array as an array of integers.
-/

namespace Cosaci.Foundation

/-- A byte string of fixed length. -/
abbrev Bytes (width : Nat) := List.Vector UInt8 width

/-- A byte sequence known to have the right length. -/
def ofBytes {width : Nat} (bytes : List UInt8) (full : bytes.length = width) : Bytes width :=
  ⟨bytes, full⟩

variable {width : Nat}

@[simp] theorem toList_ofBytes (bytes : List UInt8) (full : bytes.length = width) :
    (ofBytes bytes full).toList = bytes := rfl

/-- The low `width` bytes of a number, least significant byte first. -/
def littleEndian : Nat → Nat → List UInt8
  | 0, _ => []
  | width + 1, value => UInt8.ofNat value :: littleEndian width (value / 256)

/-- The number with the given bytes, least significant byte first. -/
def ofLittleEndian : List UInt8 → Nat
  | [] => 0
  | byte :: rest => byte.toNat + 256 * ofLittleEndian rest

/-- The low `width` bytes of a number, most significant byte first. -/
def bigEndian (width value : Nat) : List UInt8 :=
  (littleEndian width value).reverse

@[simp] theorem length_littleEndian (width value : Nat) :
    (littleEndian width value).length = width := by
  induction width generalizing value with
  | zero => rfl
  | succ width ih => simp [littleEndian, ih]

/-! ## Files of fixed-width records -/

/-- The first `count` records of a byte sequence. -/
def takeRecords (width : Nat) : Nat → List UInt8 → List (Bytes width)
  | 0, _ => []
  | count + 1, bytes =>
      if full : (bytes.take width).length = width then
        ofBytes (bytes.take width) full :: takeRecords width count (bytes.drop width)
      else
        []

/-- Cut a byte sequence into records; a partial last record is an error. -/
def readRecords (width : Nat) (bytes : List UInt8) : Option (List (Bytes width)) :=
  if bytes.length % width = 0 then
    some (takeRecords width (bytes.length / width) bytes)
  else
    none

/-- The file made of the given records. -/
def joinRecords {width : Nat} (records : List (Bytes width)) : List UInt8 :=
  records.flatMap List.Vector.toList

@[simp] theorem joinRecords_append (first second : List (Bytes width)) :
    joinRecords (first ++ second) = joinRecords first ++ joinRecords second :=
  List.flatMap_append

@[simp] theorem length_joinRecords (records : List (Bytes width)) :
    (joinRecords records).length = width * records.length := by
  induction records with
  | nil => rfl
  | cons record rest ih =>
      simp only [joinRecords, List.flatMap_cons, List.length_append, List.length_cons,
        List.Vector.toList_length] at ih ⊢
      rw [ih, Nat.mul_succ, Nat.add_comm]

private theorem takeRecords_joinRecords (records : List (Bytes width)) :
    takeRecords width records.length (joinRecords records) = records := by
  induction records with
  | nil => rfl
  | cons record rest ih =>
      have first : (joinRecords (record :: rest)).take width = record.toList := by
        simp [joinRecords]
      have others : (joinRecords (record :: rest)).drop width = joinRecords rest := by
        simp [joinRecords]
      simp only [List.length_cons, takeRecords, first, others, List.Vector.toList_length,
        ↓reduceDIte, ih, List.cons.injEq, and_true]
      exact List.Vector.toList_injective (toList_ofBytes _ _)

private theorem joinRecords_takeRecords {width count : Nat} {bytes : List UInt8}
    (exact : bytes.length = width * count) :
    joinRecords (takeRecords width count bytes) = bytes := by
  induction count generalizing bytes with
  | zero =>
      rw [Nat.mul_zero] at exact
      rw [List.eq_nil_of_length_eq_zero exact]
      rfl
  | succ count ih =>
      rw [Nat.mul_succ] at exact
      have full : (bytes.take width).length = width := by
        rw [List.length_take]
        omega
      have rest : joinRecords (takeRecords width count (bytes.drop width)) =
          bytes.drop width := by
        apply ih
        rw [List.length_drop]
        omega
      simp only [takeRecords, full, ↓reduceDIte]
      simp only [joinRecords, List.flatMap_cons, toList_ofBytes] at rest ⊢
      rw [rest]
      exact List.take_append_drop width bytes

/-- A file reads back as the given records exactly when it is made of them. -/
theorem readRecords_eq_some_iff (positive : 0 < width) {bytes : List UInt8}
    {records : List (Bytes width)} :
    readRecords width bytes = some records ↔ bytes = joinRecords records := by
  constructor
  · intro read
    unfold readRecords at read
    split at read
    · next whole =>
        cases read
        have exact : bytes.length = width * (bytes.length / width) :=
          (Nat.mul_div_cancel' (Nat.dvd_of_mod_eq_zero whole)).symm
        exact (joinRecords_takeRecords exact).symm
    · cases read
  · intro made
    subst made
    simp only [readRecords, length_joinRecords, Nat.mul_mod_right, ↓reduceIte,
      Nat.mul_div_cancel_left _ positive, takeRecords_joinRecords]

/-! ## Texts and CBOR -/

/-- The UTF-8 bytes of a text. -/
def utf8 (characters : List Char) : List UInt8 :=
  characters.flatMap String.utf8EncodeChar

namespace Cbor

/-- The header of an item: its major type and the shortest form of its argument. -/
def header (major argument : Nat) : List UInt8 :=
  if argument < 24 then
    [UInt8.ofNat (32 * major + argument)]
  else if argument < 256 then
    UInt8.ofNat (32 * major + 24) :: bigEndian 1 argument
  else if argument < 65536 then
    UInt8.ofNat (32 * major + 25) :: bigEndian 2 argument
  else if argument < 4294967296 then
    UInt8.ofNat (32 * major + 26) :: bigEndian 4 argument
  else
    UInt8.ofNat (32 * major + 27) :: bigEndian 8 argument

def unsigned (value : Nat) : List UInt8 :=
  header 0 value

/-- A signed integer; a negative one stores its distance below minus one. -/
def signed : Int → List UInt8
  | .ofNat value => header 0 value
  | .negSucc value => header 1 value

/-- An integer of up to 128 bits; one that does not fit 64 bits is a bignum
without leading zero bytes. -/
def wide (value : Nat) : List UInt8 :=
  if value < 2 ^ 64 then
    unsigned value
  else
    let digits := (bigEndian 16 value).dropWhile fun byte => byte == 0
    header 6 2 ++ header 2 digits.length ++ digits

def text (value : String) : List UInt8 :=
  header 3 (utf8 value.toList).length ++ utf8 value.toList

/-- An array of items that are already encoded. -/
def array (items : List (List UInt8)) : List UInt8 :=
  header 4 items.length ++ items.flatten

/-- A sequence of bytes, written as an array of integers. -/
def byteArray (bytes : List UInt8) : List UInt8 :=
  array (bytes.map fun byte => unsigned byte.toNat)

/-- A record: its field names and encoded values. -/
def record (fields : List (String × List UInt8)) : List UInt8 :=
  header 5 fields.length ++ fields.flatMap fun field => text field.1 ++ field.2

/-! Upper bounds for the lengths, for messages whose size is bounded by their type. -/

theorem length_header_le (major argument : Nat) : (header major argument).length ≤ 9 := by
  unfold header
  split
  · simp
  · split
    · simp [bigEndian]
    · split
      · simp [bigEndian]
      · split
        · simp [bigEndian]
        · simp [bigEndian]

theorem length_unsigned_le (value : Nat) : (unsigned value).length ≤ 9 :=
  length_header_le 0 value

theorem length_flatten_le {items : List (List UInt8)} {bound : Nat}
    (each : ∀ item ∈ items, item.length ≤ bound) :
    items.flatten.length ≤ bound * items.length := by
  rw [List.length_flatten, Nat.mul_comm]
  have total := List.sum_le_card_nsmul (items.map List.length) bound (by simpa using each)
  simpa using total

theorem length_byteArray_le (bytes : List UInt8) :
    (byteArray bytes).length ≤ 9 + 9 * bytes.length := by
  have items : ∀ item ∈ bytes.map (fun byte => unsigned byte.toNat), item.length ≤ 9 := by
    intro item member
    rcases List.mem_map.mp member with ⟨byte, _, rfl⟩
    exact length_unsigned_le _
  have body := length_flatten_le items
  rw [List.length_map] at body
  rw [byteArray, array, List.length_append]
  exact Nat.add_le_add (length_header_le _ _) body

theorem length_record_le (fields : List (String × List UInt8)) :
    (record fields).length ≤
      9 + (fields.map fun field => (text field.1).length + field.2.length).sum := by
  rw [record, List.length_append, List.length_flatMap]
  simp only [List.length_append]
  exact Nat.add_le_add_right (length_header_le _ _) _

end Cbor

end Cosaci.Foundation
