import Cosaci.Foundation.Encoding

/-!
# Sizes of CBOR items

The exact number of bytes that an item takes.  A byte written as an element of an
array takes one byte when it is below 24 and two otherwise.
-/

namespace Cosaci.Foundation.Cbor

/-- The size of a header with the given argument. -/
def headerSize (argument : Nat) : Nat :=
  if argument < 24 then 1
  else if argument < 256 then 2
  else if argument < 65536 then 3
  else if argument < 4294967296 then 5
  else 9

/-- The size of a text of the given number of bytes. -/
def textSize (text : String) : Nat :=
  headerSize (utf8 text.toList).length + (utf8 text.toList).length

/-- The size of a byte string that is written as an array of integers. -/
def byteArraySize (bytes : List UInt8) : Nat :=
  headerSize bytes.length + (bytes.map fun byte => headerSize byte.toNat).sum

theorem length_header (major argument : Nat) :
    (header major argument).length = headerSize argument := by
  unfold header headerSize
  split
  · rfl
  · split
    · simp [bigEndian]
    · split
      · simp [bigEndian]
      · split <;> simp [bigEndian]

theorem length_unsigned (value : Nat) : (unsigned value).length = headerSize value :=
  length_header 0 value

theorem length_text (value : String) : (text value).length = textSize value := by
  rw [text, List.length_append, length_header, textSize]

theorem length_array (items : List (List UInt8)) :
    (array items).length = headerSize items.length + (items.map List.length).sum := by
  rw [array, List.length_append, length_header, List.length_flatten]

theorem length_byteArray (bytes : List UInt8) :
    (byteArray bytes).length = byteArraySize bytes := by
  simp only [byteArray, length_array, List.length_map, List.map_map, byteArraySize,
    Function.comp_def, length_unsigned]

theorem length_record (fields : List (String × List UInt8)) :
    (record fields).length = headerSize fields.length +
      (fields.map fun field => textSize field.1 + field.2.length).sum := by
  rw [record, List.length_append, length_header, List.length_flatMap]
  simp only [List.length_append, length_text]

/-- Equal bytes that do not fit into a header take two bytes each. -/
theorem byteArraySize_replicate (count : Nat) {byte : UInt8} (large : 24 ≤ byte.toNat) :
    byteArraySize (List.replicate count byte) = headerSize count + 2 * count := by
  have two : headerSize byte.toNat = 2 := by
    rw [headerSize, if_neg (Nat.not_lt.mpr large), if_pos byte.toNat_lt]
  rw [byteArraySize, List.length_replicate, List.map_replicate, List.sum_replicate, two,
    smul_eq_mul, Nat.mul_comm]

end Cosaci.Foundation.Cbor
