import Cosaci.Foundation.CborValues

/-!
# Shapes of CBOR values

How the values of a type travel: what is written for a value, and how a value is taken
from an item.  A shape carries the law that what is written is read back.  There is one
shape for each way of building types: numbers, texts, sequences, optional values, records
whose fields may come in any order, and enumerations, where a variant is its name or a
record of one entry from its name to its content.

Lengths are written with at most 64 bits, so the law speaks about encodings of less than
`2 ^ 64` bytes.
-/

namespace Cosaci.Foundation.Cbor

namespace Item

variable {α : Type}

/-! ## Readers -/

/-- A list, from an array.  The elements of a byte string are its bytes, so of other
values only the empty list is read from one. -/
def asList (read : Item → Option α) (item : Item) : Option (List α) :=
  let item := item.untagged
  if item.head.major = 4 then item.children.mapM read
  else if item.head.major = 2 ∧ item.stringBytes = [] then some []
  else none

/-- A value that may be missing: null and undefined stand for none. -/
def asOption (read : Item → Option α) (item : Item) : Option (Option α) :=
  if item.head.major = 7 ∧ (item.head.argument = 22 ∨ item.head.argument = 23) ∧
      item.head.form.width ≤ 1 then
    some none
  else
    (read item).map some

def asString (item : Item) : Option String :=
  (item.asText.bind utf8Decode).map String.ofList

def asEntry (read : Item → Option α) (entry : Item × Item) : Option (String × α) := do
  return (← entry.1.asString, ← read entry.2)

/-- The entries of a map from texts. -/
def asEntries (read : Item → Option α) (item : Item) : Option (List (String × α)) :=
  let item := item.untagged
  if item.head.major = 5 then (pairs item.children).mapM (asEntry read) else none

/-- The name of a variant, and its content if it comes in a record of one entry. -/
def variant (item : Item) : Option (List UInt8 × Option Item) :=
  let item := item.untagged
  if item.head.major = 3 then
    item.identifier.map fun name => (name, none)
  else if item.head.major = 5 ∧ item.head.form ≠ .more then
    match item.children with
    | [key, content] => key.identifier.map fun name => (name, some content)
    | _ => none
  else
    none

theorem untagged_of_major {item : Item} (plain : item.head.major ≠ 6) :
    item.untagged = item := by
  unfold untagged
  split
  · exact if_neg plain
  · rfl

theorem asList_array (read : Item → Option α) (items : List Item) :
    (array items).asList read = items.mapM read := by
  have plain : (array items).head.major = 4 := rfl
  rw [asList, untagged_of_major (by rw [plain]; decide)]
  exact if_pos plain

theorem pairs_entries (entries : List (List UInt8 × Item)) :
    pairs (entries.flatMap fun entry => [text entry.1, entry.2]) =
      entries.map fun entry => (text entry.1, entry.2) := by
  induction entries with
  | nil => rfl
  | cons entry rest ih => rw [List.flatMap_cons, List.map_cons, ← ih]; rfl

theorem asEntries_record (read : Item → Option α) (entries : List (List UInt8 × Item)) :
    (record entries).asEntries read =
      (entries.map fun entry => (text entry.1, entry.2)).mapM (asEntry read) := by
  have plain : (record entries).head.major = 5 := rfl
  rw [asEntries, untagged_of_major (by rw [plain]; decide), ← pairs_entries]
  exact if_pos plain

theorem identifier_text (characters : List UInt8) :
    (text characters).identifier = some characters := by
  have plain : (text characters).head.major = 3 := rfl
  rw [identifier, untagged_of_major (by rw [plain]; decide)]
  exact if_pos ⟨Or.inr plain, Form.shortest_ne_more _⟩

theorem fields_entries (entries : List (List UInt8 × Item)) :
    (record entries).fields = some entries := by
  have plain : (record entries).head.major = 5 := rfl
  have read : (entries.map fun entry => (text entry.1, entry.2)).mapM
      (fun entry => entry.1.identifier.map fun name => (name, entry.2)) = some entries := by
    simp only [mapM_eq_some_iff, List.forall₂_map_left_iff, List.forall₂_same, identifier_text,
      Option.map_some, implies_true]
  rw [fields, untagged_of_major (by rw [plain]; decide), ← read, ← pairs_entries]
  exact if_pos plain

theorem variant_text (name : List UInt8) : (text name).variant = some (name, none) := by
  have plain : (text name).head.major = 3 := rfl
  rw [variant, untagged_of_major (by rw [plain]; decide)]
  simp only [plain, identifier_text, if_true, Option.map_some]

theorem variant_record (name : List UInt8) (content : Item) :
    (record [(name, content)]).variant = some (name, some content) := by
  have plain : (record [(name, content)]).head.major = 5 := rfl
  rw [variant, untagged_of_major (by rw [plain]; decide)]
  simp [record, head, children, Head.short, Form.shortest_ne_more, identifier_text]

theorem word_of_bounds {value : Int} (low : -2 ^ 64 ≤ value) (high : value < 2 ^ 64) :
    Word value := by
  cases value with
  | ofNat value =>
      rw [Int.ofNat_eq_natCast] at high
      simp only [Word]
      omega
  | negSucc value =>
      simp only [Word]
      omega

end Item

/-! ## Codes -/

/-- What is written for a value: the bytes, and the item that they encode. -/
structure Code where
  bytes : List UInt8
  item : Item

namespace Code

/-- Short enough for every length inside it to be written. -/
def Short (code : Code) : Prop :=
  code.bytes.length < 2 ^ 64

/-- The bytes encode the item, and every reader that follows the nesting finds it. -/
structure Sent (code : Code) (nesting : Nat) : Prop where
  bytes : code.item.bytes = code.bytes
  readable : ∀ depth, nesting ≤ depth → Readable (readItem depth) Item.bytes code.item

theorem Sent.mono {code : Code} {nesting more : Nat} (sent : code.Sent nesting)
    (le : nesting ≤ more) : code.Sent more where
  bytes := sent.bytes
  readable depth deep := sent.readable depth (le.trans deep)

/-- An item of definite length, from the items inside it. -/
theorem sent_node {major : Fin 8} {count nesting : Nat} (fits : count < 2 ^ 64)
    {content bytes : List UInt8} {children : List Item}
    (definite : Item.Definite (.short major (UInt64.ofNat count)) content children)
    (consistent : Item.consistent (.short major (UInt64.ofNat count)) content children = true)
    (written : bytes = header major count ++ content ++ children.flatMap Item.bytes)
    (readable : ∀ child ∈ children, ∀ depth, nesting ≤ depth →
      Readable (readItem depth) Item.bytes child) :
    Sent ⟨bytes, .node (.short major (UInt64.ofNat count)) content children⟩ (nesting + 1) where
  bytes := by
    have short : (Head.short major (UInt64.ofNat count)).bytes = header major count := by
      rw [Head.bytes_of_shortest rfl]
      simp only [Head.short, UInt64.toNat_ofNat_of_lt' fits]
    rw [definite.bytes, short, written]
  readable := by
    intro depth deep
    obtain ⟨depth, rfl⟩ := Nat.exists_eq_add_of_le' (Nat.le_of_add_left_le deep)
    exact readable_node definite consistent fun child inside =>
      readable child inside depth (Nat.le_of_succ_le_succ deep)

def integer (value : Int) : Code :=
  ⟨signed value, .integer value⟩

def text (value : String) : Code :=
  ⟨Cbor.text value, .text (utf8 value.toList)⟩

def null : Code :=
  ⟨header 7 22, .node (.short 7 22) [] []⟩

def array (codes : List Code) : Code :=
  ⟨Cbor.array (codes.map bytes), .array (codes.map item)⟩

def record (entries : List (String × Code)) : Code :=
  ⟨Cbor.record (entries.map fun entry => (entry.1, entry.2.bytes)),
    .record (entries.map fun entry => (utf8 entry.1.toList, entry.2.item))⟩

theorem sent_integer {value : Int} (fits : Item.Word value) : (integer value).Sent 1 := by
  cases value with
  | ofNat value =>
      refine sent_node fits ?_ ?_ ?_ (by simp)
      · exact Or.inr ⟨by simp [Head.layout, Head.short, Form.shortest_ne_more], rfl⟩
      · simp [Item.consistent, Head.short]
      · simp [signed]
  | negSucc value =>
      refine sent_node fits ?_ ?_ ?_ (by simp)
      · exact Or.inr ⟨by simp [Head.layout, Head.short, Form.shortest_ne_more], rfl⟩
      · simp [Item.consistent, Head.short]
      · simp [signed]

theorem length_utf8_le (value : String) :
    (utf8 value.toList).length ≤ (text value).bytes.length := by
  simp only [text, Cbor.text, List.length_append]
  exact Nat.le_add_left _ _

theorem sent_text {value : String} (short : (text value).Short) : (text value).Sent 1 := by
  have fits := (length_utf8_le value).trans_lt short
  refine sent_node fits ?_ ?_ ?_ (by simp)
  · refine Or.inl ⟨?_, rfl⟩
    simp [Head.layout, Head.short, Form.shortest_ne_more, UInt64.toNat_ofNat_of_lt' fits]
  · simp [Item.consistent, Head.short]
  · simp [Cbor.text]

theorem sent_null : null.Sent 1 := by
  refine sent_node (by decide : 22 < 2 ^ 64) ?_ ?_ ?_ (by simp)
  · exact Or.inr ⟨by decide, rfl⟩
  · decide
  · simp

theorem visible_header (major argument : Nat) : header major argument ≠ [] := by
  unfold header
  repeat' split
  all_goals exact List.cons_ne_nil _ _

variable {codes : List Code}

theorem length_le_array {code : Code} (member : code ∈ codes) :
    code.bytes.length ≤ (array codes).bytes.length := by
  have inside : code.bytes.length ≤ (codes.map bytes).flatten.length :=
    (List.sublist_flatten_of_mem (List.mem_map_of_mem member)).length_le
  simp only [array, Cbor.array, List.length_append]
  exact inside.trans (Nat.le_add_left _ _)

theorem count_le_array (visible : ∀ code ∈ codes, code.bytes ≠ []) :
    codes.length ≤ (array codes).bytes.length := by
  have each : codes.length ≤ (codes.map bytes).flatten.length := by
    rw [List.length_flatten, List.map_map]
    have counted := List.card_nsmul_le_sum (codes.map (List.length ∘ bytes)) 1 (by
      intro length member
      obtain ⟨code, inside, rfl⟩ := List.mem_map.mp member
      exact List.length_pos_iff.mpr (visible code inside))
    simpa using counted
  simp only [array, Cbor.array, List.length_append]
  exact each.trans (Nat.le_add_left _ _)

private theorem definite_array {items : List Item} (fits : items.length < 2 ^ 64) :
    Item.Definite (.short 4 (UInt64.ofNat items.length)) [] items := by
  refine Or.inr ⟨?_, rfl⟩
  simp [Head.layout, Head.short, Form.shortest_ne_more, UInt64.toNat_ofNat_of_lt' fits]

theorem sent_array {nesting : Nat} (short : (array codes).Short)
    (visible : ∀ code ∈ codes, code.bytes ≠ []) (sent : ∀ code ∈ codes, code.Sent nesting) :
    (array codes).Sent (nesting + 1) := by
  have fits : (codes.map item).length < 2 ^ 64 := by
    rw [List.length_map]
    exact (count_le_array visible).trans_lt short
  refine sent_node fits (definite_array fits) ?_ ?_ ?_
  · simp [Item.consistent, Head.short]
  · have same : codes.map bytes = codes.map (Item.bytes ∘ item) :=
      List.map_congr_left fun code inside => (sent code inside).bytes.symm
    simp [Cbor.array, same, List.flatMap_def]
  · intro child inside
    obtain ⟨code, member, rfl⟩ := List.mem_map.mp inside
    exact (sent code member).readable

section Records

variable {entries : List (String × Code)}

/-- The bytes of the names and values of a record, one after the other. -/
private theorem length_record (entries : List (String × Code)) :
    (record entries).bytes.length = (header 5 entries.length).length +
      (entries.map fun entry => (text entry.1).bytes.length + entry.2.bytes.length).sum := by
  simp only [record, Cbor.record, text, List.length_append, List.length_flatMap, List.map_map,
    List.length_map]
  rfl

theorem length_le_record {entry : String × Code} (member : entry ∈ entries) :
    (text entry.1).bytes.length + entry.2.bytes.length ≤ (record entries).bytes.length := by
  rw [length_record]
  exact (List.single_le_sum (by simp) _ (List.mem_map_of_mem (f := fun entry : String × Code =>
    (text entry.1).bytes.length + entry.2.bytes.length) member)).trans (Nat.le_add_left _ _)

theorem count_le_record : entries.length ≤ (record entries).bytes.length := by
  rw [length_record]
  have counted := List.card_nsmul_le_sum (entries.map fun entry =>
    (text entry.1).bytes.length + entry.2.bytes.length) 1 (by
      intro length member
      obtain ⟨entry, -, rfl⟩ := List.mem_map.mp member
      have visible : 0 < (text entry.1).bytes.length := by
        rw [List.length_pos_iff, text, Cbor.text]
        exact List.append_ne_nil_of_left_ne_nil (visible_header _ _) _
      omega)
  simp only [List.length_map, smul_eq_mul, Nat.mul_one] at counted
  omega

theorem Short.entry (short : (record entries).Short) {entry : String × Code}
    (member : entry ∈ entries) : (text entry.1).Short ∧ entry.2.Short := by
  have length := length_le_record member
  simp only [Short] at short ⊢
  omega

private theorem length_children (entries : List (List UInt8 × Item)) :
    (entries.flatMap fun entry => [Item.text entry.1, entry.2]).length = 2 * entries.length := by
  simp [List.length_flatMap, Nat.mul_comm]

private theorem definite_record {entries : List (List UInt8 × Item)}
    (fits : entries.length < 2 ^ 64) :
    Item.Definite (.short 5 (UInt64.ofNat entries.length)) []
      (entries.flatMap fun entry => [Item.text entry.1, entry.2]) := by
  refine Or.inr ⟨?_, rfl⟩
  simp [Head.layout, Head.short, Form.shortest_ne_more, UInt64.toNat_ofNat_of_lt' fits,
    Nat.mul_comm]

theorem sent_record {nesting : Nat} (short : (record entries).Short)
    (sent : ∀ entry ∈ entries, entry.2.Sent (nesting + 1)) :
    (record entries).Sent (nesting + 2) := by
  have fits : (entries.map fun entry => (utf8 entry.1.toList, entry.2.item)).length < 2 ^ 64 := by
    rw [List.length_map]
    exact count_le_record.trans_lt short
  refine sent_node fits (definite_record fits) ?_ ?_ ?_
  · simp only [Item.consistent, Head.short, length_children]
    simp
  · have same : ∀ entry ∈ entries, Cbor.text entry.1 ++ entry.2.bytes =
        [Item.text (utf8 entry.1.toList), entry.2.item].flatMap Item.bytes := by
      intro entry member
      have name := (sent_text (short.entry member).1).bytes
      simp only [List.flatMap_cons, List.flatMap_nil, List.append_nil, (sent entry member).bytes]
      exact congrArg (· ++ _) name.symm
    simp only [Cbor.record, List.length_map, List.append_nil, List.flatMap_map,
      List.flatMap_assoc]
    exact congrArg _ (List.flatMap_congr same)
  · intro child inside
    obtain ⟨written, member, found⟩ := List.mem_flatMap.mp inside
    obtain ⟨entry, listed, rfl⟩ := List.mem_map.mp member
    rcases List.mem_cons.mp found with rfl | found
    · exact ((sent_text (short.entry listed).1).mono (Nat.le_add_left 1 nesting)).readable
    · rw [List.mem_singleton.mp found]
      exact (sent entry listed).readable

end Records

end Code

/-! ## Shapes -/

/-- How the values of a type are written and read. -/
structure Shape (α : Type) where
  write : α → Code
  read : Item → Option α
  /-- The values of the type that is written, where the model has more. -/
  Valid : α → Prop
  /-- How deep the items are nested. -/
  nesting : Nat
  visible : ∀ value, (write value).bytes ≠ []
  sent : ∀ value, Valid value → (write value).Short → (write value).Sent nesting
  read_write : ∀ value, Valid value → (write value).Short →
    read (write value).item = some value

namespace Shape

variable {α β : Type}

/-- Values of one type that stand for those of another. -/
def convert (shape : Shape α) (out : β → α) (back : α → β)
    (inverse : ∀ value, back (out value) = value) : Shape β where
  write value := shape.write (out value)
  read item := (shape.read item).map back
  Valid value := shape.Valid (out value)
  nesting := shape.nesting
  visible value := shape.visible (out value)
  sent value := shape.sent (out value)
  read_write value valid short := by
    rw [shape.read_write _ valid short, Option.map_some, inverse]

/-- A shape for every value of the model. -/
def total (shape : Shape α) (valid : ∀ value, shape.Valid value) : Shape α where
  write := shape.write
  read := shape.read
  Valid _ := True
  nesting := shape.nesting
  visible := shape.visible
  sent value _ := shape.sent value (valid value)
  read_write value _ := shape.read_write value (valid value)

/-- Integers of a range. -/
def integer (low high : Int) (bounded : -2 ^ 64 ≤ low ∧ high ≤ 2 ^ 64) : Shape Int where
  write := Code.integer
  read := Item.asIntWithin low high
  Valid value := low ≤ value ∧ value < high
  nesting := 1
  visible value := by
    cases value <;> exact Code.visible_header _ _
  sent _ valid _ := Code.sent_integer
    (Item.word_of_bounds (bounded.1.trans valid.1) (valid.2.trans_le bounded.2))
  read_write _ valid _ := Item.asIntWithin_integer
    (Item.word_of_bounds (bounded.1.trans valid.1) (valid.2.trans_le bounded.2)) valid.1 valid.2

/-- Unsigned integers of at most 64 bits, as numbers. -/
def natural (width : Nat) (bounded : width ≤ 64) : Shape Nat where
  write value := Code.integer value
  read item := (item.asIntWithin 0 (2 ^ width)).map Int.toNat
  Valid value := value < 2 ^ width
  nesting := 1
  visible _ := Code.visible_header _ _
  sent value valid _ := Code.sent_integer
    (show value < 2 ^ 64 from valid.trans_le (Nat.pow_le_pow_right (by decide) bounded))
  read_write value valid _ := by
    have fits : Item.Word value :=
      show value < 2 ^ 64 from valid.trans_le (Nat.pow_le_pow_right (by decide) bounded)
    rw [Code.integer, Item.asIntWithin_integer fits (by omega) (by exact_mod_cast valid)]
    rfl

def uint8 : Shape UInt8 :=
  ((natural 8 (by decide)).convert UInt8.toNat UInt8.ofNat fun _ => UInt8.ofNat_toNat).total
    UInt8.toNat_lt

def uint16 : Shape UInt16 :=
  ((natural 16 (by decide)).convert UInt16.toNat UInt16.ofNat fun _ => UInt16.ofNat_toNat).total
    UInt16.toNat_lt

def uint32 : Shape UInt32 :=
  ((natural 32 (by decide)).convert UInt32.toNat UInt32.ofNat fun _ => UInt32.ofNat_toNat).total
    UInt32.toNat_lt

def uint64 : Shape UInt64 :=
  ((natural 64 (by decide)).convert UInt64.toNat UInt64.ofNat fun _ => UInt64.ofNat_toNat).total
    UInt64.toNat_lt

def int64 : Shape Int64 :=
  ((integer (-2 ^ 63) (2 ^ 63) (by decide)).convert Int64.toInt Int64.ofInt
    fun _ => Int64.ofInt_toInt _).total fun value => ⟨value.le_toInt, value.toInt_lt⟩

def text : Shape String where
  write := Code.text
  read := Item.asString
  Valid _ := True
  nesting := 1
  visible _ := List.append_ne_nil_of_left_ne_nil (Code.visible_header _ _) _
  sent _ _ short := Code.sent_text short
  read_write value _ short := by
    have fits := (Code.length_utf8_le value).trans_lt short
    have written := Item.written_text 0 (by rw [utf8Decode_utf8]; rfl) fits
    rw [Code.text, Item.asString, Item.asText_text written, Option.bind_some, utf8Decode_utf8,
      Option.map_some, String.ofList_toList]

def list (shape : Shape α) : Shape (List α) where
  write values := .array (values.map shape.write)
  read := Item.asList shape.read
  Valid values := ∀ value ∈ values, shape.Valid value
  nesting := shape.nesting + 1
  visible _ := List.append_ne_nil_of_left_ne_nil (Code.visible_header _ _) _
  sent values valid short := by
    apply Code.sent_array short
    · intro code member
      obtain ⟨value, -, rfl⟩ := List.mem_map.mp member
      exact shape.visible value
    · intro code member
      have small := (Code.length_le_array member).trans_lt short
      obtain ⟨value, inside, rfl⟩ := List.mem_map.mp member
      exact shape.sent value (valid value inside) small
  read_write values valid short := by
    have read : (values.map fun value => (shape.write value).item).mapM shape.read =
        some values := by
      rw [Item.mapM_eq_some_iff, List.forall₂_map_left_iff, List.forall₂_same]
      intro value inside
      exact shape.read_write value (valid value inside)
        ((Code.length_le_array (List.mem_map_of_mem inside)).trans_lt short)
    rw [← read, Code.array, Item.asList_array, List.map_map]
    rfl

/-- A sequence of bytes, written as an array of integers. -/
def bytes : Shape (List UInt8) where
  write values := .array (values.map fun byte => .integer byte.toNat)
  read := Item.asBytes
  Valid _ := True
  nesting := 2
  visible _ := List.append_ne_nil_of_left_ne_nil (Code.visible_header _ _) _
  sent values _ short := by
    apply Code.sent_array short
    · intro code member
      obtain ⟨byte, -, rfl⟩ := List.mem_map.mp member
      exact Code.visible_header _ _
    · intro code member
      obtain ⟨byte, -, rfl⟩ := List.mem_map.mp member
      exact Code.sent_integer (byte.toNat_lt.trans (by decide))
  read_write values _ short := by
    have visible : ∀ code ∈ values.map (fun byte : UInt8 => Code.integer byte.toNat),
        code.bytes ≠ [] := by
      intro code member
      obtain ⟨byte, -, rfl⟩ := List.mem_map.mp member
      exact Code.visible_header _ _
    have count := Code.count_le_array visible
    rw [List.length_map] at count
    have same : (Code.array (values.map fun byte => .integer byte.toNat)).item =
        Item.byteArray values := by
      simp only [Code.array, List.map_map, Item.byteArray]
      rfl
    rw [same, Item.asBytes_byteArray (count.trans_lt short)]

/-- A byte string of fixed length. -/
def fixedBytes (width : Nat) : Shape (Bytes width) where
  write value := bytes.write value.toList
  read item := item.asBytes.bind fun found =>
    if full : found.length = width then some (ofBytes found full) else none
  Valid _ := True
  nesting := bytes.nesting
  visible value := bytes.visible value.toList
  sent value := bytes.sent value.toList
  read_write value valid short := by
    have found : (bytes.write value.toList).item.asBytes = some value.toList :=
      bytes.read_write value.toList valid short
    rw [found, Option.bind_some, dif_pos value.toList_length]
    exact congrArg some (List.Vector.toList_injective rfl)

/-- A value that may be missing, of a type whose values are not simple ones. -/
def option (shape : Shape α) (proper : ∀ value, (shape.write value).item.head.major ≠ 7) :
    Shape (Option α) where
  write value := value.elim .null shape.write
  read := Item.asOption shape.read
  Valid value := ∀ content, value = some content → shape.Valid content
  nesting := max shape.nesting 1
  visible value := by
    cases value with
    | none => exact Code.visible_header 7 22
    | some content => exact shape.visible content
  sent value valid short := by
    cases value with
    | none => exact Code.sent_null.mono (le_max_right _ _)
    | some content =>
        exact (shape.sent content (valid content rfl) short).mono (le_max_left _ _)
  read_write value valid short := by
    cases value with
    | none => rfl
    | some content =>
        have read := shape.read_write content (valid content rfl) short
        simp only [Option.elim, Item.asOption, proper content, false_and, if_false, read,
          Option.map_some]

/-- The entries of a map from texts. -/
def entries (shape : Shape α) : Shape (List (String × α)) where
  write values := .record (values.map fun entry => (entry.1, shape.write entry.2))
  read := Item.asEntries shape.read
  Valid values := ∀ entry ∈ values, shape.Valid entry.2
  nesting := shape.nesting + 2
  visible _ := List.append_ne_nil_of_left_ne_nil (Code.visible_header _ _) _
  sent values valid short := by
    apply Code.sent_record short
    intro entry member
    have small := (short.entry member).2
    obtain ⟨value, inside, rfl⟩ := List.mem_map.mp member
    exact (shape.sent value.2 (valid value inside) small).mono (Nat.le_succ _)
  read_write values valid short := by
    have each : ∀ entry ∈ values, (Item.text (utf8 entry.1.toList)).asString = some entry.1 ∧
        shape.read (shape.write entry.2).item = some entry.2 := by
      intro entry inside
      have small := short.entry (List.mem_map_of_mem (f := fun entry : String × α =>
        (entry.1, shape.write entry.2)) inside)
      exact ⟨text.read_write entry.1 trivial small.1,
        shape.read_write entry.2 (valid entry inside) small.2⟩
    rw [Code.record, Item.asEntries_record, Item.mapM_eq_some_iff]
    simp only [List.forall₂_map_left_iff, List.forall₂_same]
    intro entry inside
    simp [Item.asEntry, each entry inside]

/-! The bytes of compound values in terms of those of their parts. -/

theorem bytes_list (shape : Shape α) (values : List α) :
    (shape.list.write values).bytes =
      Cbor.array (values.map fun value => (shape.write value).bytes) := by
  simp only [list, Code.array, List.map_map]
  rfl

theorem bytes_bytes (values : List UInt8) :
    (bytes.write values).bytes = Cbor.byteArray values := by
  simp only [bytes, Code.array, List.map_map, Cbor.byteArray]
  rfl

theorem bytes_entries (shape : Shape α) (values : List (String × α)) :
    (shape.entries.write values).bytes =
      Cbor.record (values.map fun entry => (entry.1, (shape.write entry.2).bytes)) := by
  simp only [entries, Code.record, List.map_map]
  rfl

end Shape

/-! ## Records -/

/-- The entries of a record that a reader found say of a name what was written. -/
def Agrees (found : List (List UInt8 × Item)) (written : List (String × Code)) (name : String) :
    Prop :=
  ∀ item, (utf8 name.toList, item) ∈ found ↔ ∃ code, (name, code) ∈ written ∧ code.item = item

/-- Some of the fields of a record. -/
structure Fields (α : Type) where
  names : List String
  write : α → List (String × Code)
  read : List (List UInt8 × Item) → Option α
  Valid : α → Prop
  nesting : Nat
  listed : ∀ value, ((write value).map Prod.fst).Sublist names
  sent : ∀ value, Valid value → ∀ entry ∈ write value, entry.2.Short → entry.2.Sent nesting
  read_write : ∀ value, Valid value → (∀ entry ∈ write value, entry.2.Short) → names.Nodup →
    ∀ found, (found.map Prod.fst).Nodup → (∀ name ∈ names, Agrees found (write value) name) →
      read found = some value

namespace Fields

variable {α β : Type}

/-- A field that is always written. -/
def one (name : String) (shape : Shape α) : Fields α where
  names := [name]
  write value := [(name, shape.write value)]
  read found := (field name found).bind shape.read
  Valid := shape.Valid
  nesting := shape.nesting
  listed _ := List.Sublist.refl _
  sent value valid entry member short := by
    rw [List.mem_singleton.mp member] at short ⊢
    exact shape.sent value valid short
  read_write value valid short _ found distinct agrees := by
    have listed : (utf8 name.toList, (shape.write value).item) ∈ found :=
      (agrees name (List.mem_singleton_self _) _).mpr ⟨_, List.mem_singleton_self _, rfl⟩
    rw [field_of_mem distinct listed, Option.bind_some]
    exact shape.read_write value valid (short _ (List.mem_singleton_self _))

/-- A list that is not written when it is empty, and empty when it is not found. -/
def unlessEmpty (name : String) (shape : Shape α) : Fields (List α) where
  names := [name]
  write values := if values.isEmpty then [] else [(name, shape.list.write values)]
  read found :=
    if utf8 name.toList ∈ found.map Prod.fst then (field name found).bind shape.list.read
    else some []
  Valid := shape.list.Valid
  nesting := shape.list.nesting
  listed values := by
    split
    · exact List.nil_sublist _
    · exact List.Sublist.refl _
  sent values valid entry member short := by
    split at member
    · cases member
    · rw [List.mem_singleton.mp member] at short ⊢
      exact shape.list.sent values valid short
  read_write values valid short _ found distinct agrees := by
    have said := agrees name (List.mem_singleton_self _)
    by_cases empty : values.isEmpty = true
    · have missing : utf8 name.toList ∉ found.map Prod.fst := by
        intro member
        obtain ⟨⟨key, item⟩, inside, rfl⟩ := List.mem_map.mp member
        obtain ⟨code, written, -⟩ := (said item).mp inside
        simp [empty] at written
      rw [if_neg missing, List.isEmpty_iff.mp empty]
    · simp only [empty] at said short
      have listed : (utf8 name.toList, (shape.list.write values).item) ∈ found :=
        (said _).mpr ⟨_, List.mem_singleton_self _, rfl⟩
      rw [if_pos (List.mem_map_of_mem listed), field_of_mem distinct listed, Option.bind_some]
      exact shape.list.read_write values valid (short _ (List.mem_singleton_self _))

/-- The fields of two groups. -/
def both (first : Fields α) (second : Fields β) : Fields (α × β) where
  names := first.names ++ second.names
  write value := first.write value.1 ++ second.write value.2
  read found := do return (← first.read found, ← second.read found)
  Valid value := first.Valid value.1 ∧ second.Valid value.2
  nesting := max first.nesting second.nesting
  listed value := by
    rw [List.map_append]
    exact (first.listed value.1).append (second.listed value.2)
  sent value valid entry member short := by
    rcases List.mem_append.mp member with member | member
    · exact (first.sent value.1 valid.1 entry member short).mono (le_max_left _ _)
    · exact (second.sent value.2 valid.2 entry member short).mono (le_max_right _ _)
  read_write value valid short distinct found keys agrees := by
    obtain ⟨firstDistinct, secondDistinct, apart⟩ := List.nodup_append.mp distinct
    have one : first.read found = some value.1 := by
      refine first.read_write value.1 valid.1
        (fun entry member => short entry (List.mem_append_left _ member)) firstDistinct found
        keys ?_
      intro name member item
      rw [agrees name (List.mem_append_left _ member) item]
      refine exists_congr fun code => and_congr_left fun _ => ?_
      rw [List.mem_append, or_iff_left]
      intro other
      exact apart name member name
        ((second.listed value.2).subset (List.mem_map_of_mem other)) rfl
    have two : second.read found = some value.2 := by
      refine second.read_write value.2 valid.2
        (fun entry member => short entry (List.mem_append_right _ member)) secondDistinct found
        keys ?_
      intro name member item
      rw [agrees name (List.mem_append_right _ member) item]
      refine exists_congr fun code => and_congr_left fun _ => ?_
      rw [List.mem_append, or_iff_right]
      intro other
      exact apart name ((first.listed value.1).subset (List.mem_map_of_mem other)) name member rfl
    simp [one, two]

end Fields

/-- A record with the given fields. -/
def Shape.record {α : Type} (fields : Fields α) (distinct : fields.names.Nodup) : Shape α where
  write value := .record (fields.write value)
  read item := item.fields.bind fields.read
  Valid := fields.Valid
  nesting := fields.nesting + 2
  visible _ := List.append_ne_nil_of_left_ne_nil (Code.visible_header _ _) _
  sent value valid short := by
    apply Code.sent_record short
    intro entry member
    exact (fields.sent value valid entry member (short.entry member).2).mono (Nat.le_succ _)
  read_write value valid short := by
    have names : ((fields.write value).map Prod.fst).Nodup := distinct.sublist (fields.listed value)
    rw [Code.record, Item.fields_entries, Option.bind_some]
    refine fields.read_write value valid (fun entry member => (short.entry member).2) distinct _
      ?_ ?_
    · rw [List.map_map]
      have keys : (Prod.fst ∘ fun entry : String × Code => (utf8 entry.1.toList, entry.2.item)) =
          (fun name : String => utf8 name.toList) ∘ Prod.fst := rfl
      rw [keys, ← List.map_map]
      exact names.map fun _ _ => utf8_inj
    · intro name member item
      simp only [List.mem_map, Prod.mk.injEq, Prod.exists]
      constructor
      · rintro ⟨other, code, inside, same, rfl⟩
        exact ⟨code, utf8_inj same ▸ inside, rfl⟩
      · rintro ⟨code, inside, rfl⟩
        exact ⟨name, code, inside, rfl, rfl⟩

/-! ## Enumerations -/

/-- One variant of an enumeration: its name, and its value or the shape of its content. -/
inductive Variant (α : Type) : Type 1 where
  | unit (name : String) (value : α)
  | holding {β : Type} (name : String) (shape : Shape β) (make : β → α)

namespace Variant

variable {α : Type}

def name : Variant α → String
  | unit name _ => name
  | holding name _ _ => name

def Content : Variant α → Type
  | unit _ _ => Unit
  | @holding _ β _ _ _ => β

def make : (variant : Variant α) → variant.Content → α
  | unit _ value, _ => value
  | holding _ _ make, content => make content

def nesting : Variant α → Nat
  | unit _ _ => 0
  | holding _ shape _ => shape.nesting

def Valid : (variant : Variant α) → variant.Content → Prop
  | unit _ _, _ => True
  | holding _ shape _, content => shape.Valid content

/-- What is written: the name, or a record of one entry from the name to the content. -/
def write : (variant : Variant α) → variant.Content → Code
  | unit name _, _ => .text name
  | holding name shape _, content => .record [(name, shape.write content)]

/-- Take a value of this variant from its content. -/
def read : Variant α → Option Item → Option α
  | unit _ value, none => some value
  | holding _ shape make, some item => (shape.read item).map make
  | _, _ => none

theorem visible_write (variant : Variant α) (content : variant.Content) :
    (variant.write content).bytes ≠ [] := by
  cases variant <;> exact List.append_ne_nil_of_left_ne_nil (Code.visible_header _ _) _

variable {variant : Variant α}

theorem sent_write {content : variant.Content} (valid : variant.Valid content)
    (short : (variant.write content).Short) :
    (variant.write content).Sent (variant.nesting + 2) := by
  cases variant with
  | unit name value => exact (Code.sent_text short).mono (by omega)
  | holding name shape make =>
      refine Code.sent_record short fun entry member => ?_
      have small := (Code.Short.entry short member).2
      rw [List.mem_singleton.mp member] at small ⊢
      exact (shape.sent content valid small).mono (Nat.le_succ _)

theorem read_write {content : variant.Content} (valid : variant.Valid content)
    (short : (variant.write content).Short) :
    ∃ found, (variant.write content).item.variant = some (utf8 variant.name.toList, found) ∧
      variant.read found = some (variant.make content) := by
  cases variant with
  | unit name value => exact ⟨none, Item.variant_text _, rfl⟩
  | holding name shape make =>
      have small := (Code.Short.entry short (List.mem_singleton_self _)).2
      refine ⟨some (shape.write content).item, Item.variant_record _ _, ?_⟩
      simp only [read, shape.read_write content valid small]
      rfl

/-- Names that are listed once are found where they are listed. -/
theorem find?_of_nodup {variants : List (Variant α)} (distinct : (variants.map name).Nodup)
    (member : variant ∈ variants) :
    variants.find? (fun other => utf8 other.name.toList = utf8 variant.name.toList) =
      some variant := by
  induction variants with
  | nil => cases member
  | cons first rest ih =>
      rw [List.map_cons, List.nodup_cons] at distinct
      rcases List.mem_cons.mp member with rfl | member
      · exact List.find?_cons_of_pos (by simp)
      · have different : first.name ≠ variant.name := by
          intro same
          exact distinct.1 (same ▸ List.mem_map_of_mem member)
        rw [List.find?_cons_of_neg (by simpa using fun same => different (utf8_inj same))]
        exact ih distinct.2 member

/-- The variant and the content of a value. -/
structure Pick (variants : List (Variant α)) (value : α) where
  variant : Variant α
  content : variant.Content
  listed : variant ∈ variants
  same : variant.make content = value

end Variant

/-- An enumeration, given the variant and the content of every value. -/
def Shape.enum {α : Type} (variants : List (Variant α))
    (pick : (value : α) → Variant.Pick variants value)
    (distinct : (variants.map Variant.name).Nodup) : Shape α where
  write value := (pick value).variant.write (pick value).content
  read item := item.variant.bind fun found =>
    (variants.find? fun variant => utf8 variant.name.toList = found.1).bind fun variant =>
      variant.read found.2
  Valid value := (pick value).variant.Valid (pick value).content
  nesting := (variants.map Variant.nesting).foldr max 0 + 2
  visible value := Variant.visible_write _ _
  sent value valid short := by
    refine (Variant.sent_write valid short).mono (Nat.add_le_add_right ?_ 2)
    exact List.le_max_of_le' 0 (List.mem_map_of_mem (pick value).listed) le_rfl
  read_write value valid short := by
    obtain ⟨content, item, read⟩ := Variant.read_write valid short
    rw [item, Option.bind_some, Variant.find?_of_nodup distinct (pick value).listed,
      Option.bind_some, read, (pick value).same]

/-- An enumeration whose variants have no content. -/
def Shape.units {α : Type} (values : List α) (name : α → String)
    (complete : ∀ value, value ∈ values) (distinct : (values.map name).Nodup) : Shape α :=
  (Shape.enum (values.map fun value => .unit (name value) value)
    (fun value => ⟨.unit (name value) value, (), List.mem_map_of_mem (complete value), rfl⟩)
    (by rwa [List.map_map])).total fun _ => trivial

end Cosaci.Foundation.Cbor
