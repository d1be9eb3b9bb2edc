import Cosaci.Foundation.CborTree

/-!
# Values of CBOR items

How a lenient reader takes integers, byte strings, texts and records from an item: tags
in front of a value are skipped, an integer may be a bignum, a byte string may stand for
an array of bytes, and the entries of a record may come in any order, between entries
that are not asked for.

The items that the writer produces are the plain ones.  A plain item that is read as a
value has the bytes that the writer gives this value.
-/

namespace Cosaci.Foundation.Cbor

namespace Item

/-! ## Reading values -/

/-- The item behind its tags. -/
def untagged : Item → Item
  | .node head content [child] =>
      if head.major = 6 then child.untagged else .node head content [child]
  | item => item

/-- The bytes of a string, of either length. -/
def stringBytes (item : Item) : List UInt8 :=
  item.content ++ item.children.flatMap content

/-- The number of a bignum of at most 128 bits. -/
def bignum (item : Item) : Option Nat :=
  if item.head.major = 2 then
    let digits := item.stringBytes.dropWhile fun byte => byte == 0
    if digits.length ≤ 16 then some (ofBigEndian digits) else none
  else
    none

def asInt : Item → Option Int
  | .node head _ children =>
      match head.major, children with
      | 0, _ => some (.ofNat head.argument)
      | 1, _ => some (.negSucc head.argument)
      | 6, [child] =>
          if head.argument = 2 then child.bignum.map Int.ofNat
          else if head.argument = 3 then child.bignum.map Int.negSucc
          else child.asInt
      | _, _ => none

/-- An integer from a range. -/
def asIntWithin (low high : Int) (item : Item) : Option Int :=
  item.asInt.bind fun value => if low ≤ value ∧ value < high then some value else none

def asByte (item : Item) : Option UInt8 :=
  (item.asIntWithin 0 256).map fun value => UInt8.ofNat value.toNat

/-- A sequence of bytes. -/
def asBytes (item : Item) : Option (List UInt8) :=
  let item := item.untagged
  if item.head.major = 4 then item.children.mapM asByte
  else if item.head.major = 2 then some item.stringBytes
  else none

/-- The UTF-8 bytes of a text. -/
def asText (item : Item) : Option (List UInt8) :=
  let item := item.untagged
  if item.head.major = 3 then some item.stringBytes else none

/-- The name that a key gives, as a text or as a byte string. -/
def identifier (item : Item) : Option (List UInt8) :=
  let item := item.untagged
  if (item.head.major = 2 ∨ item.head.major = 3) ∧ item.head.form ≠ .more then
    some item.content
  else
    none

/-- Keys and values in turn. -/
def pairs : List Item → List (Item × Item)
  | key :: value :: rest => (key, value) :: pairs rest
  | _ => []

/-- The entries of a record. -/
def fields (item : Item) : Option (List (List UInt8 × Item)) :=
  let item := item.untagged
  if item.head.major = 5 then
    (pairs item.children).mapM fun entry => entry.1.identifier.map fun name => (name, entry.2)
  else
    none

end Item

/-- The value of a field that is given exactly once. -/
def field (name : String) (fields : List (List UInt8 × Item)) : Option Item :=
  match fields.filter fun field => field.1 = utf8 name.toList with
  | [found] => some found.2
  | _ => none

theorem field_of_mem {fields : List (List UInt8 × Item)} {name : String} {value : Item}
    (distinct : (fields.map Prod.fst).Nodup) (member : (utf8 name.toList, value) ∈ fields) :
    field name fields = some value := by
  have found : (fields.filter fun field => field.1 = utf8 name.toList) =
      [(utf8 name.toList, value)] := by
    induction fields with
    | nil => cases member
    | cons first rest ih =>
        rw [List.map_cons, List.nodup_cons] at distinct
        rcases List.mem_cons.mp member with rfl | member
        · have others : (rest.filter fun field => field.1 = utf8 name.toList) = [] := by
            rw [List.filter_eq_nil_iff]
            intro other inside
            rw [decide_eq_true_eq]
            intro same
            exact distinct.1 (List.mem_map.mpr ⟨other, inside, same⟩)
          rw [List.filter_cons_of_pos (by simp), others]
        · have different : first.1 ≠ utf8 name.toList := by
            intro same
            exact distinct.1 (List.mem_map.mpr ⟨_, member, same.symm⟩)
          rw [List.filter_cons_of_neg (by simpa using different), ih distinct.2 member]
  rw [field, found]

/-! ## Plain items -/

/-- A header of an integer, a text, an array or a map in its shortest form. -/
def Head.plain (head : Head) : Bool :=
  head.form == .shortest head.argument &&
    (head.major == 0 || head.major == 1 || head.major == 3 || head.major == 4 ||
      head.major == 5)

namespace Item

mutual

/-- An item all of whose headers are plain. -/
def plain : Item → Bool
  | .node head content children =>
      head.plain && decide (Definite head content children) && allPlain children

def allPlain : List Item → Bool
  | [] => true
  | item :: rest => item.plain && allPlain rest

end

theorem allPlain_iff {items : List Item} :
    allPlain items = true ↔ ∀ item ∈ items, item.plain = true := by
  induction items with
  | nil => simp [allPlain]
  | cons item rest ih => simp [allPlain, ih]

theorem plain_node_iff {head : Head} {content : List UInt8} {children : List Item} :
    (node head content children).plain = true ↔
      head.plain = true ∧ Definite head content children ∧
        ∀ child ∈ children, child.plain = true := by
  simp only [plain, Bool.and_eq_true, decide_eq_true_eq, allPlain_iff, and_assoc]

/-- An item with a given number of items inside has no bytes of its own. -/
theorem Definite.of_children {head : Head} {content : List UInt8} {children : List Item}
    (definite : Definite head content children) {count : Nat}
    (layout : head.layout = some (.children count)) : content = [] ∧ children.length = count := by
  rcases definite with ⟨known, rfl⟩ | ⟨known, rfl⟩
  · rw [layout] at known
    cases known
  · rw [layout] at known
    cases known
    exact ⟨rfl, rfl⟩

theorem Definite.of_content {head : Head} {content : List UInt8} {children : List Item}
    (definite : Definite head content children) {length : Nat}
    (layout : head.layout = some (.content length)) : content.length = length ∧ children = [] := by
  rcases definite with ⟨known, rfl⟩ | ⟨known, rfl⟩
  · rw [layout] at known
    cases known
    exact ⟨rfl, rfl⟩
  · rw [layout] at known
    cases known

section Plain

variable {head : Head} {content : List UInt8} {children : List Item}

private theorem bytes_plain (plain : (node head content children).plain = true) :
    head.form ≠ .more ∧ Definite head content children ∧
      (node head content children).bytes =
        header head.major head.argument ++ content ++ children.flatMap Item.bytes := by
  obtain ⟨plainHead, definite, -⟩ := plain_node_iff.mp plain
  simp only [Head.plain, Bool.and_eq_true, beq_iff_eq] at plainHead
  refine ⟨?_, definite, ?_⟩
  · rw [plainHead.1]
    exact Form.shortest_ne_more _
  · rw [definite.bytes, Head.bytes_of_shortest plainHead.1]

/-- A plain integer has nothing inside. -/
theorem bytes_plain_integer (plain : (node head content children).plain = true)
    (major : head.major = 0 ∨ head.major = 1) :
    (node head content children).bytes = header head.major head.argument := by
  obtain ⟨closed, definite, bytes⟩ := bytes_plain plain
  have layout : head.layout = some (.children 0) := by
    rcases major with major | major <;> simp [Head.layout, closed, major]
  obtain ⟨rfl, none⟩ := definite.of_children layout
  rw [List.eq_nil_of_length_eq_zero none, List.flatMap_nil, List.append_nil,
    List.append_nil] at bytes
  rw [List.eq_nil_of_length_eq_zero none, bytes]

theorem bytes_plain_text (plain : (node head content children).plain = true)
    (major : head.major = 3) :
    children = [] ∧
      (node head content children).bytes = header 3 content.length ++ content := by
  obtain ⟨closed, definite, bytes⟩ := bytes_plain plain
  have layout : head.layout = some (.content head.argument) := by
    simp [Head.layout, closed, major]
  obtain ⟨length, rfl⟩ := definite.of_content layout
  rw [major, ← length, List.flatMap_nil, List.append_nil] at bytes
  exact ⟨rfl, bytes⟩

theorem bytes_plain_array (plain : (node head content children).plain = true)
    (major : head.major = 4) :
    (node head content children).bytes =
      header 4 children.length ++ children.flatMap Item.bytes := by
  obtain ⟨closed, definite, bytes⟩ := bytes_plain plain
  have layout : head.layout = some (.children head.argument) := by
    simp [Head.layout, closed, major]
  obtain ⟨rfl, count⟩ := definite.of_children layout
  rw [major, ← count, List.append_nil] at bytes
  exact bytes

theorem bytes_plain_map (plain : (node head content children).plain = true)
    (major : head.major = 5) :
    children.length = 2 * head.argument ∧
      (node head content children).bytes =
        header 5 head.argument ++ children.flatMap Item.bytes := by
  obtain ⟨closed, definite, bytes⟩ := bytes_plain plain
  have layout : head.layout = some (.children (2 * head.argument)) := by
    simp [Head.layout, closed, major]
  obtain ⟨rfl, count⟩ := definite.of_children layout
  rw [major, List.append_nil] at bytes
  exact ⟨count, bytes⟩

theorem major_plain (plain : (node head content children).plain = true) :
    head.major ≠ 2 ∧ head.major ≠ 6 := by
  have plainHead := (plain_node_iff.mp plain).1
  simp only [Head.plain, Bool.and_eq_true, Bool.or_eq_true, beq_iff_eq] at plainHead
  have types := plainHead.2
  constructor
  · intro same
    rw [same] at types
    exact absurd types (by decide)
  · intro same
    rw [same] at types
    exact absurd types (by decide)

end Plain

variable {item : Item} {value : Int} {α β : Type} {entries : List (List UInt8 × Item)} {depth : Nat}

/-- A plain item has no tags. -/
theorem untagged_of_plain (plain : item.plain = true) : item.untagged = item := by
  obtain ⟨head, content, children⟩ := item
  unfold untagged
  split
  · next same =>
      cases same
      exact if_neg (major_plain plain).2
  · rfl

/-! Plain items are written as the values they are read as. -/

theorem bytes_of_asInt (plain : item.plain = true) (read : item.asInt = some value) :
    item.bytes = signed value := by
  obtain ⟨head, content, children⟩ := item
  unfold asInt at read
  split at read
  · next major =>
      cases read
      rw [bytes_plain_integer plain (Or.inl major), major]
      rfl
  · next major =>
      cases read
      rw [bytes_plain_integer plain (Or.inr major), major]
      rfl
  · next major => exact False.elim ((major_plain plain).2 major)
  · cases read

theorem asIntWithin_eq_some_iff {low high : Int} :
    item.asIntWithin low high = some value ↔
      item.asInt = some value ∧ low ≤ value ∧ value < high := by
  unfold asIntWithin
  rw [Option.bind_eq_some_iff]
  constructor
  · rintro ⟨found, read, within⟩
    split at within
    · next bounds =>
        cases within
        exact ⟨read, bounds⟩
    · cases within
  · rintro ⟨read, bounds⟩
    exact ⟨value, read, if_pos bounds⟩

theorem bytes_of_asByte (plain : item.plain = true) {byte : UInt8}
    (read : item.asByte = some byte) : item.bytes = unsigned byte.toNat := by
  obtain ⟨value, within, rfl⟩ := Option.map_eq_some_iff.mp read
  obtain ⟨found, low, high⟩ := asIntWithin_eq_some_iff.mp within
  lift value to Nat using low
  rw [bytes_of_asInt plain found, Int.toNat_natCast, UInt8.toNat_ofNat',
    Nat.mod_eq_of_lt (by omega)]
  rfl

theorem bytes_of_asText (plain : item.plain = true) {text : List UInt8}
    (read : item.asText = some text) : item.bytes = header 3 text.length ++ text := by
  simp only [asText, untagged_of_plain plain] at read
  split at read
  · next major =>
      cases read
      obtain ⟨head, content, children⟩ := item
      obtain ⟨rfl, bytes⟩ := bytes_plain_text plain major
      rw [bytes]
      simp [stringBytes, Item.content, Item.children]
  · cases read

theorem bytes_of_identifier (plain : item.plain = true) {name : List UInt8}
    (read : item.identifier = some name) : item.bytes = header 3 name.length ++ name := by
  simp only [identifier, untagged_of_plain plain] at read
  split at read
  · next named =>
      cases read
      obtain ⟨head, content, children⟩ := item
      exact (bytes_plain_text plain (named.1.resolve_left (major_plain plain).1)).2
  · cases read

/-- Every element is read. -/
theorem mapM_eq_some_iff {read : α → Option β} {items : List α} {values : List β} :
    items.mapM read = some values ↔
      List.Forall₂ (fun item value => read item = some value) items values := by
  induction items generalizing values with
  | nil => cases values <;> simp
  | cons item rest ih =>
      rw [List.mapM_cons, Option.bind_eq_bind, Option.bind_eq_some_iff]
      constructor
      · rintro ⟨value, first, others⟩
        obtain ⟨later, remaining, same⟩ := Option.bind_eq_some_iff.mp others
        cases same
        exact .cons first (ih.mp remaining)
      · intro related
        cases related with
        | cons first others =>
            exact ⟨_, first, Option.bind_eq_some_iff.mpr ⟨_, ih.mpr others, rfl⟩⟩

theorem exists_of_mem_mapM {read : α → Option β} {items : List α} {values : List β}
    (mapped : items.mapM read = some values) {value : β} (member : value ∈ values) :
    ∃ item ∈ items, read item = some value := by
  have related := mapM_eq_some_iff.mp mapped
  clear mapped
  induction related with
  | nil => cases member
  | cons first others ih =>
      rcases List.mem_cons.mp member with rfl | member
      · exact ⟨_, List.mem_cons_self, first⟩
      · obtain ⟨item, inside, found⟩ := ih member
        exact ⟨item, List.mem_cons_of_mem _ inside, found⟩

/-- Codes that agree element by element agree one after the other. -/
theorem flatMap_eq_of_forall₂ {related : α → β → Prop} {first : α → List UInt8}
    {second : β → List UInt8} {items : List α} {values : List β}
    (each : List.Forall₂ related items values)
    (same : ∀ item ∈ items, ∀ value, related item value → first item = second value) :
    items.flatMap first = values.flatMap second := by
  induction each with
  | nil => rfl
  | cons head rest ih =>
      rw [List.forall_mem_cons] at same
      rw [List.flatMap_cons, List.flatMap_cons, same.1 _ head, ih same.2]

theorem bytes_of_asBytes (plain : item.plain = true) {bytes : List UInt8}
    (read : item.asBytes = some bytes) : item.bytes = byteArray bytes := by
  obtain ⟨head, content, children⟩ := item
  simp only [asBytes, untagged_of_plain plain, Item.head, Item.children,
    if_neg (major_plain plain).1] at read
  split at read
  · next major =>
      have related := mapM_eq_some_iff.mp read
      have plainChildren := (plain_node_iff.mp plain).2.2
      have body := flatMap_eq_of_forall₂ related fun child inside byte =>
        bytes_of_asByte (plainChildren child inside)
      rw [bytes_plain_array plain major, body, byteArray, array, List.length_map,
        related.length_eq, List.flatMap_def]
  · cases read

/-- The children of a map, entry by entry. -/
theorem pairs_spec {children : List Item} {count : Nat} (length : children.length = 2 * count) :
    (pairs children).length = count ∧
      children.flatMap Item.bytes =
        (pairs children).flatMap (fun entry => entry.1.bytes ++ entry.2.bytes) ∧
      ∀ entry ∈ pairs children, entry.1 ∈ children ∧ entry.2 ∈ children := by
  induction count generalizing children with
  | zero =>
      rw [List.eq_nil_of_length_eq_zero length]
      exact ⟨rfl, rfl, by simp [pairs]⟩
  | succ count ih =>
      match children with
      | [] => cases length
      | [child] => simp at length; omega
      | key :: value :: rest =>
          have shorter : rest.length = 2 * count := by
            simp only [List.length_cons] at length
            omega
          obtain ⟨entries, bytes, inside⟩ := ih shorter
          refine ⟨by rw [pairs, List.length_cons, entries], ?_, ?_⟩
          · simp only [pairs, List.flatMap_cons, bytes, List.append_assoc]
          · intro entry member
            rcases List.mem_cons.mp member with rfl | member
            · simp
            · have found := inside entry member
              exact ⟨by simp [found.1], by simp [found.2]⟩

theorem bytes_of_fields (plain : item.plain = true) (read : item.fields = some entries) :
    item.bytes = header 5 entries.length ++
        entries.flatMap (fun entry => header 3 entry.1.length ++ entry.1 ++ entry.2.bytes) ∧
      ∀ entry ∈ entries, entry.2.plain = true := by
  obtain ⟨head, content, children⟩ := item
  simp only [fields, untagged_of_plain plain, Item.head, Item.children] at read
  split at read
  · next major =>
      obtain ⟨count, written⟩ := bytes_plain_map plain major
      obtain ⟨length, bytes, inside⟩ := pairs_spec count
      have plainChildren := (plain_node_iff.mp plain).2.2
      have related := mapM_eq_some_iff.mp read
      have body : (pairs children).flatMap (fun entry => entry.1.bytes ++ entry.2.bytes) =
          entries.flatMap fun entry =>
            header 3 entry.1.length ++ entry.1 ++ entry.2.bytes := by
        apply flatMap_eq_of_forall₂ related
        intro entry member value named
        obtain ⟨name, identified, rfl⟩ := Option.map_eq_some_iff.mp named
        rw [bytes_of_identifier (plainChildren _ (inside entry member).1) identified]
      refine ⟨?_, ?_⟩
      · rw [written, bytes, body, ← length, related.length_eq]
      · intro entry member
        obtain ⟨source, found, named⟩ := exists_of_mem_mapM read member
        obtain ⟨name, -, rfl⟩ := Option.map_eq_some_iff.mp named
        exact plainChildren _ (inside source found).2
  · cases read

/-- A plain record with the given names and codes is written as the writer does. -/
theorem bytes_eq_record (plain : item.plain = true) (read : item.fields = some entries)
    {names : List String} {codes : List (List UInt8)}
    (named : entries.map Prod.fst = names.map fun name => utf8 name.toList)
    (coded : (entries.map fun entry => entry.2.bytes) = codes) :
    item.bytes = Cbor.record (names.zip codes) := by
  have body : entries.flatMap
      (fun entry => header 3 entry.1.length ++ entry.1 ++ entry.2.bytes) =
        (names.zip codes).flatMap fun entry => Cbor.text entry.1 ++ entry.2 := by
    clear read
    induction entries generalizing names codes with
    | nil =>
        subst coded
        rw [List.map_nil, List.zip_nil_right]
        rfl
    | cons entry rest ih =>
        cases names with
        | nil => cases named
        | cons name names =>
            subst coded
            simp only [List.map_cons, List.cons.injEq] at named
            rw [List.map_cons, List.zip_cons_cons, List.flatMap_cons, List.flatMap_cons,
              ih named.2 rfl, named.1]
            rfl
  have length : entries.length = (names.zip codes).length := by
    have count := congrArg List.length named
    have codeCount := congrArg List.length coded
    rw [List.length_map, List.length_map] at count
    rw [List.length_map] at codeCount
    rw [List.length_zip, ← count, ← codeCount, Nat.min_self]
  rw [(bytes_of_fields plain read).1, body, length, Cbor.record]

/-! ## Writing items -/

/-- An integer of up to 64 bits. -/
def integer : Int → Item
  | .ofNat value => .node (.short 0 (UInt64.ofNat value)) [] []
  | .negSucc value => .node (.short 1 (UInt64.ofNat value)) [] []

def text (characters : List UInt8) : Item :=
  .node (.short 3 (UInt64.ofNat characters.length)) characters []

def array (items : List Item) : Item :=
  .node (.short 4 (UInt64.ofNat items.length)) [] items

def record (entries : List (List UInt8 × Item)) : Item :=
  .node (.short 5 (UInt64.ofNat entries.length)) []
    (entries.flatMap fun entry => [text entry.1, entry.2])

/-- The integers that fit into a header. -/
def Word : Int → Prop
  | .ofNat value => value < 2 ^ 64
  | .negSucc value => value < 2 ^ 64

/-- A plain item that is read where it was written. -/
structure Written (depth : Nat) (item : Item) : Prop where
  plain : item.plain = true
  readable : Readable (readItem depth) bytes item

theorem Written.node {head : Head} {content : List UInt8} {children : List Item}
    (plain : head.plain = true) (definite : Definite head content children)
    (consistent : consistent head content children = true)
    (written : ∀ child ∈ children, Written depth child) :
    Written (depth + 1) (.node head content children) where
  plain := plain_node_iff.mpr ⟨plain, definite, fun child inside => (written child inside).plain⟩
  readable := readable_node definite consistent fun child inside =>
    (written child inside).readable

theorem written_integer (depth : Nat) (value : Int) : Written (depth + 1) (integer value) := by
  cases value with
  | ofNat value =>
      apply Written.node
      · simp [Head.plain, Head.short]
      · exact Or.inr ⟨by simp [Head.layout, Head.short, Form.shortest_ne_more], rfl⟩
      · simp [consistent, Head.short]
      · simp
  | negSucc value =>
      apply Written.node
      · simp [Head.plain, Head.short]
      · exact Or.inr ⟨by simp [Head.layout, Head.short, Form.shortest_ne_more], rfl⟩
      · simp [consistent, Head.short]
      · simp

theorem written_text (depth : Nat) {characters : List UInt8}
    (valid : (utf8Decode characters).isSome = true) (fits : characters.length < 2 ^ 64) :
    Written (depth + 1) (text characters) := by
  apply Written.node
  · simp [Head.plain, Head.short]
  · refine Or.inl ⟨?_, rfl⟩
    simp [Head.layout, Head.short, Form.shortest_ne_more, UInt64.toNat_ofNat_of_lt' fits]
  · simp [consistent, Head.short, valid]
  · simp

theorem written_array {items : List Item} (fits : items.length < 2 ^ 64)
    (written : ∀ item ∈ items, Written depth item) : Written (depth + 1) (array items) := by
  apply Written.node
  · simp [Head.plain, Head.short]
  · refine Or.inr ⟨?_, rfl⟩
    simp [Head.layout, Head.short, Form.shortest_ne_more, UInt64.toNat_ofNat_of_lt' fits]
  · simp [consistent, Head.short]
  · exact written

theorem written_record (fits : entries.length < 2 ^ 64)
    (names : ∀ entry ∈ entries, (utf8Decode entry.1).isSome = true ∧ entry.1.length < 2 ^ 64)
    (written : ∀ entry ∈ entries, Written (depth + 1) entry.2) :
    Written (depth + 2) (record entries) := by
  have count : (entries.flatMap fun entry => [text entry.1, entry.2]).length =
      2 * entries.length := by
    simp [List.length_flatMap, Nat.mul_comm]
  apply Written.node
  · simp [Head.plain, Head.short]
  · refine Or.inr ⟨?_, rfl⟩
    simp [Head.layout, Head.short, Form.shortest_ne_more, UInt64.toNat_ofNat_of_lt' fits, count]
  · simp [consistent, Head.short, count]
  · intro child inside
    obtain ⟨entry, member, found⟩ := List.mem_flatMap.mp inside
    rcases List.mem_cons.mp found with rfl | found
    · exact written_text depth (names entry member).1 (names entry member).2
    · rw [List.mem_singleton.mp found]
      exact written entry member

/-! What is written is read. -/

theorem asInt_integer (fits : Word value) : (integer value).asInt = some value := by
  cases value with
  | ofNat value =>
      simp only [integer, asInt, Head.short, UInt64.toNat_ofNat', Nat.mod_eq_of_lt fits]
  | negSucc value =>
      simp only [integer, asInt, Head.short, UInt64.toNat_ofNat', Nat.mod_eq_of_lt fits]

theorem asIntWithin_integer {low high value : Int} (fits : Word value) (above : low ≤ value)
    (below : value < high) : (integer value).asIntWithin low high = some value :=
  asIntWithin_eq_some_iff.mpr ⟨asInt_integer fits, above, below⟩

theorem asByte_integer (byte : UInt8) : (integer byte.toNat).asByte = some byte := by
  have bound := byte.toNat_lt
  have fits : Word byte.toNat := bound.trans (by decide)
  rw [asByte, asIntWithin_integer fits (by omega) (by omega), Option.map_some,
    Int.toNat_natCast, UInt8.ofNat_toNat]

theorem asText_text {characters : List UInt8} (written : Written 1 (text characters)) :
    (text characters).asText = some characters := by
  simp only [asText, untagged_of_plain written.plain]
  simp [text, Item.head, Head.short, stringBytes, Item.content, Item.children]

/-- A sequence of bytes as an array of integers. -/
def byteArray (bytes : List UInt8) : Item :=
  array (bytes.map fun byte => integer byte.toNat)

theorem written_byteArray (depth : Nat) {bytes : List UInt8} (fits : bytes.length < 2 ^ 64) :
    Written (depth + 2) (byteArray bytes) := by
  apply written_array
  · rwa [List.length_map]
  · intro item member
    obtain ⟨byte, -, rfl⟩ := List.mem_map.mp member
    exact written_integer depth _

theorem asBytes_byteArray {bytes : List UInt8} (fits : bytes.length < 2 ^ 64) :
    (byteArray bytes).asBytes = some bytes := by
  have read : (bytes.map fun byte => integer byte.toNat).mapM asByte = some bytes := by
    rw [mapM_eq_some_iff, List.forall₂_map_left_iff, List.forall₂_same]
    exact fun byte _ => asByte_integer byte
  rw [asBytes, untagged_of_plain (written_byteArray 0 fits).plain]
  exact read

theorem fields_record (written : Written depth (record entries))
    (names : ∀ entry ∈ entries, (utf8Decode entry.1).isSome = true ∧ entry.1.length < 2 ^ 64) :
    (record entries).fields = some entries := by
  have read : (pairs (entries.flatMap fun entry => [text entry.1, entry.2])).mapM
      (fun entry => entry.1.identifier.map fun name => (name, entry.2)) = some entries := by
    clear written
    induction entries with
    | nil => rfl
    | cons entry rest ih =>
        rw [List.forall_mem_cons] at names
        have plain := (written_text 0 names.1.1 names.1.2).plain
        have name : (text entry.1).identifier = some entry.1 := by
          simp only [identifier, untagged_of_plain plain]
          simp [text, Item.head, Head.short, Item.content, Form.shortest_ne_more]
        simp [pairs, name, ih names.2]
  rw [fields, untagged_of_plain written.plain]
  exact read

end Item

end Cosaci.Foundation.Cbor
