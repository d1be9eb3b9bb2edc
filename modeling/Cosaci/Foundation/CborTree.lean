import Cosaci.Foundation.PrefixCode
import Cosaci.Foundation.Text

/-!
# CBOR items as trees

The reader side of CBOR.  An item is read as a tree that keeps how every header was
written, so that a tree has exactly one encoding: a header may give its argument in
more bytes than it needs, and an array, a map or a string may be of indefinite length
and closed by a break.  The reader takes one item off the front of a byte string and
does not look at what follows it.
-/

namespace Cosaci.Foundation.Cbor

/-! ## Headers -/

/-- There are eight types of items; their numbers are written as literals of `Fin 8`. -/
scoped instance neZero_majors : NeZero 8 :=
  ⟨by decide⟩

/-- Where the argument of a header stands: in its initial byte, in a number of bytes
after it, or nowhere, in an item that is closed by a break. -/
inductive Form where
  | this
  | next1
  | next2
  | next4
  | next8
  | more
  deriving DecidableEq, Repr

namespace Form

/-- The number of bytes after the initial one. -/
def width : Form → Nat
  | .this => 0
  | .next1 => 1
  | .next2 => 2
  | .next4 => 4
  | .next8 => 8
  | .more => 0

def Fits (form : Form) (argument : Nat) : Prop :=
  match form with
  | .this => argument < 24
  | form => argument < 256 ^ form.width

instance (form : Form) (argument : Nat) : Decidable (form.Fits argument) := by
  cases form <;> exact inferInstanceAs (Decidable (_ < _))

/-- The low five bits of the initial byte. -/
def information (form : Form) (argument : Nat) : Nat :=
  match form with
  | .this => argument
  | .next1 => 24
  | .next2 => 25
  | .next4 => 26
  | .next8 => 27
  | .more => 31

def ofInformation (information : Nat) : Option Form :=
  if information < 24 then
    some .this
  else
    match information with
    | 24 => some .next1
    | 25 => some .next2
    | 26 => some .next4
    | 27 => some .next8
    | 31 => some .more
    | _ => none

/-- The argument that goes with an information, given the bytes after it. -/
def stored (form : Form) (information : Nat) (rest : List UInt8) : Nat :=
  if form = .this then information else ofBigEndian (rest.take form.width)

/-- The form that takes the fewest bytes. -/
def shortest (argument : Nat) : Form :=
  if argument < 24 then .this
  else if argument < 256 then .next1
  else if argument < 65536 then .next2
  else if argument < 4294967296 then .next4
  else .next8

variable {argument : Nat} {form : Form}

theorem information_lt (fits : form.Fits argument) : form.information argument < 32 := by
  cases form with
  | this => exact Nat.lt_trans fits (by decide)
  | next1 | next2 | next4 | next8 | more => simp only [information]; decide

theorem ofInformation_information (fits : form.Fits argument) :
    ofInformation (form.information argument) = some form := by
  cases form with
  | this => exact if_pos fits
  | next1 | next2 | next4 | next8 | more => rfl

/-- The information of a form that was read, given the argument that goes with it. -/
theorem information_of_ofInformation {read argument : Nat} (known : ofInformation read = some form)
    (inline : form = .this → argument = read) : form.information argument = read := by
  unfold ofInformation at known
  split at known
  · cases known
    exact inline rfl
  · split at known <;> cases known <;> rfl

theorem fits_shortest (bounded : argument < 2 ^ 64) : (shortest argument).Fits argument := by
  unfold shortest
  split
  · assumption
  · split
    · assumption
    · split
      · assumption
      · split
        · assumption
        · exact bounded

theorem shortest_ne_more (argument : Nat) : shortest argument ≠ .more := by
  unfold shortest
  grind

end Form

/-- A header as it was written. -/
structure Head where
  major : Fin 8
  form : Form
  argument : Nat
  fits : form.Fits argument
  deriving DecidableEq

namespace Head

def bytes (head : Head) : List UInt8 :=
  UInt8.ofNat (32 * head.major + head.form.information head.argument) ::
    bigEndian head.form.width head.argument

/-- The header in its shortest form. -/
def short (major : Fin 8) (argument : UInt64) : Head :=
  ⟨major, .shortest argument.toNat, argument.toNat, Form.fits_shortest argument.toNat_lt⟩

/-- The writer uses the shortest form. -/
theorem bytes_of_shortest {head : Head} (short : head.form = .shortest head.argument) :
    head.bytes = header head.major head.argument := by
  simp only [bytes, header, short, Form.shortest]
  split
  · rfl
  · split
    · rfl
    · split
      · rfl
      · split <;> rfl

end Head

/-- Read a header off the front of a byte string. -/
def readHead : List UInt8 → Option (Head × List UInt8)
  | [] => none
  | initial :: rest =>
      let information := initial.toNat % 32
      match Form.ofInformation information with
      | none => none
      | some form =>
          let argument := form.stored information rest
          if fits : form.width ≤ rest.length ∧ form.Fits argument then
            some (⟨⟨initial.toNat / 32, by have := initial.toNat_lt; omega⟩, form, argument,
              fits.2⟩, rest.drop form.width)
          else
            none

theorem littleEndian_ofLittleEndian (bytes : List UInt8) :
    littleEndian bytes.length (ofLittleEndian bytes) = bytes := by
  induction bytes with
  | nil => rfl
  | cons byte rest ih =>
      have bound := byte.toNat_lt
      have low : UInt8.ofNat (byte.toNat + 256 * ofLittleEndian rest) = byte := by
        apply UInt8.toNat_inj.mp
        rw [UInt8.toNat_ofNat']
        omega
      have high : (byte.toNat + 256 * ofLittleEndian rest) / 256 = ofLittleEndian rest := by
        omega
      rw [List.length_cons, ofLittleEndian, littleEndian, low, high, ih]

theorem bigEndian_ofBigEndian (bytes : List UInt8) :
    bigEndian bytes.length (ofBigEndian bytes) = bytes := by
  have written := littleEndian_ofLittleEndian bytes.reverse
  rw [List.length_reverse] at written
  rw [bigEndian, ofBigEndian, written, List.reverse_reverse]

/-- A header is read where it was written. -/
theorem readHead_bytes (head : Head) (rest : List UInt8) :
    readHead (head.bytes ++ rest) = some (head, rest) := by
  obtain ⟨major, form, argument, fits⟩ := head
  have low := Form.information_lt fits
  have initial : (UInt8.ofNat (32 * major + form.information argument)).toNat =
      32 * major + form.information argument := by
    rw [UInt8.toNat_ofNat', Nat.mod_eq_of_lt]
    omega
  have information : (32 * (major : Nat) + form.information argument) % 32 =
      form.information argument := by omega
  have high : (32 * (major : Nat) + form.information argument) / 32 = major := by omega
  have width : (bigEndian form.width argument).length = form.width := length_bigEndian _ _
  have stored : form.stored (form.information argument)
      (bigEndian form.width argument ++ rest) = argument := by
    rw [Form.stored, List.take_left' width]
    split
    · next inline =>
        subst inline
        rfl
    · next apart =>
        apply ofBigEndian_bigEndian
        cases form with
        | this => exact False.elim (apart rfl)
        | next1 | next2 | next4 | next8 | more => exact fits
  simp only [Head.bytes, List.cons_append, readHead, initial, information,
    Form.ofInformation_information fits, stored, high, List.length_append, width,
    Nat.le_add_right, fits, and_self, ↓reduceDIte, List.drop_left' width]

/-- What is read as a header is one. -/
theorem bytes_of_readHead {bytes rest : List UInt8} {head : Head}
    (read : readHead bytes = some (head, rest)) : bytes = head.bytes ++ rest := by
  cases bytes with
  | nil => cases read
  | cons initial following =>
      simp only [readHead] at read
      cases known : Form.ofInformation (initial.toNat % 32) with
      | none => simp [known] at read
      | some form =>
          simp only [known] at read
          split at read
          · next fits =>
              cases read
              have same : form.information (form.stored (initial.toNat % 32) following) =
                  initial.toNat % 32 :=
                Form.information_of_ofInformation known fun inline => if_pos inline
              have first : UInt8.ofNat (32 * (initial.toNat / 32) + initial.toNat % 32) =
                  initial := by
                rw [Nat.div_add_mod, UInt8.ofNat_toNat]
              have others : bigEndian form.width (form.stored (initial.toNat % 32) following) =
                  following.take form.width := by
                unfold Form.stored
                split
                · next inline =>
                    subst inline
                    rfl
                · have written := bigEndian_ofBigEndian (following.take form.width)
                  rwa [List.length_take_of_le fits.1] at written
              simp only [Head.bytes, same, first, others, List.cons_append,
                List.take_append_drop]
          · cases read

/-! ## Items -/

/-- An item: its header, the bytes of a string, and the items inside it.  The entries of
a map are keys and values in turn. -/
inductive Item where
  | node (head : Head) (content : List UInt8) (children : List Item)

/-- The byte that closes an item of indefinite length. -/
def breakByte : UInt8 := 255

/-- What follows a header. -/
inductive Layout where
  | content (length : Nat)
  | children (count : Nat)
  | untilBreak
  deriving DecidableEq, Repr

/-- The layout of an item.  Integers and tags have no indefinite form, a break is no
item, and of the simple values only false, true, null and undefined are known. -/
def Head.layout (head : Head) : Option Layout :=
  if head.form = .more then
    if 2 ≤ head.major ∧ head.major ≤ 5 then some .untilBreak else none
  else
    match head.major with
    | 2 | 3 => some (.content head.argument)
    | 4 => some (.children head.argument)
    | 5 => some (.children (2 * head.argument))
    | 6 => some (.children 1)
    | 7 =>
        -- Wider arguments are floating-point numbers.
        if head.form.width ≤ 1 → 20 ≤ head.argument ∧ head.argument < 24 then
          some (.children 0)
        else
          none
    | _ => some (.children 0)

namespace Item

def head : Item → Head
  | .node head _ _ => head

def content : Item → List UInt8
  | .node _ content _ => content

def children : Item → List Item
  | .node _ _ children => children

mutual

/-- The encoding of an item. -/
def bytes : Item → List UInt8
  | .node head content children =>
      head.bytes ++ content ++ bytesOfAll children ++
        if head.form = .more then [breakByte] else []

def bytesOfAll : List Item → List UInt8
  | [] => []
  | item :: rest => item.bytes ++ bytesOfAll rest

end

theorem bytesOfAll_eq (items : List Item) : bytesOfAll items = items.flatMap bytes := by
  induction items with
  | nil => rfl
  | cons item rest ih => rw [bytesOfAll, ih, List.flatMap_cons]

theorem bytes_node (head : Head) (content : List UInt8) (children : List Item) :
    (node head content children).bytes = head.bytes ++ content ++ children.flatMap bytes ++
      if head.form = .more then [breakByte] else [] := by
  rw [bytes, bytesOfAll_eq]

/-- A text is UTF-8, a string of indefinite length consists of strings of its kind, and a
map has as many values as keys. -/
def consistent (head : Head) (content : List UInt8) (children : List Item) : Bool :=
  (head.major != 3 || (utf8Decode content).isSome) &&
    (!(head.major == 2 || head.major == 3) ||
      children.all fun child => child.head.major == head.major && child.head.form != .more) &&
    (head.major != 5 || children.length % 2 == 0)

/-- An item of definite length with the bytes and items that its header announces. -/
def Definite (head : Head) (content : List UInt8) (children : List Item) : Prop :=
  head.layout = some (.content content.length) ∧ children = [] ∨
    head.layout = some (.children children.length) ∧ content = []

instance (head : Head) (content : List UInt8) (children : List Item) :
    Decidable (Definite head content children) :=
  decidable_of_iff (head.layout = some (.content content.length) ∧ children.isEmpty ∨
    head.layout = some (.children children.length) ∧ content = []) (by
      rw [Definite, List.isEmpty_iff])

end Item

/-! ## The reader -/

/-- A reader takes a value off the front of a byte string. -/
abbrev Reader (α : Type) := List UInt8 → Option (α × List UInt8)

section Repetition

variable {α : Type} (read : Reader α)

/-- Read a number of values. -/
def readMany : Nat → Reader (List α)
  | 0, bytes => some ([], bytes)
  | count + 1, bytes =>
      match read bytes with
      | none => none
      | some (first, rest) =>
          (readMany count rest).map fun others => (first :: others.1, others.2)

/-- Read values up to a break, at most as many as given. -/
def readUntilBreak : Nat → Reader (List α)
  | 0, _ => none
  | bound + 1, bytes =>
      if bytes.head? = some breakByte then
        some ([], bytes.tail)
      else
        match read bytes with
        | none => none
        | some (first, rest) =>
            (readUntilBreak bound rest).map fun others => (first :: others.1, others.2)

variable {read} {write : α → List UInt8}

/-- A reader that only reads what was written. -/
def Sound (read : Reader α) (write : α → List UInt8) : Prop :=
  ∀ bytes value rest, read bytes = some (value, rest) → bytes = write value ++ rest

/-- A value that is read wherever it was written. -/
def Readable (read : Reader α) (write : α → List UInt8) (value : α) : Prop :=
  ∀ rest, read (write value ++ rest) = some (value, rest)

variable {values : List α}

theorem Sound.readMany (sound : Sound read write) {count : Nat} {bytes rest : List UInt8}
    (taken : Cbor.readMany read count bytes = some (values, rest)) :
    values.length = count ∧ bytes = values.flatMap write ++ rest := by
  induction count generalizing bytes values with
  | zero =>
      cases taken
      exact ⟨rfl, rfl⟩
  | succ count ih =>
      rw [Cbor.readMany] at taken
      cases first : read bytes with
      | none => simp [first] at taken
      | some found =>
          obtain ⟨value, following⟩ := found
          simp only [first, Option.map_eq_some_iff] at taken
          obtain ⟨⟨others, last⟩, later, same⟩ := taken
          cases same
          obtain ⟨length, written⟩ := ih later
          refine ⟨by rw [List.length_cons, length], ?_⟩
          rw [sound bytes value following first, written, List.flatMap_cons, List.append_assoc]

theorem Sound.readUntilBreak (sound : Sound read write) {bound : Nat} {bytes rest : List UInt8}
    (taken : Cbor.readUntilBreak read bound bytes = some (values, rest)) :
    bytes = values.flatMap write ++ breakByte :: rest := by
  induction bound generalizing bytes values with
  | zero => cases taken
  | succ bound ih =>
      rw [Cbor.readUntilBreak] at taken
      split at taken
      · next closed =>
          cases taken
          exact List.eq_cons_of_mem_head? closed
      · cases first : read bytes with
        | none => simp [first] at taken
        | some found =>
            obtain ⟨value, following⟩ := found
            simp only [first, Option.map_eq_some_iff] at taken
            obtain ⟨⟨others, last⟩, later, same⟩ := taken
            cases same
            rw [sound bytes value following first, ih later, List.flatMap_cons,
              List.append_assoc]

theorem Readable.readMany (readable : ∀ value ∈ values, Readable read write value)
    (rest : List UInt8) :
    Cbor.readMany read values.length (values.flatMap write ++ rest) = some (values, rest) := by
  induction values with
  | nil => rfl
  | cons value values ih =>
      rw [List.forall_mem_cons] at readable
      simp only [List.length_cons, List.flatMap_cons, List.append_assoc, Cbor.readMany,
        readable.1 _, ih readable.2, Option.map_some]

end Repetition

/-- Read what follows a header: the bytes of a string, or the items inside. -/
def readBody (child : Reader Item) (head : Head) : Reader (List UInt8 × List Item) := fun bytes =>
  match head.layout with
  | none => none
  | some (.content length) =>
      if length ≤ bytes.length then
        some ((bytes.take length, []), bytes.drop length)
      else
        none
  | some (.children count) =>
      (readMany child count bytes).map fun read => (([], read.1), read.2)
  | some .untilBreak =>
      (readUntilBreak child bytes.length bytes).map fun read => (([], read.1), read.2)

/-- Read one item, given a reader for the items inside it. -/
def readNode (child : Reader Item) : Reader Item := fun bytes =>
  match readHead bytes with
  | none => none
  | some (head, rest) =>
      match readBody child head rest with
      | none => none
      | some ((content, children), rest) =>
          if Item.consistent head content children then
            some (.node head content children, rest)
          else
            none

/-- Read one item that is not nested deeper than given. -/
def readItem : Nat → Reader Item
  | 0 => fun _ => none
  | depth + 1 => readNode (readItem depth)

/-- Exactly the items of indefinite length are closed by a break. -/
theorem Head.form_of_layout {head : Head} {layout : Layout} (known : head.layout = some layout) :
    head.form = .more ↔ layout = .untilBreak := by
  unfold Head.layout at known
  split at known
  · next more =>
      split at known
      · cases known
        exact iff_of_true more rfl
      · cases known
  · next closed =>
      refine iff_of_false closed ?_
      rintro rfl
      split at known
      all_goals first | cases known | split at known <;> cases known

variable {children : List Item}

theorem Item.Definite.bytes {head : Head} {content : List UInt8}
    (definite : Definite head content children) :
    (node head content children).bytes =
      head.bytes ++ content ++ children.flatMap Item.bytes := by
  have closed : head.form ≠ .more := by
    intro more
    rcases definite with ⟨known, _⟩ | ⟨known, _⟩
    · cases (Head.form_of_layout known).mp more
    · cases (Head.form_of_layout known).mp more
  rw [bytes_node, if_neg closed, List.append_nil]

theorem readBody_sound {child : Reader Item} (sound : Sound child Item.bytes) {head : Head}
    {bytes rest content : List UInt8}
    (read : readBody child head bytes = some ((content, children), rest)) :
    bytes = content ++ children.flatMap Item.bytes ++
      (if head.form = .more then [breakByte] else []) ++ rest := by
  unfold readBody at read
  cases known : head.layout with
  | none => simp [known] at read
  | some layout =>
      have open_iff := Head.form_of_layout known
      cases layout with
      | content length =>
          simp only [known] at read
          split at read
          · cases read
            simp [open_iff, List.take_append_drop]
          · cases read
      | children count =>
          simp only [known, Option.map_eq_some_iff] at read
          obtain ⟨⟨items, last⟩, taken, same⟩ := read
          cases same
          simp [open_iff, (sound.readMany taken).2]
      | untilBreak =>
          simp only [known, Option.map_eq_some_iff] at read
          obtain ⟨⟨items, last⟩, taken, same⟩ := read
          cases same
          simp [open_iff, sound.readUntilBreak taken]

/-- What is read as an item is one. -/
theorem readItem_sound (depth : Nat) : Sound (readItem depth) Item.bytes := by
  induction depth with
  | zero => exact fun bytes item rest read => by cases read
  | succ depth ih =>
      intro bytes item rest read
      simp only [readItem, readNode] at read
      cases first : readHead bytes with
      | none => simp [first] at read
      | some found =>
          obtain ⟨head, following⟩ := found
          simp only [first] at read
          cases inner : readBody (readItem depth) head following with
          | none => simp [inner] at read
          | some body =>
              obtain ⟨⟨content, children⟩, last⟩ := body
              simp only [inner] at read
              split at read
              · cases read
                rw [bytes_of_readHead first, readBody_sound ih inner, Item.bytes_node]
                simp only [List.append_assoc]
              · cases read

/-- An item of definite length is read where it was written, if the items inside are. -/
theorem readable_node {depth : Nat} {head : Head} {content : List UInt8}
    (definite : Item.Definite head content children)
    (consistent : Item.consistent head content children = true)
    (readable : ∀ child ∈ children, Readable (readItem depth) Item.bytes child) :
    Readable (readItem (depth + 1)) Item.bytes (.node head content children) := by
  intro rest
  have body : readBody (readItem depth) head (content ++ children.flatMap Item.bytes ++ rest) =
      some ((content, children), rest) := by
    unfold readBody
    rcases definite with ⟨known, rfl⟩ | ⟨known, rfl⟩
    · simp [known]
    · simp [known, Readable.readMany readable]
  rw [definite.bytes, List.append_assoc, List.append_assoc]
  rw [List.append_assoc] at body
  simp only [readItem, readNode, readHead_bytes, body, consistent, if_true]

end Cosaci.Foundation.Cbor
