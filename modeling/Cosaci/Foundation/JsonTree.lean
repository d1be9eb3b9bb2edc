import Cosaci.Foundation.Text

/-!
# JSON documents

A JSON document as a tree, with numbers kept as they are written.  Readers of JSON
text are arbitrary; what is asked of one is that it reads back flat objects: objects
whose values are integers and strings without characters that need an escape.
-/

namespace Cosaci.Foundation

/-- A JSON document. -/
inductive JsonValue where
  | null
  | bool (value : Bool)
  | number (literal : List Char)
  | string (text : List Char)
  | array (items : List JsonValue)
  | object (members : List (List Char × JsonValue))

namespace JsonValue

/-- The member of an object; the last one where a name is repeated. -/
def get (value : JsonValue) (name : List Char) : Option JsonValue :=
  match value with
  | .object members => (members.reverse.find? fun member => member.1 = name).map Prod.snd
  | _ => none

def asStr : JsonValue → Option (List Char)
  | .string text => some text
  | _ => none

/-- The value at the end of a path of member names. -/
def walk (value : JsonValue) : List (List Char) → Option JsonValue
  | [] => some value
  | name :: path => (value.get name).bind fun member => member.walk path

end JsonValue

/-! ## Integers -/

namespace Json

def integer : Int → List Char
  | .ofNat value => number value
  | .negSucc value => '-' :: number (value + 1)

/-- The value of a run of digits. -/
def readDigits (digits : List Char) : Option Nat :=
  if digits ≠ [] ∧ digits.all Char.isDigit then some (Nat.ofDigitChars 10 digits 0) else none

/-- The value of an integer literal.  Minus zero is not an integer. -/
def readInteger : List Char → Option Int
  | '-' :: digits =>
      match readDigits digits with
      | some (value + 1) => some (.negSucc value)
      | _ => none
  | digits => (readDigits digits).map Int.ofNat

theorem readDigits_number (value : Nat) : readDigits (number value) = some value := by
  have digits : (number value).all Char.isDigit = true := by
    rw [List.all_eq_true]
    exact fun digit member => Nat.isDigit_of_mem_toDigits (by decide) (by decide) member
  rw [readDigits, if_pos ⟨Nat.toDigits_ne_nil, digits⟩, number, Nat.ofDigitChars_ten_toDigits]

theorem readInteger_integer (value : Int) : readInteger (integer value) = some value := by
  cases value with
  | negSucc value => simp only [integer, readInteger, readDigits_number]
  | ofNat value =>
      have unsigned : ∀ digits, number value ≠ '-' :: digits := by
        intro digits same
        have first : '-' ∈ number value := same ▸ List.mem_cons_self
        have digit := Nat.isDigit_of_mem_toDigits (by decide) (by decide) first
        revert digit
        decide
      rw [integer, readInteger]
      · rw [readDigits_number, Option.map_some]
      · exact unsigned

end Json

/-! ## Flat objects -/

inductive JsonScalar where
  | string (text : List Char)
  | integer (value : Int)
  deriving DecidableEq

namespace JsonScalar

def toValue : JsonScalar → JsonValue
  | .string text => .string text
  | .integer value => .number (Json.integer value)

def render : JsonScalar → List Char
  | .string text => '"' :: (text ++ ['"'])
  | .integer value => Json.integer value

end JsonScalar

/-- Characters that a JSON string holds without an escape. -/
def PlainText (text : List Char) : Prop :=
  ∀ character ∈ text, 32 ≤ character.toNat ∧ character ≠ '"' ∧ character ≠ '\\'

-- By name, because a search may find an instance that walks through all characters.
instance (text : List Char) : Decidable (PlainText text) :=
  List.decidableBAll _ text

/-- A value that is written without an escape, or an integer of at most 128 bits. -/
def JsonScalar.Plain : JsonScalar → Prop
  | .string text => PlainText text
  | .integer value => -2 ^ 127 ≤ value ∧ value < 2 ^ 128

/-- A member of a flat object without white space. -/
def renderMember (member : List Char × JsonScalar) : List Char :=
  '"' :: (member.1 ++ '"' :: ':' :: member.2.render)

def renderFlat (members : List (List Char × JsonScalar)) : List Char :=
  '\x7b' :: (Json.separated (members.map renderMember) ++ ['\x7d'])

/-- A reader of JSON texts and of bytes, with the texts of its errors, and its way to
print a number given by its literal. -/
structure JsonReader where
  fromStr : List Char → Except (List Char) JsonValue
  fromSlice : List UInt8 → Except (List Char) JsonValue
  showNumber : List Char → List Char

/-- The reader reads flat objects. -/
def JsonReader.ReadsFlat (reader : JsonReader) : Prop :=
  ∀ members : List (List Char × JsonScalar),
    (∀ member ∈ members, PlainText member.1 ∧ member.2.Plain) →
    reader.fromStr (renderFlat members) =
      .ok (.object (members.map fun member => (member.1, member.2.toValue)))

/-! ## A reader of flat objects -/

/-- The text up to the next quotation mark, and what follows the mark. -/
def readQuoted (text : List Char) : Option (List Char × List Char) :=
  match text.span (· ≠ '"') with
  | (quoted, '"' :: rest) => some (quoted, rest)
  | _ => none

def readScalar : List Char → Option (JsonValue × List Char)
  | '"' :: rest => (readQuoted rest).map fun (text, rest) => (.string text, rest)
  | text =>
      let (literal, rest) := text.span fun character => character.isDigit || character = '-'
      some (.number literal, rest)

/-- Members separated by commas, up to a closing brace at the end of the text. -/
def readMembers : Nat → List Char → Option (List (List Char × JsonValue))
  | fuel + 1, '"' :: text =>
      match readQuoted text with
      | some (name, ':' :: text) =>
          match readScalar text with
          | some (value, ['\x7d']) => some [(name, value)]
          | some (value, ',' :: text) =>
              (readMembers fuel text).map fun members => (name, value) :: members
          | _ => none
      | _ => none
  | _, _ => none

/-- A text that is a flat object. -/
def readFlat : List Char → Except (List Char) JsonValue
  | '\x7b' :: text =>
      if text = ['\x7d'] then
        .ok (.object [])
      else
        match readMembers text.length text with
        | some members => .ok (.object members)
        | none => .error "expected a flat object".toList
  | _ => .error "expected a flat object".toList

/-- Reads flat objects and nothing else. -/
def flatReader : JsonReader where
  fromStr := readFlat
  fromSlice bytes :=
    match utf8Decode bytes with
    | some text => readFlat text
    | none => .error "invalid unicode code point".toList
  showNumber literal := literal

theorem readQuoted_append {text : List Char} (plain : PlainText text) (rest : List Char) :
    readQuoted (text ++ '"' :: rest) = some (text, rest) := by
  have unquoted : ∀ character ∈ text, decide (character ≠ '"') = true := by
    intro character member
    exact decide_eq_true (plain character member).2.1
  have spanned : (text ++ '"' :: rest).span (· ≠ '"') = (text, '"' :: rest) := by
    rw [List.span_eq_takeWhile_dropWhile, List.takeWhile_append_of_pos unquoted,
      List.dropWhile_append_of_pos unquoted]
    simp
  simp only [readQuoted, spanned]

private theorem span_append {accept : Char → Bool} {front rest : List Char} {next : Char}
    (inside : ∀ character ∈ front, accept character = true) (outside : accept next = false) :
    (front ++ next :: rest).span accept = (front, next :: rest) := by
  rw [List.span_eq_takeWhile_dropWhile, List.takeWhile_append_of_pos inside,
    List.dropWhile_append_of_pos inside]
  simp [outside]

/-- The characters of integer literals. -/
private theorem mem_integer {value : Int} {character : Char}
    (member : character ∈ Json.integer value) :
    (character.isDigit || character = '-') = true := by
  cases value with
  | ofNat value =>
      rw [Nat.isDigit_of_mem_toDigits (by decide) (by decide) member, Bool.true_or]
  | negSucc value =>
      rcases List.mem_cons.mp member with rfl | member
      · rfl
      · rw [Nat.isDigit_of_mem_toDigits (by decide) (by decide) member, Bool.true_or]

private theorem exists_integer_eq_cons (value : Int) :
    ∃ first rest, Json.integer value = first :: rest := by
  cases value with
  | ofNat value => exact List.exists_cons_of_ne_nil Nat.toDigits_ne_nil
  | negSucc value => exact ⟨_, _, rfl⟩

theorem readScalar_render {scalar : JsonScalar} (plain : scalar.Plain) {next : Char}
    (rest : List Char) (ends : (next.isDigit || next = '-') = false) :
    readScalar (scalar.render ++ next :: rest) = some (scalar.toValue, next :: rest) := by
  cases scalar with
  | string text =>
      simp only [JsonScalar.render, List.cons_append, List.append_assoc, List.nil_append,
        readScalar, readQuoted_append plain, Option.map_some, JsonScalar.toValue]
  | integer value =>
      have spanned : (Json.integer value ++ next :: rest).span
          (fun character => character.isDigit || character = '-') =
            (Json.integer value, next :: rest) :=
        span_append (fun _ member => mem_integer member) ends
      obtain ⟨first, others, literal⟩ := exists_integer_eq_cons value
      have unquoted : first ≠ '"' := by
        have digit : (first.isDigit || first = '-') = true :=
          mem_integer (literal ▸ List.mem_cons_self : first ∈ Json.integer value)
        rintro rfl
        revert digit
        decide
      rw [JsonScalar.render, readScalar]
      · simp only [spanned, JsonScalar.toValue]
      · intro tail same
        rw [literal, List.cons_append] at same
        exact unquoted (List.cons.inj same).1

private theorem readMembers_last {name : List Char} {value : JsonScalar}
    (named : PlainText name) (valued : value.Plain) (fuel : Nat) :
    readMembers (fuel + 1) (renderMember (name, value) ++ ['\x7d']) =
      some [(name, value.toValue)] := by
  simp only [renderMember, List.cons_append, List.append_assoc, readMembers,
    readQuoted_append named,
    readScalar_render valued [] (by decide : ('\x7d'.isDigit || '\x7d' = '-') = false)]

private theorem readMembers_next {name : List Char} {value : JsonScalar}
    (named : PlainText name) (valued : value.Plain) (fuel : Nat) (text : List Char) :
    readMembers (fuel + 1) (renderMember (name, value) ++ ',' :: text) =
      (readMembers fuel text).map fun members => (name, value.toValue) :: members := by
  simp only [renderMember, List.cons_append, List.append_assoc, readMembers,
    readQuoted_append named,
    readScalar_render valued text (by decide : (','.isDigit || ',' = '-') = false)]

theorem readMembers_render {members : List (List Char × JsonScalar)} (nonempty : members ≠ [])
    (plain : ∀ member ∈ members, PlainText member.1 ∧ member.2.Plain) {fuel : Nat}
    (enough : members.length ≤ fuel) :
    readMembers fuel (Json.separated (members.map renderMember) ++ ['\x7d']) =
      some (members.map fun member => (member.1, member.2.toValue)) := by
  induction members generalizing fuel with
  | nil => exact False.elim (nonempty rfl)
  | cons member rest ih =>
      obtain ⟨fuel, rfl⟩ := Nat.exists_eq_add_one_of_ne_zero (Nat.ne_zero_of_lt enough)
      obtain ⟨⟨named, valued⟩, plainRest⟩ := List.forall_mem_cons.mp plain
      cases rest with
      | nil => exact readMembers_last named valued fuel
      | cons next rest =>
          have later := ih (by simp) plainRest (Nat.le_of_succ_le_succ enough)
          rw [List.map_cons, List.map_cons, Json.separated, List.append_assoc,
            List.cons_append, readMembers_next named valued, ← List.map_cons, later]
          rfl

private theorem length_le_length_separated (members : List (List Char × JsonScalar)) :
    members.length ≤ (Json.separated (members.map renderMember)).length := by
  induction members with
  | nil => exact Nat.le_refl 0
  | cons member rest ih =>
      cases rest with
      | nil => simp [Json.separated, renderMember]
      | cons next rest =>
          simp only [List.map_cons, Json.separated, List.length_append, List.length_cons] at ih ⊢
          omega

theorem flatReader_readsFlat : flatReader.ReadsFlat := by
  intro members plain
  cases members with
  | nil => rfl
  | cons member rest =>
      have enough := length_le_length_separated (member :: rest)
      rw [List.length_cons] at enough
      have more : Json.separated ((member :: rest).map renderMember) ++ ['\x7d'] ≠ ['\x7d'] := by
        intro same
        have lengths := congrArg List.length same
        rw [List.length_append] at lengths
        simp only [List.length_cons, List.length_nil] at lengths
        omega
      have fuel : (member :: rest).length ≤
          (Json.separated ((member :: rest).map renderMember) ++ ['\x7d']).length := by
        rw [List.length_append, List.length_cons]
        exact enough.trans (Nat.le_add_right _ _)
      simp only [flatReader, readFlat, renderFlat, if_neg more,
        readMembers_render (by simp) plain fuel]

theorem flatReader_fromSlice {members : List (List Char × JsonScalar)}
    (plain : ∀ member ∈ members, PlainText member.1 ∧ member.2.Plain) :
    flatReader.fromSlice (utf8 (renderFlat members)) =
      .ok (.object (members.map fun member => (member.1, member.2.toValue))) := by
  simp only [flatReader, utf8Decode_utf8]
  exact flatReader_readsFlat members plain

end Cosaci.Foundation
