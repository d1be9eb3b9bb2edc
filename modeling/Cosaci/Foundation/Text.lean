import Cosaci.Foundation.Encoding
import Mathlib.Data.List.DropRight

/-!
# Line-oriented text files

Reading a byte file line by line as UTF-8 text, trimming, and the writer side of
compact JSON.  A line that is not valid UTF-8 is a read error; the last line need
not be terminated.
-/

namespace Cosaci.Foundation

/-- Decode UTF-8. -/
def utf8Decode (bytes : List UInt8) : Option (List Char) :=
  bytes.toByteArray.utf8Decode?.map Array.toList

@[simp] theorem utf8Decode_utf8 (characters : List Char) :
    utf8Decode (utf8 characters) = some characters := by
  have decoded : (utf8 characters).toByteArray.utf8Decode? = some characters.toArray :=
    List.utf8Decode?_utf8Encode
  rw [utf8Decode, decoded, Option.map_some, List.toList_toArray]

theorem utf8_injective : Function.Injective utf8 := by
  intro first second same
  have characters := congrArg utf8Decode same
  rwa [utf8Decode_utf8, utf8Decode_utf8, Option.some.injEq] at characters

theorem utf8_inj {first second : String}
    (same : utf8 first.toList = utf8 second.toList) : first = second :=
  String.toList_inj.mp (utf8_injective same)

@[simp] theorem utf8_append (first second : List Char) :
    utf8 (first ++ second) = utf8 first ++ utf8 second :=
  List.flatMap_append

/-- The bytes of joined texts are the joined bytes. -/
theorem utf8_intercalate (separator : List Char) (texts : List (List Char)) :
    utf8 (separator.intercalate texts) = (utf8 separator).intercalate (texts.map utf8) := by
  induction texts using List.twoStepInduction with
  | nil => rfl
  | singleton text =>
      rw [List.map_singleton, List.intercalate_singleton, List.intercalate_singleton]
  | cons_cons first second texts _ ih =>
      rw [List.intercalate_cons_cons, utf8_append, utf8_append, ih]
      exact List.intercalate_cons_cons.symm

/-- An element of joined lists is one of the separator or of a list. -/
theorem mem_intercalate {α : Type} {element : α} {separator : List α} {lists : List (List α)}
    (member : element ∈ separator.intercalate lists) :
    element ∈ separator ∨ ∃ list ∈ lists, element ∈ list := by
  induction lists using List.twoStepInduction with
  | nil => cases member
  | singleton list =>
      rw [List.intercalate_singleton] at member
      exact Or.inr ⟨list, List.mem_singleton_self list, member⟩
  | cons_cons first second lists _ ih =>
      rw [List.intercalate_cons_cons, List.mem_append, List.mem_append] at member
      rcases member with (here | separates) | later
      · exact Or.inr ⟨first, List.mem_cons_self, here⟩
      · exact Or.inl separates
      · rcases ih second later with separates | ⟨list, inside, here⟩
        · exact Or.inl separates
        · exact Or.inr ⟨list, List.mem_cons_of_mem first inside, here⟩

/-- The first byte of a character stands alone, or it is a leading byte. -/
theorem utf8EncodeChar_lead (character : Char) :
    ∃ lead more, String.utf8EncodeChar character = lead :: more ∧
      (lead.toNat < 128 ∧ more = [] ∨ 192 ≤ lead.toNat) := by
  simp only [String.utf8EncodeChar]
  split
  · refine ⟨_, _, rfl, Or.inl ⟨?_, rfl⟩⟩
    rw [UInt8.toNat_ofNat']
    omega
  · split
    · refine ⟨_, _, rfl, Or.inr ?_⟩
      rw [UInt8.toNat_ofNat']
      omega
    · split
      · refine ⟨_, _, rfl, Or.inr ?_⟩
        rw [UInt8.toNat_ofNat']
        omega
      · refine ⟨_, _, rfl, Or.inr ?_⟩
        rw [UInt8.toNat_ofNat']
        omega

/-- After ASCII characters, no text goes on with a continuation byte. -/
theorem utf8_ne_continuation {ascii : List UInt8}
    (plain : ascii.all (fun byte => decide (byte.toNat < 128)) = true)
    {byte : UInt8} (continues : 128 ≤ byte.toNat ∧ byte.toNat < 192) (rest : List UInt8)
    (characters : List Char) : utf8 characters ≠ ascii ++ byte :: rest := by
  induction ascii generalizing characters with
  | nil =>
      intro equal
      cases characters with
      | nil => cases equal
      | cons character characters =>
          obtain ⟨lead, more, encoded, kind⟩ := utf8EncodeChar_lead character
          rw [utf8, List.flatMap_cons, encoded, List.cons_append, List.nil_append,
            List.cons.injEq] at equal
          rw [equal.1] at kind
          omega
  | cons first ascii ih =>
      intro equal
      cases characters with
      | nil => cases equal
      | cons character characters =>
          obtain ⟨lead, more, encoded, kind⟩ := utf8EncodeChar_lead character
          rw [utf8, List.flatMap_cons, encoded, List.cons_append, List.cons_append,
            List.cons.injEq] at equal
          rw [List.all_cons, Bool.and_eq_true, decide_eq_true_iff] at plain
          rw [equal.1] at kind
          rcases kind with ⟨-, rfl⟩ | large
          · exact ih plain.2 characters equal.2
          · omega

/-- A byte of an encoded character is the character itself, unless it is beyond ASCII. -/
theorem mem_utf8EncodeChar {character : Char} {byte : UInt8}
    (inside : byte ∈ String.utf8EncodeChar character) :
    byte.toNat = character.toNat ∨ 128 ≤ byte.toNat := by
  simp only [String.utf8EncodeChar] at inside
  split_ifs at inside
  all_goals simp only [List.mem_cons, List.not_mem_nil, or_false] at inside
  · subst inside
    left
    rw [UInt8.toNat_ofNat', Char.toNat]
    omega
  · right
    rcases inside with rfl | rfl
    all_goals rw [UInt8.toNat_ofNat']; omega
  · right
    rcases inside with rfl | rfl | rfl
    all_goals rw [UInt8.toNat_ofNat']; omega
  · right
    rcases inside with rfl | rfl | rfl | rfl
    all_goals rw [UInt8.toNat_ofNat']; omega

/-- An ASCII byte of an encoded text stands for that character. -/
theorem mem_of_ascii_mem_utf8 {characters : List Char} {byte : UInt8}
    (ascii : byte.toNat < 128) (inside : byte ∈ utf8 characters) :
    Char.ofNat byte.toNat ∈ characters := by
  rcases List.mem_flatMap.mp inside with ⟨character, member, encoded⟩
  rcases mem_utf8EncodeChar encoded with same | beyond
  · rw [same, Char.ofNat_toNat]
    exact member
  · omega

/-- The byte of a line feed. -/
def newline : UInt8 := 10

theorem newline_notMem_utf8 {characters : List Char} (absent : '\n' ∉ characters) :
    newline ∉ utf8 characters := by
  intro member
  exact absent (mem_of_ascii_mem_utf8 (by decide) member)

/-! ## Lines -/

/-- The lines of a file, each with a mark telling whether it was terminated. -/
def splitLines : List UInt8 → List (List UInt8 × Bool)
  | [] => []
  | byte :: rest =>
      if byte = newline then
        ([], true) :: splitLines rest
      else
        match splitLines rest with
        | [] => [([byte], false)]
        | (line, terminated) :: lines => (byte :: line, terminated) :: lines

theorem splitLines_terminated {line : List UInt8} (rest : List UInt8) (plain : newline ∉ line) :
    splitLines (line ++ newline :: rest) = (line, true) :: splitLines rest := by
  induction line with
  | nil => simp [splitLines]
  | cons byte line ih =>
      rw [List.mem_cons, not_or] at plain
      rcases plain with ⟨other, plainRest⟩
      rw [List.cons_append, splitLines, if_neg (Ne.symm other), ih plainRest]

theorem splitLines_unterminated {line : List UInt8} (plain : newline ∉ line)
    (nonempty : line ≠ []) : splitLines line = [(line, false)] := by
  induction line with
  | nil => exact False.elim (nonempty rfl)
  | cons byte line ih =>
      rw [List.mem_cons, not_or] at plain
      rcases plain with ⟨other, plainRest⟩
      cases line with
      | nil => simp [splitLines, Ne.symm other]
      | cons next line =>
          rw [splitLines, if_neg (Ne.symm other), ih plainRest nofun]

/-- Drop the carriage return of a terminated line. -/
def stripReturn (line : List Char) (terminated : Bool) : List Char :=
  if terminated && line.getLast? == some '\r' then line.dropLast else line

/-- The text of a line, unless it is not UTF-8. -/
def readLine (line : List UInt8 × Bool) : Option (List Char) :=
  (utf8Decode line.1).map fun text => stripReturn text line.2

/-- The characters with the Unicode `White_Space` property. -/
def isWhiteSpace (character : Char) : Bool :=
  let code := character.toNat
  (9 ≤ code && code ≤ 13) || code == 32 || code == 0x85 || code == 0xA0 || code == 0x1680 ||
    (0x2000 ≤ code && code ≤ 0x200A) || code == 0x2028 || code == 0x2029 || code == 0x202F ||
    code == 0x205F || code == 0x3000

/-- Remove white space at both ends. -/
def trim (text : List Char) : List Char :=
  (text.dropWhile isWhiteSpace).rdropWhile isWhiteSpace

private theorem dropWhile_of_cons {first : Char} (rest : List Char)
    (visible : isWhiteSpace first = false) :
    (first :: rest).dropWhile isWhiteSpace = first :: rest := by
  rw [List.dropWhile_cons_of_neg (by rw [visible]; exact Bool.false_ne_true)]

/-- A text that begins and ends with visible characters is already trimmed. -/
theorem trim_eq_self {first last : Char} (middle : List Char)
    (visibleFirst : isWhiteSpace first = false) (visibleLast : isWhiteSpace last = false) :
    trim (first :: (middle ++ [last])) = first :: (middle ++ [last]) := by
  rw [trim, dropWhile_of_cons _ visibleFirst, ← List.cons_append]
  apply List.rdropWhile_concat_neg
  rw [visibleLast]
  exact Bool.false_ne_true

/-- Trimming a text that begins with a visible character leaves an initial part of
it. -/
theorem trim_take {first : Char} (rest : List Char) (visible : isWhiteSpace first = false) :
    ∃ count, trim (first :: rest) = (first :: rest).take count := by
  rw [trim, dropWhile_of_cons rest visible]
  exact ⟨_, List.prefix_iff_eq_take.mp (List.rdropWhile_prefix isWhiteSpace (first :: rest))⟩

/-! ## Compact JSON -/

namespace Json

/-- The characters standing for one character of a string. -/
def escape (character : Char) : List Char :=
  if character = '"' then ['\\', '"']
  else if character = '\\' then ['\\', '\\']
  else if character = '\n' then ['\\', 'n']
  else if character = '\r' then ['\\', 'r']
  else if character = '\t' then ['\\', 't']
  else if character.toNat = 8 then ['\\', 'b']
  else if character.toNat = 12 then ['\\', 'f']
  else if character.toNat < 32 then
    ['\\', 'u', '0', '0', Nat.digitChar (character.toNat / 16),
      Nat.digitChar (character.toNat % 16)]
  else [character]

def string (text : List Char) : List Char :=
  '"' :: (text.flatMap escape ++ ['"'])

def number (value : Nat) : List Char :=
  Nat.toDigits 10 value

/-- Items separated by commas. -/
def separated : List (List Char) → List Char
  | [] => []
  | [item] => item
  | item :: next :: rest => item ++ ',' :: separated (next :: rest)

def array (items : List (List Char)) : List Char :=
  '[' :: (separated items ++ [']'])

def object (fields : List (String × List Char)) : List Char :=
  let members := fields.map fun field => string field.1.toList ++ ':' :: field.2
  '\x7b' :: (separated members ++ ['\x7d'])

/-- The text stays on one line. -/
def Inline (text : List Char) : Prop := '\n' ∉ text

theorem inline_escape (character : Char) : Inline (escape character) := by
  have digits : ∀ value < 16, Nat.digitChar value ≠ '\n' := by decide
  unfold escape Inline
  repeat' split
  all_goals try decide
  · next control =>
      have high := digits (character.toNat / 16) (by omega)
      have low := digits (character.toNat % 16) (by omega)
      simp [Ne.symm high, Ne.symm low]
  · next plain _ _ _ _ _ =>
      simp only [List.mem_singleton]
      exact fun same => plain same.symm

theorem inline_string (text : List Char) : Inline (string text) := by
  unfold string Inline
  simp only [List.mem_cons, List.mem_append, List.not_mem_nil, or_false, not_or]
  refine ⟨by decide, ?_, by decide⟩
  intro member
  rcases List.mem_flatMap.mp member with ⟨character, _, escaped⟩
  exact inline_escape character escaped

theorem inline_number (value : Nat) : Inline (number value) := by
  intro member
  have digit := Nat.isDigit_of_mem_toDigits (by decide) (by decide) member
  revert digit
  decide

theorem inline_separated {items : List (List Char)} (inline : ∀ item ∈ items, Inline item) :
    Inline (separated items) := by
  induction items with
  | nil => exact List.not_mem_nil
  | cons item rest ih =>
      have here := inline item List.mem_cons_self
      have later := ih fun item member => inline item (List.mem_cons_of_mem _ member)
      cases rest with
      | nil => exact here
      | cons next rest =>
          unfold separated Inline
          simp only [List.mem_append, List.mem_cons, not_or]
          exact ⟨here, by decide, later⟩

theorem inline_array {items : List (List Char)} (inline : ∀ item ∈ items, Inline item) :
    Inline (array items) := by
  unfold array Inline
  simp only [List.mem_cons, List.mem_append, List.not_mem_nil, or_false, not_or]
  exact ⟨by decide, inline_separated inline, by decide⟩

theorem inline_object {fields : List (String × List Char)}
    (inline : ∀ field ∈ fields, Inline field.2) : Inline (object fields) := by
  unfold object Inline
  simp only [List.mem_cons, List.mem_append, List.not_mem_nil, or_false, not_or]
  refine ⟨by decide, inline_separated ?_, by decide⟩
  intro item member
  rcases List.mem_map.mp member with ⟨field, inside, rfl⟩
  unfold Inline
  simp only [List.mem_append, List.mem_cons, not_or]
  exact ⟨inline_string _, by decide, inline field inside⟩

end Json

end Cosaci.Foundation
