import Cosaci.Foundation.Text

/-!
# Records in lines of text

The lines of a text, the words of a line and the integers they stand for, as the standard
library of the modelled code reads them.
-/

namespace Cosaci.Foundation

/-! ## Lines -/

/-- The pieces between line feeds, each with a mark telling whether a line feed follows. -/
def splitTerminated : List Char → List (List Char × Bool)
  | [] => []
  | first :: rest =>
      if first = '\n' then
        ([], true) :: splitTerminated rest
      else
        match splitTerminated rest with
        | [] => [([first], false)]
        | (line, terminated) :: lines => (first :: line, terminated) :: lines

/-- The lines of a text, without their line feeds and the carriage returns before these. -/
def textLines (text : List Char) : List (List Char) :=
  (splitTerminated text).map fun line => stripReturn line.1 line.2

/-- Every line with a line feed behind it. -/
def unlines (lines : List (List Char)) : List Char :=
  lines.flatMap fun line => line ++ ['\n']

theorem splitTerminated_append {line : List Char} (plain : '\n' ∉ line) (rest : List Char) :
    splitTerminated (line ++ '\n' :: rest) = (line, true) :: splitTerminated rest := by
  induction line with
  | nil => simp [splitTerminated]
  | cons first line ih =>
      rw [List.mem_cons, not_or] at plain
      rw [List.cons_append, splitTerminated, if_neg (Ne.symm plain.1), ih plain.2]

theorem textLines_unlines {lines : List (List Char)} (plain : ∀ line ∈ lines, '\n' ∉ line) :
    textLines (unlines lines) = lines.map fun line => stripReturn line true := by
  induction lines with
  | nil => rfl
  | cons line rest ih =>
      have split : unlines (line :: rest) = line ++ '\n' :: unlines rest := by
        simp [unlines]
      have later := ih fun other member => plain other (List.mem_cons_of_mem _ member)
      rw [textLines] at later ⊢
      rw [split, splitTerminated_append (plain line List.mem_cons_self), List.map_cons, later,
        List.map_cons]

variable {text : List Char} {character : Char} {separator : Char → Bool} {word : List Char}
  {fields : List (List Char)} {digits : List Char} {bound : Nat}

/-- Behind a terminated text the lines begin anew. -/
theorem splitTerminated_append_of_ended (ended : ∀ last ∈ text.getLast?, last = '\n')
    (rest : List Char) :
    splitTerminated (text ++ rest) = splitTerminated text ++ splitTerminated rest := by
  induction text with
  | nil => rfl
  | cons first text ih =>
      rw [List.cons_append, splitTerminated, splitTerminated]
      cases text with
      | nil =>
          rw [ended first rfl, if_pos rfl, if_pos rfl]
          rfl
      | cons next others =>
          rw [ih ended]
          split
          · rfl
          · cases pieces : splitTerminated (next :: others) with
            | nil =>
                rw [splitTerminated] at pieces
                split at pieces
                · cases pieces
                · split at pieces <;> cases pieces
            | cons piece pieces => rfl

/-- Terminating the last line adds no line. -/
theorem splitTerminated_terminate (nonempty : text ≠ []) (unended : text.getLast? ≠ some '\n') :
    (splitTerminated (text ++ ['\n'])).map Prod.fst = (splitTerminated text).map Prod.fst := by
  induction text with
  | nil => exact absurd rfl nonempty
  | cons first text ih =>
      rw [List.cons_append, splitTerminated, splitTerminated]
      cases text with
      | nil =>
          have other : first ≠ '\n' := fun same => unended (congrArg some same)
          rw [if_neg other, if_neg other]
          rfl
      | cons next others =>
          have later := ih (List.cons_ne_nil _ _) unended
          split
          · rw [List.map_cons, List.map_cons, later]
          · cases long : splitTerminated (next :: others ++ ['\n']) with
            | nil =>
                rw [long, List.map_nil, eq_comm, List.map_eq_nil_iff] at later
                rw [later]
            | cons piece pieces =>
                cases short : splitTerminated (next :: others) with
                | nil =>
                    rw [long, short] at later
                    cases later
                | cons piece' pieces' =>
                    rw [long, short, List.map_cons, List.map_cons, List.cons.injEq] at later
                    rw [List.map_cons, List.map_cons, later.1, later.2]

theorem newline_notMem_of_mem_splitTerminated {line : List Char × Bool}
    (member : line ∈ splitTerminated text) : '\n' ∉ line.1 := by
  induction text generalizing line with
  | nil => cases member
  | cons first rest ih =>
      rw [splitTerminated] at member
      split at member
      · rcases List.mem_cons.mp member with rfl | later
        · exact List.not_mem_nil
        · exact ih later
      · next other =>
          cases pieces : splitTerminated rest with
          | nil =>
              rw [pieces] at member
              obtain rfl := List.mem_singleton.mp member
              simpa using Ne.symm other
          | cons next lines =>
              rw [pieces] at member ih
              rcases List.mem_cons.mp member with rfl | later
              · rw [List.mem_cons, not_or]
                exact ⟨Ne.symm other, ih List.mem_cons_self⟩
              · exact ih (List.mem_cons_of_mem _ later)

theorem newline_notMem_of_mem_textLines {text line : List Char}
    (member : line ∈ textLines text) : '\n' ∉ line := by
  obtain ⟨piece, inside, rfl⟩ := List.mem_map.mp member
  have plain := newline_notMem_of_mem_splitTerminated inside
  unfold stripReturn
  split
  · exact fun found => plain (List.mem_of_mem_dropLast found)
  · exact plain

/-! ## Words -/

/-- Remove white space at the beginning. -/
def trimStart (text : List Char) : List Char :=
  text.dropWhile isWhiteSpace

/-- The characters that separate words of ASCII text. -/
def isAsciiWhiteSpace (character : Char) : Bool :=
  character = ' ' || character = '\t' || character = '\n' || character.toNat = 12 ||
    character = '\r'

/-- The pieces between separators, without the empty ones. -/
def words (separator : Char → Bool) (text : List Char) : List (List Char) :=
  (text.splitOnP separator).filter fun piece => !piece.isEmpty

theorem isWhiteSpace_of_isAsciiWhiteSpace (ascii : isAsciiWhiteSpace character = true) :
    isWhiteSpace character = true := by
  simp only [isAsciiWhiteSpace, Bool.or_eq_true, decide_eq_true_eq] at ascii
  rcases ascii with (((rfl | rfl) | rfl) | code) | rfl
  · decide
  · decide
  · decide
  · simp [isWhiteSpace, code]
  · decide

theorem eq_false_of_mem_head?_dropWhile {blank : Char → Bool} {first : Char}
    (found : first ∈ (text.dropWhile blank).head?) : blank first = false := by
  have stops := List.head?_dropWhile_not blank text
  rw [Option.mem_def.mp found] at stops
  simpa using stops

/-- What follows a word begins with a separator. -/
theorem separator_of_mem_head?_dropWhile {next : Char}
    (found : next ∈ (text.dropWhile fun character => !separator character).head?) :
    separator next = true := by
  have stops := eq_false_of_mem_head?_dropWhile found
  simpa using stops

/-- The first word of a text that begins with one. -/
theorem head?_words {first : Char} (rest : List Char) (visible : separator first = false) :
    (words separator (first :: rest)).head? =
      some ((first :: rest).takeWhile fun character => !separator character) := by
  have begins : (first :: rest).takeWhile (fun character => !separator character) =
      first :: rest.takeWhile fun character => !separator character := by
    rw [List.takeWhile_cons_of_pos (by rw [visible]; rfl)]
  have solid : ∀ character ∈ (first :: rest).takeWhile (fun character => !separator character),
      separator character = false := by
    intro character member
    simpa using List.mem_takeWhile_imp member
  have whole := List.takeWhile_append_dropWhile (p := fun character => !separator character)
    (l := first :: rest)
  cases stop : (first :: rest).dropWhile (fun character => !separator character) with
  | nil =>
      rw [stop, List.append_nil] at whole
      rw [whole] at solid ⊢
      rw [words, List.splitOnP_eq_singleton solid]
      rfl
  | cons next tail =>
      have separates : separator next = true := by
        apply separator_of_mem_head?_dropWhile
        rw [stop]
        rfl
      rw [stop] at whole
      generalize (first :: rest).takeWhile (fun character => !separator character) = word at *
      rw [words, ← whole, List.splitOnP_append_cons_of_forall_mem solid next separates,
        List.filter_cons_of_pos (by rw [begins]; rfl)]
      rfl

theorem words_of_solid (nonempty : word ≠ [])
    (solid : ∀ character ∈ word, separator character = false) : words separator word = [word] := by
  rw [words, List.splitOnP_eq_singleton solid, List.filter_cons_of_pos (by simpa using nonempty),
    List.filter_nil]

theorem words_append_cons (nonempty : word ≠ [])
    (solid : ∀ character ∈ word, separator character = false) {next : Char}
    (separates : separator next = true) (rest : List Char) :
    words separator (word ++ next :: rest) = word :: words separator rest := by
  rw [words, List.splitOnP_append_cons_of_forall_mem solid next separates,
    List.filter_cons_of_pos (by simpa using nonempty)]
  rfl

theorem takeWhile_eq_nil_of_head (separates : ∀ first ∈ text.head?, separator first = true) :
    text.takeWhile (fun character => !separator character) = [] := by
  cases text with
  | nil => rfl
  | cons first rest =>
      rw [List.takeWhile_cons_of_neg]
      rw [separates first rfl]
      exact Bool.false_ne_true

/-- What trimming takes from the end is white space. -/
theorem exists_trim_append (text : List Char) :
    ∃ tail, trimStart text = trim text ++ tail ∧
      ∀ character ∈ tail, isWhiteSpace character = true := by
  refine ⟨(trimStart text).rtakeWhile isWhiteSpace, ?_, ?_⟩
  · exact List.rdropWhile_append_rtakeWhile.symm
  · intro character member
    exact List.mem_rtakeWhile_imp member

/-- A word of ASCII text that is free of white space is also the first word by the wider
notion of white space, and before the text is trimmed at its end. -/
theorem head?_words_trimStart {text word : List Char}
    (found : (words isAsciiWhiteSpace (trim text)).head? = some word)
    (solid : ∀ character ∈ word, isWhiteSpace character = false) :
    (words isWhiteSpace (trimStart text)).head? = some word := by
  obtain ⟨tail, whole, blank⟩ := exists_trim_append text
  cases trimmed : trim text with
  | nil =>
      rw [trimmed] at found
      cases found
  | cons first rest =>
      have visible : isWhiteSpace first = false := by
        apply eq_false_of_mem_head?_dropWhile
        have start : trimStart text = first :: (rest ++ tail) := by rw [whole, trimmed]; rfl
        rw [← trimStart, start]
        rfl
      have ascii : isAsciiWhiteSpace first = false := by
        rw [← Bool.not_eq_true]
        intro separates
        rw [isWhiteSpace_of_isAsciiWhiteSpace separates] at visible
        cases visible
      rw [trimmed, head?_words rest ascii] at found
      obtain rfl := Option.some.inj found
      have split := List.takeWhile_append_dropWhile
        (p := fun character => !isAsciiWhiteSpace character) (l := first :: rest)
      generalize (first :: rest).takeWhile (fun character => !isAsciiWhiteSpace character) =
        word at split solid
      rw [whole, trimmed, List.cons_append, head?_words _ visible, ← List.cons_append, ← split,
        List.append_assoc, List.takeWhile_append_of_pos (by simpa using solid),
        takeWhile_eq_nil_of_head, List.append_nil]
      intro next ends
      cases stop : (first :: rest).dropWhile (fun character => !isAsciiWhiteSpace character) with
      | nil =>
          rw [stop, List.nil_append] at ends
          exact blank next (List.mem_of_mem_head? ends)
      | cons separator others =>
          apply isWhiteSpace_of_isAsciiWhiteSpace
          apply separator_of_mem_head?_dropWhile
          rw [stop] at ends ⊢
          exact ends

/-- Separators at the end make no words. -/
theorem words_append_separators (text : List Char) {tail : List Char}
    (blank : ∀ character ∈ tail, separator character = true) :
    words separator (text ++ tail) = words separator text := by
  induction tail generalizing text with
  | nil => rw [List.append_nil]
  | cons next rest ih =>
      rw [List.forall_mem_cons] at blank
      have none : words separator rest = [] := by
        have behind := ih [] blank.2
        rwa [List.nil_append] at behind
      have last : words separator (text ++ next :: rest) = words separator text ++
          words separator rest := by
        rw [words, List.splitOnP_append_cons _ _ blank.1, List.filter_append]
        rfl
      rw [last, none, List.append_nil]

/-- The words of a text are those of the text without white space around it. -/
theorem words_trimStart (text : List Char) :
    words isWhiteSpace (trimStart text) = words isWhiteSpace (trim text) := by
  obtain ⟨tail, whole, blank⟩ := exists_trim_append text
  rw [whole, words_append_separators (trim text) blank]

theorem trim_append_return (text : List Char) : trim (text ++ ['\r']) = trim text := by
  have blank : isWhiteSpace '\r' = true := by decide
  unfold trim
  rw [List.dropWhile_append]
  split
  · next empty =>
      rw [List.isEmpty_iff.mp empty, List.dropWhile_cons_of_pos blank]
      rfl
  · exact List.rdropWhile_concat_pos _ _ _ blank

/-- A carriage return at the end of a line does not matter once it is trimmed. -/
theorem trim_stripReturn (line : List Char) (terminated : Bool) :
    trim (stripReturn line terminated) = trim line := by
  unfold stripReturn
  split
  · next ends =>
      rw [Bool.and_eq_true, beq_iff_eq] at ends
      obtain ⟨front, rfl⟩ := List.getLast?_eq_some_iff.mp ends.2
      rw [List.dropLast_concat, trim_append_return]
  · rfl

theorem map_trim_textLines (text : List Char) :
    (textLines text).map trim = (splitTerminated text).map fun line => trim line.1 := by
  rw [textLines, List.map_map]
  apply List.map_congr_left
  intro line _
  exact trim_stripReturn line.1 line.2

/-! ## Lines of words -/

/-- Words with a space between them. -/
def spaced : List (List Char) → List Char
  | [] => []
  | [word] => word
  | word :: next :: rest => word ++ ' ' :: spaced (next :: rest)

/-- A word without white space. -/
def Solid (word : List Char) : Prop :=
  word ≠ [] ∧ ∀ character ∈ word, isWhiteSpace character = false

theorem Solid.ascii (solid : Solid word) :
    ∀ character ∈ word, isAsciiWhiteSpace character = false := by
  intro character member
  rw [← Bool.not_eq_true]
  intro separates
  have visible := solid.2 character member
  rw [isWhiteSpace_of_isAsciiWhiteSpace separates] at visible
  cases visible

/-- The words of a line, by whatever notion of white space they are free of. -/
theorem words_spaced_of (space : separator ' ' = true)
    (solid : ∀ field ∈ fields, field ≠ [] ∧ ∀ character ∈ field, separator character = false) :
    words separator (spaced fields) = fields := by
  induction fields with
  | nil => rfl
  | cons field rest ih =>
      have here := solid field List.mem_cons_self
      have later := ih fun other member => solid other (List.mem_cons_of_mem _ member)
      cases rest with
      | nil => exact words_of_solid here.1 here.2
      | cons next rest => rw [spaced, words_append_cons here.1 here.2 space, later]

theorem words_spaced (solid : ∀ field ∈ fields, Solid field) :
    words isAsciiWhiteSpace (spaced fields) = fields :=
  words_spaced_of (by decide) fun field member =>
    ⟨(solid field member).1, (solid field member).ascii⟩

/-- What is no space lies in one of the words. -/
theorem mem_spaced (member : character ∈ spaced fields) :
    character = ' ' ∨ ∃ field ∈ fields, character ∈ field := by
  induction fields with
  | nil => cases member
  | cons field rest ih =>
      cases rest with
      | nil => exact Or.inr ⟨field, List.mem_cons_self, member⟩
      | cons next rest =>
          rw [spaced, List.mem_append, List.mem_cons] at member
          rcases member with here | space | later
          · exact Or.inr ⟨field, List.mem_cons_self, here⟩
          · exact Or.inl space
          · exact (ih later).imp_right fun ⟨other, inside, found⟩ =>
              ⟨other, List.mem_cons_of_mem _ inside, found⟩

theorem newline_notMem_spaced (solid : ∀ field ∈ fields, Solid field) : '\n' ∉ spaced fields := by
  intro member
  rcases mem_spaced member with space | ⟨field, inside, found⟩
  · revert space
    decide
  · have visible := (solid field inside).2 _ found
    revert visible
    decide

theorem head?_spaced {field : List Char} (nonempty : field ≠ []) (rest : List (List Char)) :
    (spaced (field :: rest)).head? = field.head? := by
  cases rest with
  | nil => rfl
  | cons next rest => rw [spaced, List.head?_append_of_ne_nil _ nonempty]

theorem getLast?_spaced (solid : ∀ field ∈ fields, Solid field) :
    ∀ last ∈ (spaced fields).getLast?, isWhiteSpace last = false := by
  induction fields with
  | nil => exact nofun
  | cons field rest ih =>
      have here := solid field List.mem_cons_self
      have later := ih fun other member => solid other (List.mem_cons_of_mem _ member)
      cases rest with
      | nil => exact fun last found => here.2 last (List.mem_of_getLast? found)
      | cons next rest =>
          have more : spaced (next :: rest) ≠ [] := by
            intro empty
            have begins := head?_spaced (solid next (by simp)).1 rest
            rw [empty] at begins
            exact (solid next (by simp)).1 (List.head?_eq_none_iff.mp begins.symm)
          rw [spaced, ← List.singleton_append, ← List.append_assoc,
            List.getLast?_append_of_ne_nil _ more]
          exact later

theorem trim_of_visible (first : ∀ character ∈ text.head?, isWhiteSpace character = false)
    (last : ∀ character ∈ text.getLast?, isWhiteSpace character = false) : trim text = text := by
  cases text with
  | nil => rfl
  | cons start rest =>
      have visible : ¬isWhiteSpace ((start :: rest).getLast (List.cons_ne_nil _ _)) = true := by
        rw [last _ (List.getLast?_eq_some_getLast _)]
        exact Bool.false_ne_true
      rw [trim, List.dropWhile_cons_of_neg (by rw [first start rfl]; exact Bool.false_ne_true)]
      exact List.rdropWhile_eq_self_iff.mpr fun _ => visible

theorem trim_spaced (solid : ∀ field ∈ fields, Solid field) :
    trim (spaced fields) = spaced fields := by
  apply trim_of_visible
  · intro character found
    cases fields with
    | nil => cases found
    | cons field rest =>
        have here := solid field List.mem_cons_self
        rw [head?_spaced here.1] at found
        exact here.2 character (List.mem_of_mem_head? found)
  · exact getLast?_spaced solid

/-! ## Integers -/

inductive IntError where
  | empty
  | invalidDigit
  | posOverflow
  | negOverflow
  deriving DecidableEq, Repr

def IntError.display : IntError → List Char
  | .empty => "cannot parse integer from empty string".toList
  | .invalidDigit => "invalid digit found in string".toList
  | .posOverflow => "number too large to fit in target type".toList
  | .negOverflow => "number too small to fit in target type".toList

/-- Read digits from the left, as long as the value stays below the bound. -/
def readDecimal (bound : Nat) (overflow : IntError) (value : Nat) :
    List Char → Except IntError Nat
  | [] => .ok value
  | digit :: rest =>
      if digit.isDigit then
        let next := value * 10 + (digit.toNat - '0'.toNat)
        if next < bound then readDecimal bound overflow next rest else .error overflow
      else .error .invalidDigit

/-- An unsigned integer below the bound; a plus sign is allowed. -/
def readUnsigned (bound : Nat) : List Char → Except IntError Nat
  | [] => .error .empty
  | ['+'] => .error .invalidDigit
  | '+' :: digits => readDecimal bound .posOverflow 0 digits
  | digits => readDecimal bound .posOverflow 0 digits

/-- A signed integer whose absolute value is at most the bound, and below it if it is not
negative. -/
def readSigned (bound : Nat) : List Char → Except IntError Int
  | [] => .error .empty
  | ['+'] => .error .invalidDigit
  | ['-'] => .error .invalidDigit
  | '-' :: digits =>
      (readDecimal (bound + 1) .negOverflow 0 digits).map fun value => -(value : Int)
  | '+' :: digits => (readDecimal bound .posOverflow 0 digits).map Int.ofNat
  | digits => (readDecimal bound .posOverflow 0 digits).map Int.ofNat

def parseU64 (text : List Char) : Except IntError UInt64 :=
  (readUnsigned (2 ^ 64) text).map UInt64.ofNat

def parseI64 (text : List Char) : Except IntError Int64 :=
  (readSigned (2 ^ 63) text).map Int64.ofInt

variable {overflow : IntError}

theorem isDigit_of_readDecimal {bound value result : Nat}
    (read : readDecimal bound overflow value digits = .ok result) :
    ∀ digit ∈ digits, digit.isDigit = true := by
  induction digits generalizing value with
  | nil => exact fun _ member => absurd member List.not_mem_nil
  | cons digit rest ih =>
      rw [readDecimal] at read
      split at read
      · next numeral =>
          dsimp only at read
          split at read
          · intro other member
            rcases List.mem_cons.mp member with rfl | later
            · exact numeral
            · exact ih read other later
          · cases read
      · cases read

theorem le_ofDigitChars (digits : List Char) (value : Nat) :
    value ≤ Nat.ofDigitChars 10 digits value := by
  induction digits generalizing value with
  | nil => exact Nat.le_refl value
  | cons digit rest ih =>
      rw [Nat.ofDigitChars_cons]
      exact Nat.le_trans (by omega) (ih _)

/-- Digits that stand for a number below the bound are read. -/
theorem readDecimal_of_isDigit {bound value : Nat}
    (numeral : ∀ digit ∈ digits, digit.isDigit = true)
    (small : Nat.ofDigitChars 10 digits value < bound) :
    readDecimal bound overflow value digits = .ok (Nat.ofDigitChars 10 digits value) := by
  induction digits generalizing value with
  | nil => rfl
  | cons digit rest ih =>
      rw [Nat.ofDigitChars_cons, Nat.mul_comm] at small ⊢
      have next := (le_ofDigitChars rest _).trans_lt small
      rw [readDecimal, if_pos (numeral digit List.mem_cons_self)]
      dsimp only
      rw [if_pos next]
      exact ih (fun other member => numeral other (List.mem_cons_of_mem _ member)) small

theorem isWhiteSpace_eq_false_of_isDigit (digit : character.isDigit = true) :
    isWhiteSpace character = false := by
  have code : 48 ≤ character.toNat ∧ character.toNat ≤ 57 := by
    simpa [Char.isDigit, UInt32.le_iff_toNat_le] using digit
  simp only [isWhiteSpace]
  rw [Bool.eq_false_iff]
  intro space
  simp only [Bool.or_eq_true, Bool.and_eq_true, decide_eq_true_eq, beq_iff_eq] at space
  omega

theorem readUnsigned_of_head (nonempty : text ≠ []) (unsigned : text.head? ≠ some '+') :
    readUnsigned bound text = readDecimal bound .posOverflow 0 text := by
  unfold readUnsigned
  split
  · exact absurd rfl nonempty
  · exact absurd rfl unsigned
  · exact absurd rfl unsigned
  · rfl

theorem isDigit_of_mem_number {value : Nat} {digit : Char} (member : digit ∈ Json.number value) :
    digit.isDigit = true :=
  Nat.isDigit_of_mem_toDigits (by decide) (by decide) member

theorem number_ne_nil (value : Nat) : Json.number value ≠ [] :=
  Nat.toDigits_ne_nil

theorem solid_number (value : Nat) : Solid (Json.number value) :=
  ⟨number_ne_nil value, fun _ member =>
    isWhiteSpace_eq_false_of_isDigit (isDigit_of_mem_number member)⟩

/-- A printed number is read back. -/
theorem parseU64_number (value : UInt64) : parseU64 (Json.number value.toNat) = .ok value := by
  have digits : Nat.ofDigitChars 10 (Json.number value.toNat) 0 = value.toNat :=
    Nat.ofDigitChars_ten_toDigits
  have unsigned : (Json.number value.toNat).head? ≠ some '+' := by
    intro plus
    have digit := isDigit_of_mem_number (List.mem_of_mem_head? plus)
    revert digit
    decide
  rw [parseU64, readUnsigned_of_head (number_ne_nil _) unsigned,
    readDecimal_of_isDigit (fun _ => isDigit_of_mem_number) (digits.trans_lt value.toNat_lt),
    digits]
  exact congrArg Except.ok UInt64.ofNat_toNat

/-- A word that stands for a number holds digits and a plus sign at most. -/
theorem digit_or_plus_of_parseU64 {value : UInt64} (parsed : parseU64 text = .ok value) :
    ∀ character ∈ text, character.isDigit = true ∨ character = '+' := by
  unfold parseU64 at parsed
  cases read : readUnsigned (2 ^ 64) text with
  | error error =>
      rw [read] at parsed
      cases parsed
  | ok number =>
      intro character member
      unfold readUnsigned at read
      split at read
      · cases read
      · cases read
      · rcases List.mem_cons.mp member with rfl | later
        · exact Or.inr rfl
        · exact Or.inl (isDigit_of_readDecimal read character later)
      · exact Or.inl (isDigit_of_readDecimal read character member)

/-- The digits of a number are read back. -/
theorem readDecimal_number {bound value : Nat} (small : value < bound) :
    readDecimal bound overflow 0 (Json.number value) = .ok value := by
  have digits : Nat.ofDigitChars 10 (Json.number value) 0 = value :=
    Nat.ofDigitChars_ten_toDigits
  rw [readDecimal_of_isDigit (fun _ => isDigit_of_mem_number) (digits.trans_lt small), digits]

theorem head?_number (value : Nat) {sign : Char} (other : sign.isDigit = false) :
    (Json.number value).head? ≠ some sign := by
  intro found
  have digit := isDigit_of_mem_number (List.mem_of_mem_head? found)
  rw [other] at digit
  cases digit

theorem readSigned_of_head (nonempty : text ≠ []) (plus : text.head? ≠ some '+')
    (minus : text.head? ≠ some '-') :
    readSigned bound text = (readDecimal bound .posOverflow 0 text).map Int.ofNat := by
  unfold readSigned
  split
  · exact absurd rfl nonempty
  · exact absurd rfl plus
  · exact absurd rfl minus
  · exact absurd rfl minus
  · exact absurd rfl plus
  · rfl

theorem readSigned_minus (nonempty : digits ≠ []) :
    readSigned bound ('-' :: digits) =
      (readDecimal (bound + 1) .negOverflow 0 digits).map fun value => -(value : Int) := by
  cases digits with
  | nil => exact absurd rfl nonempty
  | cons digit rest => rfl

end Cosaci.Foundation
