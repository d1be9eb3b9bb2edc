import Cosaci.Foundation.TextRecords
import Cosaci.Foundation.TextSearch

/-!
# Internet addresses

Addresses of both families, the texts that the standard library of the modelled code
accepts for them, and the addresses that share their leading bits.  The standard library
reads bytes; no byte of a character beyond ASCII takes part in an address, so that
characters can be read instead.
-/

namespace Cosaci.Foundation

inductive IpAddr where
  | v4 (bits : BitVec 32)
  | v6 (bits : BitVec 128)
  deriving DecidableEq, Repr

/-! ## Texts -/

/-- The value of a digit in the given radix. -/
def toDigit (radix : Nat) (character : Char) : Option Nat :=
  let value :=
    if '0' ≤ character ∧ character ≤ '9' then some (character.toNat - '0'.toNat)
    else if 'a' ≤ character ∧ character ≤ 'z' then some (character.toNat - 'a'.toNat + 10)
    else if 'A' ≤ character ∧ character ≤ 'Z' then some (character.toNat - 'A'.toNat + 10)
    else none
  value.filter (· < radix)

/-- The digits at the front of a text, and what follows them. -/
def leadingDigits (radix : Nat) : List Char → List Nat × List Char
  | [] => ([], [])
  | character :: rest =>
      match toDigit radix character with
      | none => ([], character :: rest)
      | some digit =>
          let (digits, others) := leadingDigits radix rest
          (digit :: digits, others)

/-- A number at the front of a text: at least one digit, not too many, and in range. -/
def readNumber (radix maxDigits bound : Nat) (allowZeroPrefix : Bool) (text : List Char) :
    Option (Nat × List Char) :=
  let (digits, rest) := leadingDigits radix text
  let value := digits.foldl (fun result digit => result * radix + digit) 0
  if digits.isEmpty || maxDigits < digits.length || bound ≤ value then none
  else if !allowZeroPrefix && text.head? == some '0' && 1 < digits.length then none
  else some (value, rest)

def readGivenChar (target : Char) : List Char → Option (List Char)
  | [] => none
  | character :: rest => if character = target then some rest else none

/-- What the inner reader finds, behind a separator unless it comes first. -/
def readSeparator {α : Type} (separator : Char) (first : Bool)
    (inner : List Char → Option (α × List Char)) (text : List Char) : Option (α × List Char) :=
  if first then inner text else (readGivenChar separator text).bind inner

/-- Four octets, without leading zeros. -/
def readIpv4Addr (text : List Char) : Option (BitVec 32 × List Char) := do
  let octet (first : Bool) := readSeparator '.' first (readNumber 10 3 256 false)
  let (one, rest) ← octet true text
  let (two, rest) ← octet false rest
  let (three, rest) ← octet false rest
  let (four, rest) ← octet false rest
  return (BitVec.ofNat 8 one ++ BitVec.ofNat 8 two ++ BitVec.ofNat 8 three ++
    BitVec.ofNat 8 four, rest)

/-- Up to `limit` groups, the last two of which may be written as an IPv4 address; also
whether they were. -/
def readGroups (first : Bool) : Nat → List Char → List (BitVec 16) × Bool × List Char
  | 0, text => ([], false, text)
  | limit + 1, text =>
      let ipv4 := if 0 < limit then readSeparator ':' first readIpv4Addr text else none
      match ipv4 with
      | some (address, rest) => ([address.extractLsb' 16 16, address.extractLsb' 0 16], true, rest)
      | none =>
          match readSeparator ':' first (readNumber 16 4 65536 true) text with
          | some (group, rest) =>
              let (groups, embedded, rest) := readGroups false limit rest
              (BitVec.ofNat 16 group :: groups, embedded, rest)
          | none => ([], false, text)

/-- The address with the given groups. -/
def ofGroups (groups : List (BitVec 16)) : BitVec 128 :=
  groups.foldl (fun bits group => bits <<< 16 ||| group.setWidth 128) 0

/-- Eight groups, or fewer with two colons in the place of the missing ones. -/
def readIpv6Addr (text : List Char) : Option (BitVec 128 × List Char) :=
  let (head, headIpv4, rest) := readGroups true 8 text
  if head.length = 8 then some (ofGroups head, rest)
  else if headIpv4 then none
  else do
    let rest ← readGivenChar ':' rest
    let rest ← readGivenChar ':' rest
    let (tail, _, rest) := readGroups true (8 - (head.length + 1)) rest
    return (ofGroups (head ++ List.replicate (8 - head.length - tail.length) 0 ++ tail), rest)

def readIpAddr (text : List Char) : Option (IpAddr × List Char) :=
  match readIpv4Addr text with
  | some (bits, rest) => some (.v4 bits, rest)
  | none => (readIpv6Addr text).map fun (bits, rest) => (.v6 bits, rest)

/-- The address that a whole text stands for. -/
def parseIpAddr (text : List Char) : Option IpAddr :=
  match readIpAddr text with
  | some (address, []) => some address
  | _ => none

/-! ## Leading bits -/

variable {width : Nat}

/-- The two words have the same leading bits. -/
def AgreeOn (count : Nat) (first second : BitVec width) : Prop :=
  ∀ i < count, first.getMsbD i = second.getMsbD i

/-- Ones at the leading places. -/
def leadingMask (width count : Nat) : BitVec width :=
  BitVec.allOnes width <<< (width - count)

theorem getMsbD_leadingMask {count : Nat} (fits : count ≤ width) (i : Nat) :
    (leadingMask width count).getMsbD i = decide (i < count) := by
  rw [leadingMask, BitVec.getMsbD_shiftLeft, BitVec.getMsbD_allOnes, decide_eq_decide]
  omega

/-- Masked words are equal when the bits under the mask are. -/
theorem and_leadingMask_eq_iff {count : Nat} (fits : count ≤ width)
    (first second : BitVec width) :
    first &&& leadingMask width count = second &&& leadingMask width count ↔
      AgreeOn count first second := by
  constructor
  · intro same i inside
    have bit := congrArg (fun word => word.getMsbD i) same
    simpa [BitVec.getMsbD_and, getMsbD_leadingMask fits, inside] using bit
  · intro agree
    apply BitVec.eq_of_getMsbD_eq
    intro i _
    rw [BitVec.getMsbD_and, BitVec.getMsbD_and, getMsbD_leadingMask fits]
    by_cases inside : i < count
    · rw [agree i inside]
    · simp [inside]

theorem AgreeOn.mono {count fewer : Nat} {first second : BitVec width}
    (agree : AgreeOn count first second) (le : fewer ≤ count) : AgreeOn fewer first second :=
  fun i inside => agree i (inside.trans_le le)

end Cosaci.Foundation
