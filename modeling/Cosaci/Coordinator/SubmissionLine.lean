import Cosaci.Coordinator.Submission
import Cosaci.Foundation.JsonTree

/-!
# Parsing submission lines

`parse_submission_line` and the derived readers of the two wire shapes.  A record is
read from an object, whose unknown members are ignored and whose known ones occur at
most once, or from an array that lists its fields in order.
-/

namespace Cosaci.Coordinator

open Foundation Cosaci.Core State

/-! ## Derived readers -/

/-- The value of one field of a record, if the document has one. -/
def fieldOf (name : List Char) (position : Nat) : JsonValue → Option (Option JsonValue)
  | .object members =>
      match members.filter fun member => member.1 = name with
      | [] => some none
      | [member] => some (some member.2)
      | _ => none
  | .array items => some items[position]?
  | _ => none

/-- A document from which a record with the given number of fields can be read. -/
def isRecord (fields : Nat) : JsonValue → Bool
  | .object _ => true
  | .array items => items.length ≤ fields
  | _ => false

/-- A field that has to be there. -/
def required {α : Type} (read : JsonValue → Option α) (field : Option (Option JsonValue)) :
    Option α :=
  field.bind fun value => value.bind read

/-- A field with a default. -/
def defaulted {α : Type} (default : α) (read : JsonValue → Option α)
    (field : Option (Option JsonValue)) : Option α :=
  field.bind fun value =>
    match value with
    | none => some default
    | some value => read value

/-- An optional value; `null` stands for none. -/
def nullable {α : Type} (read : JsonValue → Option α) : JsonValue → Option (Option α)
  | .null => some none
  | value => (read value).map some

def readText : JsonValue → Option (List Char) :=
  JsonValue.asStr

/-- An integer between two bounds. -/
def readBetween (low high : Int) : JsonValue → Option Int
  | .number literal => (Json.readInteger literal).filter fun value => low ≤ value ∧ value ≤ high
  | _ => none

def readI32 (value : JsonValue) : Option Int32 :=
  (readBetween (-2 ^ 31) (2 ^ 31 - 1) value).map Int32.ofInt

def readU32 (value : JsonValue) : Option UInt32 :=
  (readBetween 0 (2 ^ 32 - 1) value).map fun value => UInt32.ofNat value.toNat

def readU64 (value : JsonValue) : Option UInt64 :=
  (readBetween 0 (2 ^ 64 - 1) value).map fun value => UInt64.ofNat value.toNat

def readU128 (value : JsonValue) : Option (BitVec 128) :=
  (readBetween 0 (2 ^ 128 - 1) value).map fun value => BitVec.ofNat 128 value.toNat

/-- A variant without fields: its name, or an object from its name to `null`. -/
def JobKind.read : JsonValue → Option JobKind
  | .string name => ofName name
  | .object [(name, .null)] => ofName name
  | _ => none
where
  ofName (name : List Char) : Option JobKind :=
    if name = "add".toList then some .add
    else if name = "mul".toList then some .mul
    else none

/-- `default_deadline_secs` -/
def defaultDeadlineSecs : UInt32 := 60

/-- The fields for the gate, from the given position on. -/
def AuthFields.read (position : Nat) (value : JsonValue) : Option AuthFields := do
  let tenantId ← defaulted none (nullable readU64) (fieldOf "tenant_id".toList position value)
  let nonce ← defaulted none (nullable readU128) (fieldOf "nonce".toList (position + 1) value)
  let pubkeyHex ← defaulted none (nullable readText)
    (fieldOf "pubkey_hex".toList (position + 2) value)
  let signatureHex ← defaulted none (nullable readText)
    (fieldOf "signature_hex".toList (position + 3) value)
  return ⟨tenantId, nonce, pubkeyHex, signatureHex⟩

def LegacyJobSubmission.read (value : JsonValue) : Option LegacyJobSubmission :=
  if isRecord 8 value then do
    let kind ← required JobKind.read (fieldOf "kind".toList 0 value)
    let a ← required readI32 (fieldOf "a".toList 1 value)
    let b ← required readI32 (fieldOf "b".toList 2 value)
    let deadlineSecs ← defaulted defaultDeadlineSecs readU32
      (fieldOf "deadline_secs".toList 3 value)
    let auth ← AuthFields.read 4 value
    return { auth with kind := kind, a := a, b := b, deadlineSecs := deadlineSecs }
  else none

def PipelineJobSubmission.read (value : JsonValue) : Option PipelineJobSubmission :=
  if isRecord 6 value then do
    let pipelineCborHex ← required readText (fieldOf "pipeline_cbor_hex".toList 0 value)
    let deadlineSecs ← defaulted defaultDeadlineSecs readU32
      (fieldOf "deadline_secs".toList 1 value)
    let auth ← AuthFields.read 2 value
    return { auth with pipelineCborHex := pipelineCborHex, deadlineSecs := deadlineSecs }
  else none

/-- The submission in a line; its shape is decided by the presence of one member. -/
def parseSubmissionLine (json : JsonReader) (line : List Char) : Option JobSubmission :=
  match json.fromStr line with
  | .error _ => none
  | .ok value =>
      if (value.get "pipeline_cbor_hex".toList).isSome then
        (PipelineJobSubmission.read value).map .pipeline
      else
        (LegacyJobSubmission.read value).map .legacy

/-! ## Integers read back -/

theorem readBetween_integer {low high value : Int} (above : low ≤ value) (below : value ≤ high) :
    readBetween low high (.number (Json.integer value)) = some value := by
  rw [readBetween, Json.readInteger_integer, Option.filter_some, if_pos]
  simp [above, below]

theorem readI32_integer (value : Int32) :
    readI32 (.number (Json.integer value.toInt)) = some value := by
  have above := Int32.le_toInt value
  have below := Int32.toInt_lt value
  rw [readI32, readBetween_integer (by omega) (by omega), Option.map_some, Int32.ofInt_toInt]

theorem readU32_integer (value : UInt32) :
    readU32 (.number (Json.integer value.toNat)) = some value := by
  have below := value.toNat_lt
  rw [readU32, readBetween_integer (by omega) (by omega), Option.map_some, Int.toNat_natCast,
    UInt32.ofNat_toNat]

theorem readU64_integer (value : UInt64) :
    readU64 (.number (Json.integer value.toNat)) = some value := by
  have below := value.toNat_lt
  rw [readU64, readBetween_integer (by omega) (by omega), Option.map_some, Int.toNat_natCast,
    UInt64.ofNat_toNat]

theorem readU128_integer (value : BitVec 128) :
    readU128 (.number (Json.integer value.toNat)) = some value := by
  have below := value.isLt
  rw [readU128, readBetween_integer (by omega) (by omega), Option.map_some, Int.toNat_natCast,
    BitVec.ofNat_toNat, BitVec.setWidth_eq]

end Cosaci.Coordinator
