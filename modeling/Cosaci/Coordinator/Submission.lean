import Cosaci.Foundation.Text
import Cosaci.Jobs.Pipeline
import Cosaci.State.Admission

/-!
# Reading submissions from standard input

`spawn_stdin_reader` reads one submission per line, gates it, resolves it into a
pipeline and puts it on a bounded queue, in this order.  A line that fails at any of
these points is logged and dropped, and the reader goes on with the next one.  The main
loop takes submissions from the other end of the queue.
-/

namespace Cosaci.Coordinator

open Foundation Cosaci.Core State

/-! ## Hexadecimal fields -/

def hexNibble (b : UInt8) : Option UInt8 :=
  if '0'.toUInt8 ≤ b ∧ b ≤ '9'.toUInt8 then
    some (b - '0'.toUInt8)
  else if 'a'.toUInt8 ≤ b ∧ b ≤ 'f'.toUInt8 then
    some (b - 'a'.toUInt8 + 10)
  else
    none

/-- The bytes written by pairs of digits; an odd digit at the end is not looked at. -/
def hexPairs : List UInt8 → Option (List UInt8)
  | hi :: lo :: rest => do
      let hi ← hexNibble hi
      let lo ← hexNibble lo
      let bytes ← hexPairs rest
      return ((hi <<< 4) ||| lo) :: bytes
  | _ => some []

/-- Parse lowercase digits of arbitrary even length. -/
def parseHexBytes (s : List Char) : Option (List UInt8) :=
  let bytes := utf8 s
  if bytes.length % 2 ≠ 0 then none else hexPairs bytes

/-- Parse the lowercase digits of an array of bytes. -/
def parseHexArray (width : Nat) (s : List Char) : Option (Bytes width) :=
  let bytes := utf8 s
  if bytes.length ≠ 2 * width then
    none
  else
    (hexPairs bytes).bind fun out =>
      if full : out.length = width then some (ofBytes out full) else none

def parseHex32 : List Char → Option (Bytes 32) :=
  parseHexArray 32

def parseHex64 : List Char → Option (Bytes 64) :=
  parseHexArray 64

/-- The byte of a digit. -/
private def digitByte (value : Nat) : UInt8 :=
  (Nat.digitChar value).toUInt8

private theorem utf8_digitChar {value : Nat} (small : value < 16) :
    utf8 [Nat.digitChar value] = [digitByte value] := by
  revert value
  decide

private theorem hexNibble_digitByte {value : Nat} (small : value < 16) :
    hexNibble (digitByte value) = some (UInt8.ofNat value) := by
  revert value
  decide

private theorem join_nibbles {value : Nat} (byte : value < 256) :
    (UInt8.ofNat (value / 16) <<< 4) ||| UInt8.ofNat (value % 16) = UInt8.ofNat value := by
  revert value
  decide +kernel

/-- The two digits of every byte. -/
private def twoDigits (bytes : List UInt8) : List Char :=
  bytes.flatMap fun byte => [Nat.digitChar (byte.toNat / 16), Nat.digitChar (byte.toNat % 16)]

private theorem utf8_twoDigits (bytes : List UInt8) :
    utf8 (twoDigits bytes) =
      bytes.flatMap fun byte => [digitByte (byte.toNat / 16), digitByte (byte.toNat % 16)] := by
  induction bytes with
  | nil => rfl
  | cons byte rest ih =>
      have bounded := byte.toNat_lt
      have split : twoDigits (byte :: rest) = [Nat.digitChar (byte.toNat / 16)] ++
          ([Nat.digitChar (byte.toNat % 16)] ++ twoDigits rest) := rfl
      rw [split, utf8_append, utf8_append, ih, utf8_digitChar (by omega),
        utf8_digitChar (by omega)]
      rfl

private theorem hexPairs_twoDigits (bytes : List UInt8) :
    hexPairs (utf8 (twoDigits bytes)) = some bytes := by
  rw [utf8_twoDigits]
  induction bytes with
  | nil => rfl
  | cons byte rest ih =>
      have bounded := byte.toNat_lt
      rw [List.flatMap_cons, List.cons_append, List.cons_append, List.nil_append, hexPairs,
        hexNibble_digitByte (by omega), hexNibble_digitByte (by omega), ih]
      simp [join_nibbles bounded]

/-- The digits of an array of bytes are read back. -/
theorem parseHexArray_digits {width : Nat} (bytes : Bytes width) :
    parseHexArray width (bytes.toList.flatMap fun byte =>
      [Nat.digitChar (byte.toNat / 16), Nat.digitChar (byte.toNat % 16)]) = some bytes := by
  change parseHexArray width (twoDigits bytes.toList) = some bytes
  have length : (utf8 (twoDigits bytes.toList)).length = 2 * width := by
    rw [utf8_twoDigits, List.length_flatMap]
    simp [Nat.mul_comm]
  have full : bytes.toList.length = width := bytes.toList_length
  rw [parseHexArray]
  simp only [length, ne_eq, not_true_eq_false, if_false, hexPairs_twoDigits, Option.bind_some,
    dif_pos full]
  exact congrArg some (List.Vector.toList_injective (toList_ofBytes _ _))

/-! ## Submissions -/

inductive JobKind where
  | add
  | mul
  deriving DecidableEq, Repr

def JobKind.asWire : JobKind → String
  | .add => "add"
  | .mul => "mul"

/-- The fields that both wire shapes need for the gate. -/
structure AuthFields where
  tenantId : Option TenantId
  nonce : Option (BitVec 128)
  pubkeyHex : Option (List Char)
  signatureHex : Option (List Char)
  deriving DecidableEq

/-- A call of one of the canned modules. -/
structure LegacyJobSubmission extends AuthFields where
  kind : JobKind
  a : Int32
  b : Int32
  deadlineSecs : UInt32
  deriving DecidableEq

/-- An encoded pipeline. -/
structure PipelineJobSubmission extends AuthFields where
  pipelineCborHex : List Char
  deadlineSecs : UInt32
  deriving DecidableEq

/-- One submission, in either wire shape. -/
inductive JobSubmission where
  | legacy (submission : LegacyJobSubmission)
  | pipeline (submission : PipelineJobSubmission)
  deriving DecidableEq

inductive SubmissionOrigin where
  | legacy
  | pipeline
  deriving DecidableEq, Repr

/-- What the main loop takes from the queue. -/
structure RunSubmission where
  pipeline : Jobs.Pipeline
  deadlineSecs : UInt32
  origin : SubmissionOrigin
  deriving DecidableEq

/-! ## The gate -/

/-- The fields for the gate, all present and well formed. -/
structure Credentials where
  tenantId : TenantId
  nonce : BitVec 128
  pubkey : Bytes 32
  signature : Bytes 64

def AuthFields.credentials (fields : AuthFields) : Option Credentials := do
  let tenantId ← fields.tenantId
  let nonce ← fields.nonce
  let pubkeyHex ← fields.pubkeyHex
  let signatureHex ← fields.signatureHex
  let pubkey ← parseHex32 pubkeyHex
  let signature ← parseHex64 signatureHex
  return ⟨tenantId, nonce, pubkey, signature⟩

/-- The payload that a legacy submission signs. -/
def LegacyJobSubmission.payload (sub : LegacyJobSubmission) (credentials : Credentials) :
    JobSubmissionPayload where
  tenantId := credentials.tenantId
  kind := sub.kind.asWire
  a := sub.a
  b := sub.b
  deadlineSecs := sub.deadlineSecs
  nonce := credentials.nonce

/-- The payload that a pipeline submission signs. -/
def PipelineJobSubmission.payload (sub : PipelineJobSubmission) (credentials : Credentials)
    (pipelineCbor : List UInt8) : PipelineSubmissionPayload where
  tenantId := credentials.tenantId
  pipelineCbor := pipelineCbor
  deadlineSecs := sub.deadlineSecs
  nonce := credentials.nonce

section Gate

variable (crypto : Crypto) (nowNs : UInt64) (readings : GateReadings)
  (registry : TenantRegistry) (gate : Gate)

def checkLegacy (sub : LegacyJobSubmission) : AuthCheck × Gate :=
  match sub.credentials with
  | none => (.badSignature, gate)
  | some credentials => verifyAndAdmit crypto (sub.payload credentials) credentials.pubkey
      credentials.signature nowNs readings registry gate

def checkPipeline (sub : PipelineJobSubmission) : AuthCheck × Gate :=
  match sub.credentials with
  | none => (.badSignature, gate)
  | some credentials =>
      match parseHexBytes sub.pipelineCborHex with
      | none => (.badSignature, gate)
      | some pipelineCbor => verifyAndAdmitPipeline crypto (sub.payload credentials pipelineCbor)
          credentials.pubkey credentials.signature nowNs readings registry gate

/-- Dispatch the gate on the shape of a submission. -/
def checkSubmission : JobSubmission → AuthCheck × Gate
  | .legacy sub => checkLegacy crypto nowNs readings registry gate sub
  | .pipeline sub => checkPipeline crypto nowNs readings registry gate sub

/-- The call of the gate that a submission leads to, if its fields allow one. -/
def JobSubmission.gateCall : JobSubmission → Option GateCall
  | .legacy sub => do
      let credentials ← sub.credentials
      return ⟨.job (sub.payload credentials), credentials.pubkey, credentials.signature, nowNs,
        readings⟩
  | .pipeline sub => do
      let credentials ← sub.credentials
      let pipelineCbor ← parseHexBytes sub.pipelineCborHex
      return ⟨.pipeline (sub.payload credentials pipelineCbor), credentials.pubkey,
        credentials.signature, nowNs, readings⟩

theorem checkSubmission_eq (sub : JobSubmission) :
    checkSubmission crypto nowNs readings registry gate sub =
      match sub.gateCall nowNs readings with
      | none => (.badSignature, gate)
      | some call => Gate.step crypto registry gate call := by
  cases sub with
  | legacy sub =>
      simp only [checkSubmission, checkLegacy, JobSubmission.gateCall]
      cases sub.credentials with
      | none => rfl
      | some credentials => rfl
  | pipeline sub =>
      simp only [checkSubmission, checkPipeline, JobSubmission.gateCall]
      cases sub.credentials with
      | none => rfl
      | some credentials =>
          cases parseHexBytes sub.pipelineCborHex with
          | none => rfl
          | some pipelineCbor => rfl

end Gate

/-! ## The reader -/

/-- The tenants, and the stores of the gate. -/
structure AuthState where
  registry : TenantRegistry
  gate : Gate

/-- What the reader is started with, and the parsers it relies on. -/
structure SubmissionReader where
  crypto : Crypto
  parseSubmissionLine : List Char → Option JobSubmission
  decodePipeline : List UInt8 → Option Jobs.Pipeline
  addWasm : List UInt8
  mulWasm : List UInt8
  queueCap : Nat

/-- The state that the reader shares: with the operator, who may replace the registry,
and with the main loop, which empties the queue. -/
structure ReaderState where
  /-- No authentication state means that every submission is let in. -/
  auth : Option AuthState
  queue : List RunSubmission
  stopped : Bool

/-- The next line of the input, and what the reader finds when it deals with it. -/
structure InputLine where
  /-- A line that cannot be read has no text. -/
  text : Option (List Char)
  nowNs : UInt64
  readings : GateReadings
  /-- Whether the main loop is waiting at the other end of the queue. -/
  receiverWaiting : Bool

/-- What becomes of a line. -/
inductive LineResult where
  | unread
  | readFailed
  | skipped
  | malformed
  | refused (verdict : AuthCheck)
  | undecodable
  | full
  | queued (run : RunSubmission)
  deriving DecidableEq

def LineResult.isQueued : LineResult → Bool
  | .queued _ => true
  | _ => false

/-- The limits of a step of a legacy submission: none, and no network. -/
def defaultLimits : Jobs.Limits :=
  ⟨0, 0, 0, ⟨[], .deny⟩⟩

def encodeArgs (a b : Int32) : List UInt8 :=
  Cbor.array [Cbor.signed a.toInt, Cbor.signed b.toInt]

namespace SubmissionReader

variable (reader : SubmissionReader)

/-- The submission in a line, unless the line is blank, a comment or malformed. -/
def submissionOf (text : List Char) : Except LineResult JobSubmission :=
  let trimmed := trim text
  if trimmed.isEmpty || trimmed.head? == some '#' then
    .error .skipped
  else
    match reader.parseSubmissionLine trimmed with
    | none => .error .malformed
    | some sub => .ok sub

/-- Resolve the wire shape into what is put on the queue. -/
def resolve : JobSubmission → Option RunSubmission
  | .legacy sub =>
      let module :=
        match sub.kind with
        | .add => reader.addWasm
        | .mul => reader.mulWasm
      some ⟨⟨[.execWasm module (encodeArgs sub.a sub.b) defaultLimits]⟩, sub.deadlineSecs,
        .legacy⟩
  | .pipeline sub => do
      let cbor ← parseHexBytes sub.pipelineCborHex
      let pipeline ← reader.decodePipeline cbor
      return ⟨pipeline, sub.deadlineSecs, .pipeline⟩

/-- Put a submission on the queue unless it is full.  A queue without slots hands it
over to a receiver that is waiting. -/
def trySend (queue : List RunSubmission) (receiverWaiting : Bool) (run : RunSubmission) :
    Option (List RunSubmission) :=
  if queue.length < reader.queueCap then
    some (queue ++ [run])
  else if reader.queueCap = 0 ∧ receiverWaiting then
    some queue
  else
    none

/-- The gate, if there is one. -/
def admission (line : InputLine) (sub : JobSubmission) :
    Option AuthState → AuthCheck × Option AuthState
  | none => (.ok, none)
  | some auth =>
      let (verdict, gate) :=
        checkSubmission reader.crypto line.nowNs line.readings auth.registry auth.gate sub
      (verdict, some { auth with gate := gate })

/-- The body of the loop, for a line that holds a submission. -/
def processSubmission (state : ReaderState) (line : InputLine) (sub : JobSubmission) :
    LineResult × ReaderState :=
  let (verdict, auth) := reader.admission line sub state.auth
  let state := { state with auth := auth }
  if verdict = .ok then
    match reader.resolve sub with
    | none => (.undecodable, state)
    | some run =>
        match reader.trySend state.queue line.receiverWaiting run with
        | none => (.full, state)
        | some queue => (.queued run, { state with queue := queue })
  else
    (.refused verdict, state)

/-- The body of the loop.  A line that cannot be read ends it. -/
def processLine (state : ReaderState) (line : InputLine) : LineResult × ReaderState :=
  if state.stopped then
    (.unread, state)
  else
    match line.text with
    | none => (.readFailed, { state with stopped := true })
    | some text =>
        match reader.submissionOf text with
        | .error result => (result, state)
        | .ok sub => reader.processSubmission state line sub

end SubmissionReader

/-- What happens while the reader runs. -/
inductive ReaderEvent where
  | line (line : InputLine)
  /-- The main loop takes the first submission from the queue. -/
  | receive
  /-- The operator has the registry read again. -/
  | reload (registry : TenantRegistry)

def SubmissionReader.react (reader : SubmissionReader) (state : ReaderState) :
    ReaderEvent → Option LineResult × ReaderState
  | .line line =>
      let (result, state) := reader.processLine state line
      (some result, state)
  | .receive => (none, { state with queue := state.queue.tail })
  | .reload registry =>
      (none, { state with auth := state.auth.map fun auth => { auth with registry := registry } })

def SubmissionReader.machine (reader : SubmissionReader) :
    Machine ReaderState ReaderEvent (Option LineResult) where
  step := reader.react

end Cosaci.Coordinator
