import Cosaci.Foundation.PrefixCode
import Cosaci.Foundation.Transport
import Cosaci.Protocol.Frame

/-!
# Messages as bytes

`proto.rs` and `proto_async.rs`: a message travels as four bytes of length, most
significant first, and its CBOR encoding.  Every mix of the blocking and the
asynchronous functions, over a transport that cuts the bytes as it likes, hands
over the messages in order, which is what the connections of `Protocol.Envelope`
assume.
-/

namespace Cosaci.Protocol.Wire

open Foundation Cosaci.Core

variable {μ : Type}

/-- The CBOR library, as the message functions use it. -/
structure Codec (μ : Type) where
  /-- `ciborium::into_writer` -/
  intoWriter : μ → List UInt8
  /-- `ciborium::from_reader` -/
  fromReader : List UInt8 → Option μ

/-- The library decodes what it encodes. -/
def Codec.Faithful (codec : Codec μ) : Prop :=
  ∀ message, codec.fromReader (codec.intoWriter message) = some message

/-! ## The functions of both modules -/

/-- Append one frame to what has been written. -/
private def writeFrame (codec : Codec μ) (written : List UInt8) (message : μ) :
    Except IoErrorKind (List UInt8) :=
  let buf := codec.intoWriter message
  if buf.length > maxEnvelopeBytes then
    .error .invalidData
  else
    let len := UInt32.ofNat buf.length
    .ok (written ++ bigEndian 4 len.toNat ++ buf)

/-- Take one frame from the source. -/
private def readFrame (codec : Codec μ) (source : List (Arrival IoErrorKind)) :
    Except IoErrorKind μ × List (Arrival IoErrorKind) :=
  match readExact .unexpectedEof 4 source with
  | (.error kind, source) => (.error kind, source)
  | (.ok lenBytes, source) =>
      let len := ofBigEndian lenBytes
      if len > maxEnvelopeBytes then
        (.error .invalidData, source)
      else
        match readExact .unexpectedEof len source with
        | (.error kind, source) => (.error kind, source)
        | (.ok buf, source) =>
            match codec.fromReader buf with
            | none => (.error .invalidData, source)
            | some message => (.ok message, source)

def writeEnvelope (codec : Codec μ) := writeFrame codec

def writeEnvelopeAsync (codec : Codec μ) := writeFrame codec

def readEnvelope (codec : Codec μ) := readFrame codec

def readEnvelopeAsync (codec : Codec μ) := readFrame codec

/-- Which of the two modules a caller uses. -/
inductive Side where
  | blocking
  | async
  deriving DecidableEq, Repr

def Side.write : Side → Codec μ → List UInt8 → μ → Except IoErrorKind (List UInt8)
  | .blocking => writeEnvelope
  | .async => writeEnvelopeAsync

def Side.read : Side → Codec μ → List (Arrival IoErrorKind) →
    Except IoErrorKind μ × List (Arrival IoErrorKind)
  | .blocking => readEnvelope
  | .async => readEnvelopeAsync

/-- Write messages one after the other, stopping at the first error. -/
def writeAll (codec : Codec μ) (written : List UInt8) :
    List (Side × μ) → Except IoErrorKind (List UInt8)
  | [] => .ok written
  | (side, message) :: rest =>
      match side.write codec written message with
      | .error kind => .error kind
      | .ok written => writeAll codec written rest

/-- One read for each given side, stopping at the first error. -/
def readAll (codec : Codec μ) : List Side → List (Arrival IoErrorKind) →
    Except IoErrorKind (List μ) × List (Arrival IoErrorKind)
  | [], source => (.ok [], source)
  | side :: rest, source =>
      match side.read codec source with
      | (.error kind, source) => (.error kind, source)
      | (.ok message, source) =>
          let (messages, source) := readAll codec rest source
          (messages.map (message :: ·), source)

/-! ## Single frames -/

/-- The bytes of one message on the wire. -/
def frame (codec : Codec μ) (message : μ) : List UInt8 :=
  bigEndian 4 (codec.intoWriter message).length ++ codec.intoWriter message

/-- The encoding is not larger than a frame may be. -/
def Fits (codec : Codec μ) (message : μ) : Prop :=
  (codec.intoWriter message).length ≤ maxEnvelopeBytes

theorem maxEnvelopeBytes_lt : maxEnvelopeBytes < 256 ^ 4 := by decide

/-- The side makes no difference. -/
theorem Side.write_eq (side : Side) (codec : Codec μ) : side.write codec = writeFrame codec := by
  cases side <;> rfl

theorem Side.read_eq (side : Side) (codec : Codec μ) : side.read codec = readFrame codec := by
  cases side <;> rfl

/-- A write succeeds exactly for encodings that fit, and appends the frame. -/
theorem Side.write_eq_ok_iff (side : Side) (codec : Codec μ) (written result : List UInt8)
    (message : μ) : side.write codec written message = .ok result ↔
      Fits codec message ∧ result = written ++ frame codec message := by
  rw [side.write_eq, writeFrame, Fits, frame]
  by_cases large : (codec.intoWriter message).length > maxEnvelopeBytes
  · simp [large]
  · have exact : (UInt32.ofNat (codec.intoWriter message).length).toNat =
        (codec.intoWriter message).length := by
      rw [UInt32.toNat_ofNat', Nat.mod_eq_of_lt]
      exact (Nat.le_of_not_gt large).trans_lt maxEnvelopeBytes_lt
    simp [large, exact, Nat.le_of_not_gt large, eq_comm]

variable {source : List (Arrival IoErrorKind)} {tail : List UInt8} {message : μ} {codec : Codec μ}
  {messages : List μ}

/-- The frame at the front of a source is read, and nothing beyond it. -/
theorem Side.read_decodable (side : Side)
    (decodes : codec.fromReader (codec.intoWriter message) = some message)
    (fits : Fits codec message) (next : deliverable source = frame codec message ++ tail) :
    ∃ after, side.read codec source = (.ok message, after) ∧ deliverable after = tail ∧
      (Intact source → Intact after) := by
  have small : (codec.intoWriter message).length < 256 ^ 4 := fits.trans_lt maxEnvelopeBytes_lt
  rw [frame, List.append_assoc] at next
  obtain ⟨middle, lenRead, body, kept⟩ :=
    readExact_append IoErrorKind.unexpectedEof next (length_bigEndian 4 _)
  obtain ⟨after, bufRead, left, kept'⟩ := readExact_append IoErrorKind.unexpectedEof body rfl
  refine ⟨after, ?_, left, fun intact => kept' (kept intact)⟩
  rw [side.read_eq, readFrame, lenRead]
  simp only [ofBigEndian_bigEndian small, if_neg (Nat.not_lt.mpr fits), bufRead, decodes]

theorem Side.read_frame (faithful : codec.Faithful) (side : Side) (fits : Fits codec message)
    (next : deliverable source = frame codec message ++ tail) :
    ∃ after, side.read codec source = (.ok message, after) ∧ deliverable after = tail ∧
      (Intact source → Intact after) :=
  side.read_decodable (faithful message) fits next

/-- A declared length above the limit is refused after its four bytes. -/
theorem Side.read_oversized (codec : Codec μ) (side : Side) (four : 4 ≤ (deliverable source).length)
    (large : maxEnvelopeBytes < ofBigEndian ((deliverable source).take 4)) :
    ∃ after, side.read codec source = (.error .invalidData, after) ∧
      deliverable after = (deliverable source).drop 4 := by
  obtain ⟨after, lenRead, left, -⟩ := readExact_of_le IoErrorKind.unexpectedEof four
  refine ⟨after, ?_, left⟩
  rw [side.read_eq, readFrame, lenRead]
  simp only [if_pos large]

/-- At the end of the stream a reader reports the end. -/
theorem Side.read_end (codec : Codec μ) (side : Side) (intact : Intact source)
    (empty : deliverable source = []) :
    ∃ after, side.read codec source = (.error .unexpectedEof, after) ∧
      deliverable after = [] ∧ Intact after := by
  have short : (deliverable source).length < 4 := by simp [empty]
  obtain ⟨kind, after, lenRead, ended⟩ := readExact_of_lt IoErrorKind.unexpectedEof short
  obtain ⟨rfl, left, kept⟩ := ended intact
  refine ⟨after, ?_, left, kept⟩
  rw [side.read_eq, readFrame, lenRead]

/-- Nothing is read from less than a length. -/
theorem Side.read_short (codec : Codec μ) (side : Side) (short : (deliverable source).length < 4) :
    ∃ kind after, side.read codec source = (.error kind, after) := by
  obtain ⟨kind, after, lenRead, -⟩ := readExact_of_lt IoErrorKind.unexpectedEof short
  exact ⟨kind, after, by rw [side.read_eq, readFrame, lenRead]⟩

/-- A frame that has not arrived completely is not read as a message. -/
theorem Side.read_torn (side : Side) (fits : Fits codec message)
    (torn : deliverable source <+: frame codec message)
    (short : (deliverable source).length < (frame codec message).length) :
    ∃ kind after, side.read codec source = (.error kind, after) := by
  have small : (codec.intoWriter message).length < 256 ^ 4 := fits.trans_lt maxEnvelopeBytes_lt
  rw [frame, List.length_append, length_bigEndian] at short
  by_cases four : 4 ≤ (deliverable source).length
  · have length : (deliverable source).take 4 =
        bigEndian 4 (codec.intoWriter message).length := by
      have same := List.prefix_iff_eq_take.mp torn
      rw [same, List.take_take, Nat.min_eq_left four, frame,
        List.take_left' (length_bigEndian 4 _)]
    obtain ⟨middle, lenRead, left, -⟩ := readExact_of_le IoErrorKind.unexpectedEof four
    rw [length] at lenRead
    have missing : (deliverable middle).length < (codec.intoWriter message).length := by
      rw [left, List.length_drop]
      omega
    obtain ⟨kind, after, bufRead, -⟩ := readExact_of_lt IoErrorKind.unexpectedEof missing
    refine ⟨kind, after, ?_⟩
    rw [side.read_eq, readFrame]
    simp only [lenRead, ofBigEndian_bigEndian small, if_neg (Nat.not_lt.mpr fits), bufRead]
  · exact side.read_short codec (Nat.lt_of_not_le four)

/-! ## Sequences of frames -/

/-- The bytes of several messages. -/
def frames (codec : Codec μ) (messages : List μ) : List UInt8 :=
  messages.flatMap (frame codec)

theorem writeAll_eq_ok {writes : List (Side × μ)}
    (fits : ∀ message ∈ writes.map Prod.snd, Fits codec message) (written : List UInt8) :
    writeAll codec written writes = .ok (written ++ frames codec (writes.map Prod.snd)) := by
  induction writes generalizing written with
  | nil => simp [writeAll, frames]
  | cons write rest ih =>
      obtain ⟨side, message⟩ := write
      rw [List.map_cons, List.forall_mem_cons] at fits
      have first := (side.write_eq_ok_iff codec written _ message).mpr ⟨fits.1, rfl⟩
      simp only [writeAll, first, ih fits.2, frames, List.map_cons, List.flatMap_cons,
        List.append_assoc]

theorem readAll_decodable
    (decodes : ∀ message ∈ messages, codec.fromReader (codec.intoWriter message) = some message)
    (fits : ∀ message ∈ messages, Fits codec message) {sides : List Side}
    (count : sides.length = messages.length)
    (carried : deliverable source = frames codec messages ++ tail) :
    ∃ after, readAll codec sides source = (.ok messages, after) ∧
      deliverable after = tail := by
  induction messages generalizing sides source with
  | nil =>
      rw [List.eq_nil_of_length_eq_zero count]
      exact ⟨source, rfl, carried⟩
  | cons message rest ih =>
      cases sides with
      | nil => cases count
      | cons side sides =>
          rw [List.forall_mem_cons] at fits decodes
          rw [frames, List.flatMap_cons, List.append_assoc] at carried
          obtain ⟨middle, first, following, -⟩ := side.read_decodable decodes.1 fits.1 carried
          obtain ⟨after, others, left⟩ := ih decodes.2 fits.2 (Nat.succ.inj count) following
          refine ⟨after, ?_, left⟩
          simp only [readAll, first, others]
          rfl

theorem readAll_frames (faithful : codec.Faithful) (fits : ∀ message ∈ messages, Fits codec message)
    {sides : List Side} (count : sides.length = messages.length)
    (carried : deliverable source = frames codec messages ++ tail) :
    ∃ after, readAll codec sides source = (.ok messages, after) ∧
      deliverable after = tail :=
  readAll_decodable (fun message _ => faithful message) fits count carried

/-- What readers take from a source until the first error. -/
def readSome (codec : Codec μ) : List Side → List (Arrival IoErrorKind) → List μ
  | [], _ => []
  | side :: rest, source =>
      match side.read codec source with
      | (.error _, _) => []
      | (.ok message, source) => message :: readSome codec rest source

/-- From the beginning of a sequence of frames, the messages are read whose frames have
arrived completely, as far as there are readers for them. -/
theorem readSome_frames
    (decodes : ∀ message ∈ messages, codec.fromReader (codec.intoWriter message) = some message)
    (fits : ∀ message ∈ messages, Fits codec message) (sides : List Side)
    (torn : deliverable source <+: frames codec messages) :
    readSome codec sides source <+: messages ∧
      ∀ count ≤ sides.length, frames codec (messages.take count) <+: deliverable source →
        messages.take count <+: readSome codec sides source := by
  induction messages generalizing sides source with
  | nil =>
      refine ⟨?_, fun count _ _ => by simp⟩
      cases sides with
      | nil => exact List.prefix_refl _
      | cons side sides =>
          have empty : deliverable source = [] := List.prefix_nil.mp torn
          have short : (deliverable source).length < 4 := by simp [empty]
          obtain ⟨kind, after, read⟩ := side.read_short codec short
          simp [readSome, read]
  | cons message rest ih =>
      rw [List.forall_mem_cons] at decodes fits
      cases sides with
      | nil =>
          refine ⟨ List.nil_prefix, fun count le _ => ?_⟩
          rw [Nat.le_zero.mp le]
          exact List.nil_prefix
      | cons side sides =>
          rw [frames, List.flatMap_cons] at torn
          by_cases whole : (frame codec message).length ≤ (deliverable source).length
          · -- The first frame is there; the rest of the source carries the other frames.
            have front : frame codec message <+: deliverable source :=
              List.prefix_of_prefix_length_le (List.prefix_append _ _) torn whole
            obtain ⟨tail, split⟩ := front
            obtain ⟨after, read, left, -⟩ := side.read_decodable decodes.1 fits.1 split.symm
            rw [← split, List.prefix_append_right_inj] at torn
            rw [← left] at torn
            obtain ⟨only, all⟩ := ih decodes.2 fits.2 sides torn
            simp only [readSome, read]
            refine ⟨List.cons_prefix_cons.mpr ⟨rfl, only⟩, fun count le arrived => ?_⟩
            cases count with
            | zero => exact List.nil_prefix
            | succ count =>
                rw [List.take_succ_cons, frames, List.flatMap_cons, ← split,
                  List.prefix_append_right_inj, ← left] at arrived
                rw [List.take_succ_cons]
                exact List.cons_prefix_cons.mpr ⟨rfl, all count (Nat.le_of_succ_le_succ le) arrived⟩
          · have short : (deliverable source).length < (frame codec message).length :=
              Nat.lt_of_not_le whole
            have part : deliverable source <+: frame codec message :=
              List.prefix_of_prefix_length_le torn (List.prefix_append _ _) short.le
            obtain ⟨kind, after, read⟩ := side.read_torn fits.1 part short
            simp only [readSome, read]
            refine ⟨ List.nil_prefix, fun count _ arrived => ?_⟩
            cases count with
            | zero => exact List.nil_prefix
            | succ count =>
                rw [List.take_succ_cons, frames, List.flatMap_cons] at arrived
                have length := arrived.length_le
                rw [List.length_append] at length
                omega

/-- Messages that fit are handed over in order and completely, whichever functions
write and read them and however the transport cuts the bytes.  A reader that meets a
length above the limit fails and has taken just that length. -/
theorem framing_round_trip (codec : Codec μ) (faithful : codec.Faithful)
    (writes : List (Side × μ)) (fits : ∀ write ∈ writes, Fits codec write.2)
    (readers : List Side) (count : readers.length = writes.length) :
    (∃ bytes, writeAll codec [] writes = .ok bytes ∧
      ∀ source, deliverable source = bytes →
        ∃ after, readAll codec readers source = (.ok (writes.map Prod.snd), after) ∧
          deliverable after = []) ∧
    ∀ (side : Side) (source : List (Arrival IoErrorKind)),
      4 ≤ (deliverable source).length →
      maxEnvelopeBytes < ofBigEndian ((deliverable source).take 4) →
      ∃ after, side.read codec source = (.error .invalidData, after) ∧
        deliverable after = (deliverable source).drop 4 := by
  have each : ∀ message ∈ writes.map Prod.snd, Fits codec message := by
    simpa using fun message side member => fits (side, message) member
  constructor
  · refine ⟨frames codec (writes.map Prod.snd), writeAll_eq_ok each [], ?_⟩
    intro source carried
    rw [← List.append_nil (frames codec _)] at carried
    exact readAll_frames faithful each (by rw [count, List.length_map]) carried
  · intro side source four large
    exact side.read_oversized codec four large

/-- Single bytes as messages. -/
def byteCodec : Codec UInt8 where
  intoWriter byte := Cbor.unsigned byte.toNat
  fromReader bytes := (Cbor.readArgument bytes).map UInt8.ofNat

theorem byteCodec_faithful : byteCodec.Faithful := by
  intro byte
  have fits : byte.toNat < 2 ^ 64 := byte.toNat_lt.trans (by decide)
  have read := Cbor.readArgument_header 0 fits []
  rw [List.append_nil] at read
  simp only [byteCodec, Cbor.unsigned, read, Option.map_some, UInt8.ofNat_toNat]

/-- The length of the first message arrives in two pieces, the second message together
with the end of the first. -/
theorem framing_round_trip_bytes :
    ∃ after, readAll byteCodec [.async, .blocking]
        [.data 0 [0], .idle, .data 0 [1, 5, 0], .data 0 [0, 2, 24, 200]] =
          (.ok [5, 200], after) ∧ deliverable after = [] := by
  obtain ⟨⟨bytes, written, read⟩, -⟩ := framing_round_trip byteCodec byteCodec_faithful
    [(.blocking, 5), (.async, 200)] (by unfold Fits; decide) [.async, .blocking] rfl
  have sent : writeAll byteCodec [] [(.blocking, 5), (.async, 200)] =
      .ok [0, 0, 0, 1, 5, 0, 0, 0, 2, 24, 200] := by decide
  rw [sent] at written
  cases written
  exact read _ rfl

/-! ## The connections of the protocol -/

/-- A source behind which a scripted connection is implemented: it will deliver the
frames of exactly the scripted messages. -/
def Implements (codec : Codec Envelope) (source : List (Arrival IoErrorKind))
    (stream : Stream) : Prop :=
  ∃ messages : List Envelope, (∀ message ∈ messages, Fits codec message) ∧
    stream.inbound = messages.map .ok ∧ deliverable source = frames codec messages ∧
    Intact source

/-- A read of bytes does what a read of the scripted connection does. -/
theorem Implements.read {codec : Codec Envelope} (faithful : codec.Faithful) {stream : Stream}
    (implements : Implements codec source stream) (side : Side) :
    (side.read codec source).1 = (Protocol.readEnvelope stream).1 ∧
      Implements codec (side.read codec source).2 (Protocol.readEnvelope stream).2 := by
  obtain ⟨messages, fits, script, carried, intact⟩ := implements
  cases messages with
  | nil =>
      obtain ⟨after, read, left, kept⟩ := side.read_end codec intact carried
      rw [read]
      refine ⟨by rw [readEnvelope_fst, script]; rfl, [], fits, ?_, left, kept⟩
      rw [inbound_readEnvelope, script]
      rfl
  | cons message rest =>
      rw [List.forall_mem_cons] at fits
      rw [frames, List.flatMap_cons] at carried
      obtain ⟨after, read, left, kept⟩ := side.read_frame faithful fits.1 carried
      rw [read]
      refine ⟨by rw [readEnvelope_fst, script]; rfl, rest, fits.2, ?_, left, kept intact⟩
      rw [inbound_readEnvelope, script]
      rfl

end Cosaci.Protocol.Wire
