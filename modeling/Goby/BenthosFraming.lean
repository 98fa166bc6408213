import Goby.IridiumMessages
import Goby.RudicsReception
import Mathlib.Data.List.TakeWhile

/-! A packet is a header, encoded by DCCL, and the frames up to the first empty one, each as a
RUDICS packet without a checksum. Only the carriage return is reserved, which ends every frame.
The header has the type, the request for an acknowledgment and the acknowledged frames, but not
the number of the first frame. -/

namespace Goby

structure BenthosHeader where
  type : TransmissionType
  ackRequested : Option Bool := none
  ackedFrame : List ℤ := []
  deriving DecidableEq

structure BenthosHeader.InRange (h : BenthosHeader) : Prop where
  ackedFrame : ∀ f ∈ h.ackedFrame, 0 ≤ f ∧ f ≤ 7
  maxRepeat : h.ackedFrame.length ≤ 8

/-- DCCL for the header. What is decoded is taken from the front of the bytes, and decoding
inverts encoding for values in range. -/
structure BenthosHeaderCodec where
  encode : BenthosHeader → Except Failure Bytes
  decode : Bytes → Except Failure (BenthosHeader × Bytes)
  decode_encode : ∀ h : BenthosHeader, h.InRange →
    ∃ bytes, encode h = .ok bytes ∧ ∀ rest, decode (bytes ++ rest) = .ok (h, rest)

def benthosHeader (m : ModemTransmission) : BenthosHeader where
  type := m.type
  ackRequested := m.ackRequested
  ackedFrame := m.ackedFrame

def frameBreak : Bytes := [carriageReturn]

def serializeFrames (frames : List Bytes) : Bytes :=
  frames.flatMap fun frame => serializeRudicsPacket crc32 frame frameBreak false

def serializeBenthosModemMessage (codec : BenthosHeaderCodec) (m : ModemTransmission) :
    Except Failure Bytes :=
  (codec.encode (benthosHeader m)).map fun out => out ++ serializeFrames (m.frame.takeWhile (· ≠ []))

def encodedFrames (bytes : Bytes) : List Bytes := (bytes.splitOn carriageReturn).filter (· ≠ [])

def parseFrame (encoded : Bytes) : Option Bytes :=
  (parseRudicsPacket crc32 (encoded ++ frameBreak) frameBreak false).toOption

def parseBenthosModemMessage (codec : BenthosHeaderCodec) (bytes : Bytes) (out : ModemTransmission) :
    Option ModemTransmission := do
  let (header, rest) ← (codec.decode bytes).toOption
  let frames ← (encodedFrames rest).mapM parseFrame
  pure { out with
    type := header.type
    ackRequested := header.ackRequested.or out.ackRequested
    ackedFrame := out.ackedFrame ++ header.ackedFrame
    frame := out.frame ++ frames }

theorem not_mem_rudicsBody {b : UInt8} {frame : Bytes} (h : b ∈ rudicsBody frameBreak frame) :
    b ≠ carriageReturn :=
  fun hb => carriageReturn_separates.not_mem h (hb ▸ List.mem_singleton_self _)

theorem parseFrame_rudicsBody (frame : Bytes) :
    parseFrame (rudicsBody frameBreak frame) = some frame := by
  have hparse := carriageReturn_separates.parse_junked crc32 false frame (.refl _ _) carriageReturn
  rw [parseFrame]
  exact congrArg Except.toOption hparse

theorem encodedFrames_serializeFrames {frames : List Bytes} (h : ∀ frame ∈ frames, frame ≠ []) :
    encodedFrames (serializeFrames frames) = frames.map (rudicsBody frameBreak) := by
  induction frames with
  | nil => rfl
  | cons frame frames ih =>
    have hbody : ∀ b ∈ rudicsBody frameBreak frame, (b == carriageReturn) = false :=
      fun b hb => beq_eq_false_iff_ne.mpr (not_mem_rudicsBody hb)
    have hsplit : (serializeFrames (frame :: frames)).splitOn carriageReturn =
        rudicsBody frameBreak frame :: (serializeFrames frames).splitOn carriageReturn := by
      rw [serializeFrames, List.flatMap_cons, serializeRudicsPacket_eq, List.append_assoc]
      exact List.splitOnP_append_cons_of_forall_mem hbody carriageReturn (beq_self_eq_true _) _
    have hne : rudicsBody frameBreak frame ≠ [] :=
      carriageReturn_separates.rudicsBody_ne_nil (h frame List.mem_cons_self)
    rw [encodedFrames, hsplit, List.filter_cons, if_pos (decide_eq_true hne), List.map_cons]
    exact congrArg _ (ih fun frame hframe => h frame (List.mem_cons_of_mem _ hframe))

theorem mapM_parseFrame (frames : List Bytes) :
    (frames.map (rudicsBody frameBreak)).mapM parseFrame = some frames := by
  induction frames with
  | nil => rfl
  | cons frame frames ih =>
    rw [List.map_cons, List.mapM_cons, parseFrame_rudicsBody, ih]
    rfl

/-- What arrives is what was sent, up to the first empty frame. -/
theorem parse_serializeBenthosModemMessage (codec : BenthosHeaderCodec) {m : ModemTransmission}
    (h : (benthosHeader m).InRange) (out : ModemTransmission) :
    ∃ bytes, serializeBenthosModemMessage codec m = .ok bytes ∧
      parseBenthosModemMessage codec bytes out = some { out with
        type := m.type
        ackRequested := m.ackRequested.or out.ackRequested
        ackedFrame := out.ackedFrame ++ m.ackedFrame
        frame := out.frame ++ m.frame.takeWhile (· ≠ []) } := by
  obtain ⟨bytes, hencode, hdecode⟩ := codec.decode_encode (benthosHeader m) h
  refine ⟨bytes ++ serializeFrames (m.frame.takeWhile (· ≠ [])), ?_, ?_⟩
  · rw [serializeBenthosModemMessage, hencode]
    rfl
  · have hnonempty : ∀ frame ∈ m.frame.takeWhile (· ≠ []), frame ≠ [] := by
      intro frame hframe
      have hp := List.mem_takeWhile_imp hframe
      exact of_decide_eq_true hp
    have hframes := mapM_parseFrame (m.frame.takeWhile (· ≠ []))
    rw [← encodedFrames_serializeFrames hnonempty] at hframes
    rw [parseBenthosModemMessage, hdecode]
    change ((encodedFrames (serializeFrames (m.frame.takeWhile (· ≠ [])))).mapM parseFrame >>= _) = _
    rw [hframes]
    rfl

def flagByte : Option Bool → UInt8
  | none => 0
  | some false => 1
  | some true => 2

def ofFlagByte (b : UInt8) : Option Bool :=
  if b = 1 then some false else if b = 2 then some true else none

theorem ofFlagByte_flagByte (o : Option Bool) : ofFlagByte (flagByte o) = o := by
  rcases o with - | - | - <;> rfl

def numberBytes (numbers : List ℤ) : Bytes := numbers.map fun f => UInt8.ofNat f.toNat

def ofNumberBytes (bytes : Bytes) : List ℤ := bytes.map fun b => b.toNat

theorem ofNumberBytes_numberBytes {numbers : List ℤ} (h : ∀ f ∈ numbers, 0 ≤ f ∧ f ≤ 7) :
    ofNumberBytes (numberBytes numbers) = numbers := by
  induction numbers with
  | nil => rfl
  | cons f numbers ih =>
    have hf : ((UInt8.ofNat f.toNat).toNat : ℤ) = f := by
      have hrange := h f List.mem_cons_self
      rw [UInt8.toNat_ofNat']
      omega
    have hrest := ih fun f hf => h f (List.mem_cons_of_mem _ hf)
    simp only [ofNumberBytes, numberBytes, List.map_cons, hf] at hrest ⊢
    rw [hrest]

def byteBenthosCodec : BenthosHeaderCodec where
  encode h := .ok (typeByte h.type :: flagByte h.ackRequested ::
    UInt8.ofNat h.ackedFrame.length :: numberBytes h.ackedFrame)
  decode
    | type :: ack :: n :: rest =>
      .ok (⟨ofTypeByte type, ofFlagByte ack, ofNumberBytes (rest.take n.toNat)⟩, rest.drop n.toNat)
    | _ => .error (.dccl "too short")
  decode_encode := by
    intro h hr
    refine ⟨_, rfl, fun rest => ?_⟩
    have hlength : (UInt8.ofNat h.ackedFrame.length).toNat = (numberBytes h.ackedFrame).length := by
      have := hr.maxRepeat
      rw [UInt8.toNat_ofNat', numberBytes, List.length_map]
      omega
    simp only [List.cons_append, hlength, List.take_left, List.drop_left, ofTypeByte_typeByte,
      ofFlagByte_flagByte, ofNumberBytes_numberBytes hr.ackedFrame]

theorem benthosModemMessage_roundTrip (codec : BenthosHeaderCodec) (m : ModemTransmission)
    (h : (benthosHeader m).InRange) :
    ∃ bytes, serializeBenthosModemMessage codec m = .ok bytes ∧
      ∃ received, parseBenthosModemMessage codec bytes {} = some received ∧
        received.type = m.type ∧ received.ackRequested = m.ackRequested ∧
        received.ackedFrame = m.ackedFrame ∧ received.frame = m.frame.takeWhile (· ≠ []) := by
  obtain ⟨bytes, hserialize, hparse⟩ := parse_serializeBenthosModemMessage codec h {}
  refine ⟨bytes, hserialize, _, hparse, rfl, Option.or_none, rfl, rfl⟩

/-- The first frame holds a carriage return, the second the byte that stands for one, and the
last one follows an empty frame. -/
def gappedTransmission : ModemTransmission where
  type := .data
  ackRequested := some true
  ackedFrame := [7, 0]
  frame := [[13, 0], [255], [], [1]]

theorem gappedTransmission_roundTrip :
    (benthosHeader gappedTransmission).InRange ∧
      ∃ bytes, serializeBenthosModemMessage byteBenthosCodec gappedTransmission = .ok bytes ∧
        ∃ received, parseBenthosModemMessage byteBenthosCodec bytes {} = some received ∧
          received.type = .data ∧ received.ackRequested = some true ∧
          received.ackedFrame = [7, 0] ∧ received.frame = [[13, 0], [255]] := by
  have hrange : (benthosHeader gappedTransmission).InRange := ⟨by decide, by decide⟩
  exact ⟨hrange, benthosModemMessage_roundTrip byteBenthosCodec gappedTransmission hrange⟩

end Goby
