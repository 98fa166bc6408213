import Goby.TransmissionMessages

/-! On the wire a message is a header, encoded by DCCL, followed by the bytes of a frame. The header
has room for one acknowledged frame, and what follows it is one frame. -/

namespace Goby

/-- The fields of a transmission that only drivers read; `frameStart` counts if it is set. -/
structure DriverTransmission extends ModemTransmission where
  rate : Option ℤ := none
  hasFrameStart : Bool := false
  ifNoDataDoMailboxCheck : Bool := true
  deriving DecidableEq

namespace DriverTransmission

def rateD (m : DriverTransmission) : ℤ := m.rate.getD 0

def frameStart? (m : DriverTransmission) : Option ℕ :=
  if m.hasFrameStart then some m.frameStart else none

def setFrameStart (m : DriverTransmission) (n : ℕ) : DriverTransmission :=
  { m with
    frameStart := n
    hasFrameStart := true }

end DriverTransmission

def rateRudics : ℤ := 1

def rateSbd : ℤ := 0

structure IridiumHeader where
  src : ℤ
  dest : ℤ
  rate : Option ℤ := none
  type : TransmissionType
  ackRequested : Option Bool := none
  frameStart : Option ℕ := none
  ackedFrame : Option ℤ := none
  deriving DecidableEq

def frameMax : ℕ := 0xFFFF

structure IridiumHeader.InRange (h : IridiumHeader) : Prop where
  src : 0 ≤ h.src ∧ h.src ≤ 30
  dest : 0 ≤ h.dest ∧ h.dest ≤ 30
  rate : ∀ r ∈ h.rate, 0 ≤ r ∧ r ≤ 1
  frameStart : ∀ n ∈ h.frameStart, n ≤ frameMax
  ackedFrame : ∀ n ∈ h.ackedFrame, 0 ≤ n ∧ n ≤ frameMax

/-- DCCL for the header. What is decoded is taken from the front of the bytes, and decoding
inverts encoding for values in range. -/
structure HeaderCodec where
  encode : IridiumHeader → Except Failure Bytes
  decode : Bytes → Except Failure (IridiumHeader × Bytes)
  decode_encode : ∀ h : IridiumHeader, h.InRange →
    ∃ bytes, encode h = .ok bytes ∧ ∀ rest, decode (bytes ++ rest) = .ok (h, rest)

def iridiumHeader (m : DriverTransmission) : IridiumHeader where
  src := m.src
  dest := m.destD
  rate := m.rate
  type := m.type
  ackRequested := m.ackRequested
  frameStart := m.frameStart?
  ackedFrame := m.ackedFrame.head?

def serializeIridiumModemMessage (codec : HeaderCodec) (m : DriverTransmission) :
    Except Failure Bytes :=
  (codec.encode (iridiumHeader m)).map fun out => out ++ m.frame.headD []

def ofHeader (h : IridiumHeader) (rest : Bytes) : DriverTransmission where
  src := h.src
  dest := some h.dest
  rate := h.rate
  type := h.type
  ackRequested := h.ackRequested
  frameStart := h.frameStart.getD 0
  hasFrameStart := h.frameStart.isSome
  ackedFrame := h.ackedFrame.toList
  frame := if rest.length = 0 then [] else [rest]

def parseIridiumModemMessage (codec : HeaderCodec) (bytes : Bytes) :
    Except Failure DriverTransmission :=
  (codec.decode bytes).map fun r => ofHeader r.1 r.2

structure SameMessage (m m' : DriverTransmission) : Prop where
  src : m'.src = m.src
  dest : m'.destD = m.destD
  rate : m'.rate = m.rate
  type : m'.type = m.type
  ackRequested : m'.ackRequested = m.ackRequested
  frameStart : m'.frameStart? = m.frameStart?
  frame : m'.frame = m.frame
  ackedFrame : m'.ackedFrame = m.ackedFrame

def RoundTrips (codec : HeaderCodec) (m : DriverTransmission) : Prop :=
  ∃ bytes m', serializeIridiumModemMessage codec m = .ok bytes ∧
    parseIridiumModemMessage codec bytes = .ok m' ∧ SameMessage m m'

variable {codec : HeaderCodec} {m : DriverTransmission}

/-- A message with a header in range arrives as its first frame and first acknowledgment. -/
theorem parse_serialize (h : (iridiumHeader m).InRange) :
    ∃ bytes, serializeIridiumModemMessage codec m = .ok bytes ∧
      parseIridiumModemMessage codec bytes = .ok (ofHeader (iridiumHeader m) (m.frame.headD [])) := by
  obtain ⟨out, hencode, hdecode⟩ := codec.decode_encode _ h
  refine ⟨out ++ m.frame.headD [], ?_, ?_⟩
  · rw [serializeIridiumModemMessage, hencode]
    rfl
  · rw [parseIridiumModemMessage, hdecode]
    rfl

theorem frameStart?_ofHeader (h : IridiumHeader) (rest : Bytes) :
    (ofHeader h rest).frameStart? = h.frameStart := by
  cases hs : h.frameStart <;> simp [DriverTransmission.frameStart?, ofHeader, hs]

theorem toList_head?_eq_iff {α : Type} (l : List α) : l.head?.toList = l ↔ l.length ≤ 1 := by
  match l with
  | [] => simp
  | [a] => simp
  | a :: b :: l => simp

theorem frame_ofHeader_iff (hframe : m.frame = [] ∨ m.frame.headD [] ≠ []) :
    (ofHeader (iridiumHeader m) (m.frame.headD [])).frame = m.frame ↔ m.frame.length ≤ 1 := by
  rcases hframe with hnil | hne
  · simp [ofHeader, hnil]
  · have hlen : (m.frame.headD []).length ≠ 0 := fun h => hne (List.eq_nil_of_length_eq_zero h)
    have hcons : m.frame ≠ [] := fun h => hne (by rw [h]; rfl)
    show (if _ then _ else _) = m.frame ↔ _
    rw [if_neg hlen, ← toList_head?_eq_iff]
    cases hf : m.frame with
    | nil => exact absurd hf hcons
    | cons f fs => simp

theorem length_frame_of_parse {bytes : Bytes} (h : parseIridiumModemMessage codec bytes = .ok m) :
    m.frame.length ≤ 1 := by
  unfold parseIridiumModemMessage at h
  cases hd : codec.decode bytes with
  | error e =>
    rw [hd] at h
    cases h
  | ok r =>
    rw [hd] at h
    cases h
    show (if _ then _ else _ : List Bytes).length ≤ 1
    split <;> simp

theorem roundTrips_iff (h : (iridiumHeader m).InRange)
    (hframe : m.frame = [] ∨ m.frame.headD [] ≠ []) :
    RoundTrips codec m ↔ m.frame.length ≤ 1 ∧ m.ackedFrame.length ≤ 1 := by
  obtain ⟨bytes, hser, hparse⟩ := @parse_serialize codec m h
  constructor
  · rintro ⟨bytes', m', hser', hparse', hsame⟩
    obtain rfl : bytes = bytes' := Except.ok.inj (hser.symm.trans hser')
    obtain rfl := Except.ok.inj (hparse.symm.trans hparse')
    exact ⟨(frame_ofHeader_iff hframe).mp hsame.frame, (toList_head?_eq_iff _).mp hsame.ackedFrame⟩
  · rintro ⟨hone, hack⟩
    refine ⟨bytes, _, hser, hparse, ?_⟩
    exact
      { src := rfl
        dest := rfl
        rate := rfl
        type := rfl
        ackRequested := rfl
        frameStart := frameStart?_ofHeader _ _
        frame := (frame_ofHeader_iff hframe).mpr hone
        ackedFrame := (toList_head?_eq_iff _).mpr hack }

def optionalByte : Option ℤ → UInt8
  | none => 0
  | some n => UInt8.ofNat (n.toNat + 1)

def ofOptionalByte (b : UInt8) : Option ℤ := if b = 0 then none else some (b.toNat - 1)

def typeByte : TransmissionType → UInt8
  | .unknown => 0
  | .data => 1
  | .ack => 2
  | .driverSpecific => 3

def ofTypeByte (b : UInt8) : TransmissionType :=
  if b = 1 then .data else if b = 2 then .ack else if b = 3 then .driverSpecific else .unknown

def frameBytes : Option ℤ → Bytes
  | none => [0, 0, 0]
  | some n => [1, UInt8.ofNat (n.toNat / 256), UInt8.ofNat n.toNat]

def ofFrameBytes (a b c : UInt8) : Option ℤ := if a = 0 then none else some (b.toNat * 256 + c.toNat)

theorem ofOptionalByte_optionalByte {o : Option ℤ} (h : ∀ n ∈ o, 0 ≤ n ∧ n ≤ 1) :
    ofOptionalByte (optionalByte o) = o := by
  cases o with
  | none => rfl
  | some n =>
    obtain ⟨hlow, hhigh⟩ := h n rfl
    obtain rfl | rfl : n = 0 ∨ n = 1 := by omega
    · rfl
    · rfl

theorem ofTypeByte_typeByte (t : TransmissionType) : ofTypeByte (typeByte t) = t := by
  cases t <;> rfl

theorem exists_frameBytes {o : Option ℤ} (h : ∀ n ∈ o, 0 ≤ n ∧ n ≤ frameMax) :
    ∃ a b c, frameBytes o = [a, b, c] ∧ ofFrameBytes a b c = o := by
  cases o with
  | none => exact ⟨0, 0, 0, rfl, rfl⟩
  | some n =>
    obtain ⟨hlow, hhigh⟩ := h n rfl
    refine ⟨1, _, _, rfl, ?_⟩
    rw [frameMax] at hhigh
    rw [ofFrameBytes, if_neg (by decide), UInt8.toNat_ofNat', UInt8.toNat_ofNat', Option.some_inj]
    omega

def byteHeaderCodec : HeaderCodec where
  encode h := .ok ([UInt8.ofNat h.src.toNat, UInt8.ofNat h.dest.toNat, optionalByte h.rate,
    typeByte h.type, optionalByte (h.ackRequested.map fun b => if b then 1 else 0)] ++
    frameBytes (h.frameStart.map fun n : ℕ => (n : ℤ)) ++ frameBytes h.ackedFrame)
  decode
    | src :: dest :: rate :: type :: ack :: a :: b :: c :: a' :: b' :: c' :: rest =>
      .ok ({ src := src.toNat
             dest := dest.toNat
             rate := ofOptionalByte rate
             type := ofTypeByte type
             ackRequested := (ofOptionalByte ack).map (· = 1)
             frameStart := (ofFrameBytes a b c).map Int.toNat
             ackedFrame := ofFrameBytes a' b' c' }, rest)
    | _ => .error (.dccl "too short")
  decode_encode := by
    intro h hr
    have hstart : ∀ n ∈ h.frameStart.map (fun n : ℕ => (n : ℤ)), 0 ≤ n ∧ n ≤ frameMax := by
      intro n hn
      obtain ⟨k, hk, rfl⟩ := Option.map_eq_some_iff.mp hn
      have := hr.frameStart k hk
      omega
    have hack : ∀ n ∈ h.ackRequested.map (fun b => if b then (1 : ℤ) else 0), 0 ≤ n ∧ n ≤ 1 := by
      intro n hn
      obtain ⟨b, -, rfl⟩ := Option.map_eq_some_iff.mp hn
      cases b <;> decide
    obtain ⟨a, b, c, hfs, hfs'⟩ := exists_frameBytes hstart
    obtain ⟨a', b', c', haf, haf'⟩ := exists_frameBytes hr.ackedFrame
    have hsrc := hr.src
    have hdest := hr.dest
    refine ⟨_, rfl, fun rest => ?_⟩
    simp only [hfs, haf, List.cons_append, List.nil_append, hfs', haf',
      ofOptionalByte_optionalByte hr.rate, ofOptionalByte_optionalByte hack, ofTypeByte_typeByte,
      UInt8.toNat_ofNat', Option.map_map]
    congr 2
    obtain ⟨src, dest, rate, type, ackRequested, frameStart, ackedFrame⟩ := h
    simp only [IridiumHeader.mk.injEq, true_and, and_true] at hsrc hdest ⊢
    refine ⟨by omega, by omega, ?_, ?_⟩
    · cases ackRequested with
      | none => rfl
      | some b => cases b <;> rfl
    · cases frameStart with
      | none => rfl
      | some n => rfl

end Goby
