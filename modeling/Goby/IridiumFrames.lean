import Goby.IridiumMessages

/-! The mobile driver and the shore driver number the frames they send with a counter that runs on
from transmission to transmission, and each acknowledges the frames it receives by their
numbers. The mobile driver reduces its counter to the range of the header; the shore driver
does not. A transmission may have more frames than a message has room for. -/

namespace Goby

structure DriverSignals where
  modifyTransmission : DriverTransmission → DriverTransmission := id
  dataRequest : DriverTransmission → DriverTransmission := id

inductive IridiumAction where
  | dial
  | send (msg : DriverTransmission)
  | mailboxCheck
  deriving DecidableEq

/-- The size of frames is set if it is not, or if it exceeds the largest configured. -/
def limitFrameSize (maxFrameSize : ℕ) (msg : DriverTransmission) : DriverTransmission :=
  if msg.maxFrameBytes.isNone ∨ msg.maxFrameBytesD > maxFrameSize then
    { msg with maxFrameBytes := some maxFrameSize }
  else msg

/-- The message for which data is requested, with a number for its first frame. -/
def requestMessage (maxFrameSize number : ℕ) (s : DriverSignals) (msg : DriverTransmission) :
    DriverTransmission :=
  let msg := s.modifyTransmission msg
  limitFrameSize maxFrameSize (if msg.hasFrameStart then msg else msg.setFrameStart number)

def DriverTransmission.hasData (msg : DriverTransmission) : Prop :=
  ¬(msg.frame.length = 0 ∨ (msg.frame.headD []).length = 0)

instance (msg : DriverTransmission) : Decidable msg.hasData := inferInstanceAs (Decidable (¬_))

def countFrames (nextFrame : ℕ) (msg : DriverTransmission) : ℕ :=
  (nextFrame + msg.frame.length) % 2 ^ 32

namespace IridiumDriver

def frameNumber (nextFrame : ℕ) : ℕ := nextFrame % frameMax

def processTransmission (maxFrameSize : ℕ) (s : DriverSignals) (nextFrame : ℕ)
    (msg : DriverTransmission) (dial : Bool) : ℕ × List IridiumAction :=
  let msg := s.dataRequest (requestMessage maxFrameSize (frameNumber nextFrame) s msg)
  (countFrames nextFrame msg,
    if msg.hasData then
      (if dial = true ∧ msg.rateD = rateRudics then [.dial] else []) ++ [.send msg]
    else if msg.rateD = rateSbd ∧ msg.ifNoDataDoMailboxCheck = true then [.mailboxCheck] else [])

end IridiumDriver

namespace IridiumShoreDriver

def frameNumber (nextFrame : ℕ) : ℕ := nextFrame

def processTransmission (maxFrameSize : ℕ) (s : DriverSignals) (nextFrame : ℕ)
    (msg : DriverTransmission) : ℕ × List IridiumAction :=
  let msg := s.dataRequest (requestMessage maxFrameSize (frameNumber nextFrame) s msg)
  (countFrames nextFrame msg, if msg.hasData then [.send msg] else [])

end IridiumShoreDriver

/-- The numbers of the frames of a message, in a loop with `int` bounds. -/
def frameNumbers (msg : DriverTransmission) : List ℤ :=
  let first := toInt msg.frameStart
  let n := toInt (msg.frame.length + msg.frameStart)
  (List.range (n - first).toNat).map fun i : ℕ => first + i

/-- The acknowledgment that `receive` sends in either driver. -/
def receiveAck (modemId : ℤ) (msg : DriverTransmission) : Option DriverTransmission :=
  if msg.type = .data ∧ msg.ackRequestedD = true ∧ msg.destD = modemId then
    some
      { type := .ack
        src := msg.destD
        dest := some msg.src
        rate := some msg.rateD
        ackedFrame := frameNumbers msg }
  else none

inductive IridiumSide where
  | mobile | shore
  deriving DecidableEq

structure IridiumCall where
  signals : DriverSignals
  msg : DriverTransmission
  dial : Bool := true

namespace IridiumSide

variable (side : IridiumSide) (maxFrameSize nextFrame : ℕ) (c : IridiumCall)

def processTransmission : ℕ × List IridiumAction :=
  match side with
  | .mobile => IridiumDriver.processTransmission maxFrameSize c.signals nextFrame c.msg c.dial
  | .shore => IridiumShoreDriver.processTransmission maxFrameSize c.signals nextFrame c.msg

def frameNumber : ℕ :=
  match side with
  | .mobile => IridiumDriver.frameNumber nextFrame
  | .shore => IridiumShoreDriver.frameNumber nextFrame

def request : DriverTransmission :=
  requestMessage maxFrameSize (side.frameNumber nextFrame) c.signals c.msg

theorem mem_processTransmission {m : DriverTransmission} :
    .send m ∈ (side.processTransmission maxFrameSize nextFrame c).2 ↔
      m = c.signals.dataRequest (side.request maxFrameSize nextFrame c) ∧ m.hasData := by
  have hshape : ∀ (m' : DriverTransmission) (before otherwise : List IridiumAction),
      .send m ∉ before → .send m ∉ otherwise →
      (.send m ∈ (if m'.hasData then before ++ [.send m'] else otherwise) ↔ m = m' ∧ m.hasData) := by
    intro m' before otherwise hbefore hother
    split
    next h =>
      simp only [List.mem_append, hbefore, List.mem_singleton, IridiumAction.send.injEq, false_or]
      constructor
      · rintro rfl
        exact ⟨rfl, h⟩
      · exact And.left
    next h =>
      refine iff_of_false hother ?_
      rintro ⟨rfl, hdata⟩
      exact h hdata
  cases side with
  | mobile => exact hshape _ _ _ (by split <;> simp) (by split <;> simp)
  | shore => exact hshape _ [] [] (by simp) (by simp)

theorem counter_processTransmission :
    (side.processTransmission maxFrameSize nextFrame c).1 =
      countFrames nextFrame (c.signals.dataRequest (side.request maxFrameSize nextFrame c)) := by
  cases side <;> rfl

end IridiumSide

variable {m : DriverTransmission}

inductive HandedToSend : DriverTransmission → Prop
  | data (side : IridiumSide) (maxFrameSize nextFrame : ℕ) (c : IridiumCall) {m : DriverTransmission}
    (h : .send m ∈ (side.processTransmission maxFrameSize nextFrame c).2) : HandedToSend m
  | ack (modemId : ℤ) (received : DriverTransmission) {m : DriverTransmission}
    (h : receiveAck modemId received = some m) : HandedToSend m

theorem receiveAck_eq_some {modemId : ℤ} {msg ack : DriverTransmission}
    (h : receiveAck modemId msg = some ack) :
    ack.frame = [] ∧ ack.ackedFrame = frameNumbers msg := by
  unfold receiveAck at h
  split at h
  · rw [← Option.some.inj h]
    simp only [and_self]
  · cases h

theorem HandedToSend.frame (h : HandedToSend m) : m.frame = [] ∨ m.frame.headD [] ≠ [] := by
  cases h with
  | data side maxFrameSize nextFrame c h =>
    obtain ⟨-, hdata⟩ := (side.mem_processTransmission maxFrameSize nextFrame c).mp h
    refine .inr fun hnil => hdata (.inr ?_)
    rw [hnil]
    rfl
  | ack modemId received h => exact .inl (receiveAck_eq_some h).1

theorem toInt_succ_sub_le (v : ℤ) : toInt (1 + v) - toInt v ≤ 1 := by
  simp only [toInt, Int.bmod_def]
  split <;> split <;> omega

theorem length_frameNumbers (h : m.frame.length ≤ 1) : (frameNumbers m).length ≤ 1 := by
  have hsucc := toInt_succ_sub_le m.frameStart
  rw [frameNumbers, List.length_map, List.length_range]
  obtain hlen | hlen : m.frame.length = 0 ∨ m.frame.length = 1 := by omega
  · rw [hlen, Nat.cast_zero, zero_add, Int.sub_self]
    exact Nat.zero_le 1
  · rw [hlen, Nat.cast_one]
    omega

/-- A message that is handed to `send` arrives as it is if and only if it has no more than one
frame and acknowledges no more than one; and an acknowledgment for a message that was itself
received always arrives. -/
theorem iridium_round_trip (codec : HeaderCodec) {m : DriverTransmission} (hm : HandedToSend m)
    (hr : (iridiumHeader m).InRange) :
    (RoundTrips codec m ↔ m.frame.length ≤ 1 ∧ m.ackedFrame.length ≤ 1) ∧
    ∀ (bytes : Bytes) (received : DriverTransmission) (modemId : ℤ),
      parseIridiumModemMessage codec bytes = .ok received →
      receiveAck modemId received = some m → RoundTrips codec m := by
  have hiff := @roundTrips_iff codec m hr hm.frame
  refine ⟨hiff, fun bytes received modemId hparse hack => hiff.mpr ?_⟩
  obtain ⟨hframe, hacked⟩ := receiveAck_eq_some hack
  rw [hframe, hacked]
  exact ⟨Nat.zero_le 1, length_frameNumbers (length_frame_of_parse hparse)⟩

def sampleIridiumCall (frames : List Bytes) : IridiumCall where
  signals := { dataRequest := fun m => { m with frame := m.frame ++ frames } }
  msg :=
    { src := 1
      dest := some 2
      type := .data
      rate := some rateRudics
      maxNumFrames := frames.length }

def sampleIridiumMessage (side : IridiumSide) (nextFrame : ℕ) (frames : List Bytes) :
    DriverTransmission :=
  (sampleIridiumCall frames).signals.dataRequest (side.request 1500 nextFrame (sampleIridiumCall frames))

theorem sampleIridiumMessage_frame (side : IridiumSide) (nextFrame : ℕ) (frames : List Bytes) :
    (sampleIridiumMessage side nextFrame frames).frame = frames := by
  cases side <;> rfl

theorem sampleIridiumMessage_handed {frames : List Bytes}
    (h : (sampleIridiumMessage .shore 0 frames).hasData) :
    HandedToSend (sampleIridiumMessage .shore 0 frames) :=
  .data .shore 1500 0 _ ((IridiumSide.shore.mem_processTransmission 1500 0 _).mpr ⟨rfl, h⟩)

theorem sampleIridiumMessage_inRange (frames : List Bytes) :
    (iridiumHeader (sampleIridiumMessage .shore 0 frames)).InRange := by
  have hheader : iridiumHeader (sampleIridiumMessage .shore 0 frames) =
      { src := 1, dest := 2, rate := some 1, type := .data, frameStart := some 0 } := rfl
  rw [hheader]
  constructor <;> simp [frameMax]

theorem iridium_round_trip_frame :
    RoundTrips byteHeaderCodec (sampleIridiumMessage .shore 0 [[0x01]]) :=
  (iridium_round_trip byteHeaderCodec (sampleIridiumMessage_handed (by decide))
    (sampleIridiumMessage_inRange _)).1.mpr (by decide)

/-- Of two frames that are taken from the queues, the second is not sent. -/
theorem second_frame_lost :
    HandedToSend (sampleIridiumMessage .shore 0 [[0x01], [0x02]]) ∧
      ¬RoundTrips byteHeaderCodec (sampleIridiumMessage .shore 0 [[0x01], [0x02]]) := by
  have hm := sampleIridiumMessage_handed (show (sampleIridiumMessage .shore 0 [[0x01], [0x02]]).hasData by
    decide)
  refine ⟨hm, fun h => ?_⟩
  have hone := ((roundTrips_iff (sampleIridiumMessage_inRange _) hm.frame).mp h).1
  exact absurd hone (by decide)

def DriverSignals.KeepsStart (s : DriverSignals) : Prop :=
  ∀ m, (s.dataRequest m).frameStart? = m.frameStart?

/-- The number of the first frame is in range, if it is given, and otherwise the counter of the
shore driver is. -/
def IridiumCall.Encodable (side : IridiumSide) (nextFrame : ℕ) (c : IridiumCall) : Prop :=
  c.signals.KeepsStart ∧
    match (c.signals.modifyTransmission c.msg).frameStart? with
    | some n => n ≤ frameMax
    | none => side = .shore → nextFrame ≤ frameMax

structure IridiumTransmission where
  request : DriverTransmission
  sent : DriverTransmission

section Run

variable (side : IridiumSide) (maxFrameSize : ℕ) {nextFrame : ℕ} {c : IridiumCall}
  {t : IridiumTransmission}

def transmissions : ℕ → List IridiumCall → List IridiumTransmission
  | _, [] => []
  | nextFrame, c :: calls =>
    let r := side.processTransmission maxFrameSize nextFrame c
    r.2.filterMap (fun
      | .send m => some ⟨side.request maxFrameSize nextFrame c, m⟩
      | _ => none) ++ transmissions r.1 calls

def AllEncodable : ℕ → List IridiumCall → Prop
  | _, [] => True
  | nextFrame, c :: calls =>
    c.Encodable side nextFrame ∧
      AllEncodable (side.processTransmission maxFrameSize nextFrame c).1 calls

theorem mem_transmissions_cons {calls : List IridiumCall} :
    t ∈ transmissions side maxFrameSize nextFrame (c :: calls) ↔
      (t.request = side.request maxFrameSize nextFrame c ∧
        t.sent = c.signals.dataRequest t.request ∧ t.sent.hasData) ∨
      t ∈ transmissions side maxFrameSize (side.processTransmission maxFrameSize nextFrame c).1 calls := by
  rw [transmissions, List.mem_append, List.mem_filterMap]
  refine or_congr_left ⟨?_, ?_⟩
  · rintro ⟨a, ha, hsome⟩
    cases a with
    | dial => cases hsome
    | mailboxCheck => cases hsome
    | send m =>
      cases hsome
      exact ⟨rfl, (side.mem_processTransmission maxFrameSize nextFrame c).mp ha⟩
  · rintro ⟨hreq, hsent, hdata⟩
    refine ⟨.send t.sent, (side.mem_processTransmission maxFrameSize nextFrame c).mpr ?_, ?_⟩
    · exact ⟨by rw [hsent, hreq], hdata⟩
    · rw [← hreq]

variable {side maxFrameSize}

theorem request_frameStart? (nextFrame : ℕ) (c : IridiumCall) :
    (side.request maxFrameSize nextFrame c).frameStart? =
      some ((c.signals.modifyTransmission c.msg).frameStart?.getD (side.frameNumber nextFrame)) := by
  have hlimit : ∀ m : DriverTransmission, (limitFrameSize maxFrameSize m).frameStart? = m.frameStart? := by
    intro m
    unfold limitFrameSize
    split <;> rfl
  rw [IridiumSide.request, requestMessage, hlimit]
  cases hs : (c.signals.modifyTransmission c.msg).hasFrameStart <;>
    simp [DriverTransmission.frameStart?, DriverTransmission.setFrameStart, hs]

theorem IridiumCall.Encodable.number_le (h : c.Encodable side nextFrame) :
    (c.signals.modifyTransmission c.msg).frameStart?.getD (side.frameNumber nextFrame) ≤ frameMax := by
  obtain ⟨-, hnumber⟩ := h
  cases hs : (c.signals.modifyTransmission c.msg).frameStart? with
  | some n =>
    rw [hs] at hnumber
    exact hnumber
  | none =>
    rw [hs] at hnumber
    cases side with
    | mobile => exact (Nat.mod_lt nextFrame (by decide)).le
    | shore => exact hnumber rfl

theorem toInt_of_le {v : ℤ} (h₀ : 0 ≤ v) (h : v ≤ frameMax + 1) : toInt v = v := by
  rw [frameMax] at h
  rw [toInt, Int.bmod_def, if_pos (by omega)]
  omega

theorem frameNumbers_single (hone : m.frame.length = 1)
    (h : m.frameStart ≤ frameMax) : frameNumbers m = [(m.frameStart : ℤ)] := by
  have hfirst : toInt m.frameStart = m.frameStart := toInt_of_le (by omega) (by omega)
  have hn : toInt ((1 : ℕ) + m.frameStart) = (1 : ℕ) + m.frameStart := toInt_of_le (by omega) (by omega)
  have hcount : ((1 : ℕ) + (m.frameStart : ℤ) - m.frameStart).toNat = 1 := by omega
  rw [frameNumbers, hone, hfirst, hn, hcount]
  simp

/-- The peer acknowledges a frame by the number it was sent with. -/
theorem receiveAck_ofHeader (hdata : m.hasData) {n : ℕ}
    (hn : m.frameStart? = some n) (hle : n ≤ frameMax) {modemId : ℤ} {ack : DriverTransmission}
    (hack : receiveAck modemId (ofHeader (iridiumHeader m) (m.frame.headD [])) = some ack) :
    ack.ackedFrame = [(n : ℤ)] := by
  have hone : (ofHeader (iridiumHeader m) (m.frame.headD [])).frame.length = 1 := by
    have hlen : (m.frame.headD []).length ≠ 0 := fun h => hdata (.inr h)
    show (if _ then _ else _ : List Bytes).length = 1
    rw [if_neg hlen]
    rfl
  have hstart : (ofHeader (iridiumHeader m) (m.frame.headD [])).frameStart = n := by
    show (m.frameStart?).getD 0 = n
    rw [hn]
    rfl
  rw [(receiveAck_eq_some hack).2, frameNumbers_single hone (hstart.symm ▸ hle), hstart]

/-- Every frame is sent under the number for which its data was requested, in range, and a peer
that receives the message acknowledges it by that number, in range as well. -/
def NumberCarried (codec : HeaderCodec) (t : IridiumTransmission) : Prop :=
  ∃ n ≤ frameMax, t.request.frameStart? = some n ∧ (iridiumHeader t.sent).frameStart = some n ∧
    ((iridiumHeader t.sent).InRange →
      ∃ bytes m, serializeIridiumModemMessage codec t.sent = .ok bytes ∧
        parseIridiumModemMessage codec bytes = .ok m ∧
        ∀ modemId ack, receiveAck modemId m = some ack →
          ack.ackedFrame = [(n : ℤ)] ∧ (iridiumHeader ack).ackedFrame = some (n : ℤ))

theorem IridiumCall.Encodable.numberCarried (codec : HeaderCodec)
    (h : c.Encodable side nextFrame)
    (hreq : t.request = side.request maxFrameSize nextFrame c)
    (hsent : t.sent = c.signals.dataRequest t.request) (hdata : t.sent.hasData) :
    NumberCarried codec t := by
  have hstart := @request_frameStart? side maxFrameSize nextFrame c
  have hkept : t.sent.frameStart? = t.request.frameStart? := by rw [hsent, h.1]
  rw [← hreq] at hstart
  refine ⟨_, h.number_le, hstart, hkept.trans hstart, fun hr => ?_⟩
  obtain ⟨bytes, hser, hparse⟩ := @parse_serialize codec t.sent hr
  refine ⟨bytes, _, hser, hparse, fun modemId ack hack => ?_⟩
  have hacked := receiveAck_ofHeader hdata (hkept.trans hstart) h.number_le hack
  refine ⟨hacked, ?_⟩
  show ack.ackedFrame.head? = _
  rw [hacked]
  rfl

end Run

/-- In every run whose calls are all encodable, every frame number and every acknowledgment of
one is. -/
theorem frame_numbers_encodable (codec : HeaderCodec) (side : IridiumSide)
    (maxFrameSize nextFrame : ℕ) {calls : List IridiumCall}
    (h : AllEncodable side maxFrameSize nextFrame calls) :
    ∀ t ∈ transmissions side maxFrameSize nextFrame calls, NumberCarried codec t := by
  induction calls generalizing nextFrame with
  | nil =>
    intro t ht
    cases ht
  | cons c calls ih =>
    intro t ht
    rcases (mem_transmissions_cons side maxFrameSize).mp ht with ⟨hreq, hsent, hdata⟩ | ht
    · exact h.1.numberCarried codec hreq hsent hdata
    · exact ih _ h.2 t ht

theorem sampleIridiumCall_keepsStart (frames : List Bytes) :
    (sampleIridiumCall frames).signals.KeepsStart := fun _ => rfl

/-- The frame with the number 65535 of the shore driver is the last that can be sent. -/
theorem frame_numbers_encodable_last :
    NumberCarried byteHeaderCodec
      ⟨IridiumSide.shore.request 1500 65535 (sampleIridiumCall [[0x01]]),
        sampleIridiumMessage .shore 65535 [[0x01]]⟩ :=
  frame_numbers_encodable byteHeaderCodec .shore 1500 65535
    (show AllEncodable .shore 1500 65535 [sampleIridiumCall [[0x01]]] from
      ⟨⟨sampleIridiumCall_keepsStart _, fun _ => by decide⟩, trivial⟩) _
    ((mem_transmissions_cons .shore 1500).mpr (.inl ⟨rfl, rfl, by decide⟩))

theorem shore_counts (n nextFrame : ℕ) (h : nextFrame + n < 2 ^ 32) :
    ∃ t ∈ transmissions .shore 1500 nextFrame (List.replicate (n + 1) (sampleIridiumCall [[0x01]])),
      (iridiumHeader t.sent).frameStart = some (nextFrame + n) := by
  induction n generalizing nextFrame with
  | zero =>
    refine ⟨⟨IridiumSide.shore.request 1500 nextFrame (sampleIridiumCall [[0x01]]),
      sampleIridiumMessage .shore nextFrame [[0x01]]⟩, ?_, rfl⟩
    refine (mem_transmissions_cons .shore 1500).mpr (.inl ⟨rfl, rfl, ?_⟩)
    rw [DriverTransmission.hasData, sampleIridiumMessage_frame]
    decide
  | succ n ih =>
    have hnext : (IridiumSide.shore.processTransmission 1500 nextFrame
        (sampleIridiumCall [[0x01]])).1 = nextFrame + 1 := by
      have hframe := sampleIridiumMessage_frame .shore nextFrame [[0x01]]
      rw [IridiumSide.counter_processTransmission, countFrames]
      rw [sampleIridiumMessage] at hframe
      rw [hframe]
      exact Nat.mod_eq_of_lt (by simp; omega)
    obtain ⟨t, ht, hstart⟩ := ih (nextFrame + 1) (by omega)
    refine ⟨t, ?_, by rw [hstart]; congr 1; omega⟩
    rw [List.replicate_succ]
    refine (mem_transmissions_cons .shore 1500).mpr (.inr ?_)
    rw [hnext]
    exact ht

def numberedIridiumCall (n : ℕ) : IridiumCall where
  signals := (sampleIridiumCall [[0x01]]).signals
  msg := (sampleIridiumCall [[0x01]]).msg.setFrameStart n

/-- After 65536 frames the shore driver runs out of the numbers of the header, and a number that
is given is not checked in either driver. -/
theorem frame_number_out_of_range :
    (∃ t ∈ transmissions .shore 1500 0 (List.replicate 65537 (sampleIridiumCall [[0x01]])),
      ¬(iridiumHeader t.sent).InRange) ∧
    ∃ t ∈ transmissions .mobile 1500 0 [numberedIridiumCall 65536],
      ¬(iridiumHeader t.sent).InRange := by
  constructor
  · obtain ⟨t, ht, hstart⟩ := shore_counts 65536 0 (by decide)
    refine ⟨t, ht, fun hr => ?_⟩
    exact absurd (hr.frameStart _ hstart) (by decide)
  · refine ⟨⟨IridiumSide.mobile.request 1500 0 (numberedIridiumCall 65536),
      (numberedIridiumCall 65536).signals.dataRequest
        (IridiumSide.mobile.request 1500 0 (numberedIridiumCall 65536))⟩,
      (mem_transmissions_cons .mobile 1500).mpr (.inl ⟨rfl, rfl, by decide⟩), fun hr => ?_⟩
    exact absurd (hr.frameStart 65536 rfl) (by decide)

end Goby
