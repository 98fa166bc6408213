import Goby.AcknowledgmentSoundness
import Goby.BenthosFraming
import Goby.BenthosFsm

/-! The queue manager is bound to the driver: a transmission that is initiated asks it for data, and
what the driver receives is handed to it. Messages to be sent wait in a buffer of five, of which
the oldest one is overwritten, until the modem takes them. An acknowledgment waits there, too.
The driver numbers the frames of every packet from zero. -/

namespace Goby

open QueueManager

/-- A message given to the modem, with the number of the manager's call that it stems from. -/
structure BenthosPacket where
  msg : ModemTransmission
  call : ℕ
  deriving DecidableEq

namespace BenthosPacket

variable (codec : BenthosHeaderCodec) (p : BenthosPacket)

def content : Option ModemTransmission :=
  match serializeBenthosModemMessage codec p.msg with
  | .ok bytes => parseBenthosModemMessage codec bytes {}
  | .error _ => none

def announces (f : ℕ) : Bool :=
  (p.content codec).any fun m => m.type = .data && m.ackRequestedD && decide (f < m.frame.length)

def acknowledges (f : ℕ) : Bool :=
  (p.content codec).any fun m => m.type = .ack && (m.ackedFrame.map toUnsigned).contains f

variable {codec p} {f : ℕ} {m : ModemTransmission}

theorem announces_iff : p.announces codec f = true ↔ ∃ m, p.content codec = some m ∧
    m.type = .data ∧ m.ackRequestedD = true ∧ f < m.frame.length := by
  rw [announces, Option.any_eq_true]
  simp [and_assoc]

theorem acknowledges_iff : p.acknowledges codec f = true ↔ ∃ m, p.content codec = some m ∧
    m.type = .ack ∧ ∃ f' ∈ m.ackedFrame, toUnsigned f' = f := by
  rw [acknowledges, Option.any_eq_true]
  simp

theorem content_eq (h : (benthosHeader p.msg).InRange) : p.content codec = some
    { type := p.msg.type
      ackRequested := p.msg.ackRequested
      ackedFrame := p.msg.ackedFrame
      frame := p.msg.frame.takeWhile (· ≠ []) } := by
  obtain ⟨bytes, hserialize, hparse⟩ := parse_serializeBenthosModemMessage codec h {}
  rw [content, hserialize]
  simpa using hparse

theorem content_frameStart (h : p.content codec = some m) : m.frameStart = 0 := by
  rw [content] at h
  split at h
  · obtain ⟨⟨header, rest⟩, -, h⟩ := Option.bind_eq_some_iff.mp h
    obtain ⟨frames, -, h⟩ := Option.bind_eq_some_iff.mp h
    exact Option.some.inj h ▸ rfl
  · exact absurd h nofun

def Sized (codec : BenthosHeaderCodec) (p : BenthosPacket) : Prop :=
  ∀ m, p.content codec = some m → m.frame.length ≤ 8

section Data

variable (hacked : p.msg.ackedFrame = [])
include hacked

theorem inRange_of_data : (benthosHeader p.msg).InRange := by
  refine ⟨?_, ?_⟩ <;> simp [benthosHeader, hacked]

theorem data_not_acknowledges (f : ℕ) : ¬ p.acknowledges codec f = true := by
  intro h
  obtain ⟨m, hm, -, f', hf', -⟩ := acknowledges_iff.mp h
  obtain rfl := Option.some.inj ((content_eq (inRange_of_data hacked)).symm.trans hm)
  rw [hacked] at hf'
  exact absurd hf' List.not_mem_nil

theorem data_frame_length (hm : p.content codec = some m) :
    m.frame.length ≤ p.msg.frame.length := by
  obtain rfl := Option.some.inj ((content_eq (inRange_of_data hacked)).symm.trans hm)
  exact (List.takeWhile_prefix _).length_le

theorem lt_of_data_announces (h : p.announces codec f = true) : f < p.msg.frame.length := by
  obtain ⟨m, hm, -, -, hf⟩ := announces_iff.mp h
  exact hf.trans_le (data_frame_length hacked hm)

end Data

end BenthosPacket

/-- The manager with the calls made on it, the messages in the driver's buffer, and those that
the modem has sent and that have not arrived. -/
structure BenthosNode (Desc Msg : Type) where
  manager : Run Desc Msg
  dataOut : List BenthosPacket := []
  inWater : List BenthosPacket := []

namespace BenthosNode

variable {Desc Msg : Type} {msg : ModemTransmission} {maxFrameSize fuel : ℕ} {m : ModemTransmission}
  {modemId : ℤ}

def onTheWay (n : BenthosNode Desc Msg) : List BenthosPacket := n.dataOut ++ n.inWater

def send (msg : ModemTransmission) (call : ℕ) (n : BenthosNode Desc Msg) : BenthosNode Desc Msg :=
  { n with dataOut := circularPush 5 n.dataOut ⟨msg, call⟩ }

def transmit (n : BenthosNode Desc Msg) : BenthosNode Desc Msg :=
  match n.dataOut with
  | [] => n
  | p :: rest =>
    { n with
      dataOut := rest
      inWater := n.inWater ++ [p] }

def limitFrameBytes (maxFrameSize : ℕ) (msg : ModemTransmission) : ModemTransmission :=
  if msg.maxFrameBytes.isNone ∨ msg.maxFrameBytesD > maxFrameSize then
    { msg with maxFrameBytes := some maxFrameSize }
  else msg

def ackFor (m : ModemTransmission) : ModemTransmission :=
  { type := .ack
    src := m.destD
    dest := some m.src
    ackedFrame := (List.range' m.frameStart m.frame.length).map Int.ofNat }

section Calls

variable [DecidableEq Desc] (env : Environment Desc Msg)

def callManager (c : Call Msg) (n : BenthosNode Desc Msg) : BenthosNode Desc Msg :=
  { n with manager := n.manager.extend env c }

/-- The filled message is sent, unless its first frame is missing or empty or an exception was
thrown. -/
def sendFilled (outcome : Except Failure (Option (Filled Msg))) (call : ℕ)
    (n : BenthosNode Desc Msg) : BenthosNode Desc Msg :=
  match outcome with
  | .ok (some (filled, _)) => if filled.frame.headD [] = [] then n else n.send filled call
  | _ => n

/-- Only data is sent; the other types do not concern the manager. -/
def handleInitiateTransmission (maxFrameSize fuel : ℕ) (msg : ModemTransmission)
    (n : BenthosNode Desc Msg) : BenthosNode Desc Msg :=
  if msg.type = .data then
    let c := Call.handleModemDataRequest fuel (limitFrameBytes maxFrameSize msg)
    (n.callManager env c).sendFilled (record env n.manager.state c).outcome n.manager.records.length
  else n

def receive (modemId : ℤ) (m : ModemTransmission) (n : BenthosNode Desc Msg) : BenthosNode Desc Msg :=
  let n := if m.type = .data ∧ m.ackRequestedD = true ∧ m.destD = modemId then
    n.send (ackFor m) n.manager.records.length else n
  n.callManager env (.handleModemReceive m)

end Calls

variable {n : BenthosNode Desc Msg} {p : BenthosPacket}

theorem mem_onTheWay_send {msg : ModemTransmission} {call : ℕ} (h : p ∈ (n.send msg call).onTheWay) :
    p ∈ n.onTheWay ∨ p = ⟨msg, call⟩ := by
  rcases List.mem_append.mp h with h | h
  · rcases List.mem_append.mp (List.mem_of_mem_drop h) with h | h
    · exact .inl (List.mem_append_left _ h)
    · exact .inr (List.mem_singleton.mp h)
  · exact .inl (List.mem_append_right _ h)

theorem mem_onTheWay_transmit (h : p ∈ n.transmit.onTheWay) : p ∈ n.onTheWay := by
  rw [transmit] at h
  split at h
  case h_1 => exact h
  case h_2 first rest hout =>
    rw [onTheWay, hout]
    simp only [onTheWay, List.mem_append, List.mem_cons, List.not_mem_nil, or_false] at h ⊢
    rcases h with h | h | h
    · exact .inl (.inr h)
    · exact .inr h
    · exact .inl (.inl h)

theorem transmit_manager : n.transmit.manager = n.manager := by
  rw [transmit]
  split <;> rfl

theorem sendFilled_manager (outcome : Except Failure (Option (Filled Msg))) (call : ℕ) :
    (n.sendFilled outcome call).manager = n.manager := by
  unfold sendFilled
  split
  · split <;> rfl
  · rfl

theorem mem_onTheWay_sendFilled {outcome : Except Failure (Option (Filled Msg))} {call : ℕ}
    (h : p ∈ (n.sendFilled outcome call).onTheWay) :
    p ∈ n.onTheWay ∨ ∃ filled packed, outcome = .ok (some (filled, packed)) ∧ p = ⟨filled, call⟩ := by
  unfold sendFilled at h
  split at h
  · split at h
    · exact .inl h
    · rcases mem_onTheWay_send h with h | h
      · exact .inl h
      · exact .inr ⟨_, _, rfl, h⟩
  · exact .inl h

section Acknowledgment

variable {codec : BenthosHeaderCodec} {m : ModemTransmission} (hstart : m.frameStart = 0)
  (hsized : m.frame.length ≤ 8) (call : ℕ)
include hstart hsized

theorem ackFor_content : BenthosPacket.content codec ⟨ackFor m, call⟩ = some
    { type := .ack
      ackedFrame := (List.range' 0 m.frame.length).map Int.ofNat } := by
  have hrange : (benthosHeader (ackFor m)).InRange := by
    refine ⟨fun f hf => ?_, ?_⟩
    · obtain ⟨k, hk, rfl⟩ := List.mem_map.mp hf
      have := (List.mem_range'_1.mp hk).2
      rw [hstart] at this
      exact ⟨Int.natCast_nonneg k, by simp only [Int.ofNat_eq_natCast]; omega⟩
    · simpa [benthosHeader, ackFor] using hsized
  rw [@BenthosPacket.content_eq codec ⟨ackFor m, call⟩ hrange]
  simp [ackFor, hstart]

theorem lt_of_ackFor_acknowledges {f : ℕ}
    (h : BenthosPacket.acknowledges codec ⟨ackFor m, call⟩ f = true) : f < m.frame.length := by
  obtain ⟨m', hm', -, f', hf', rfl⟩ := BenthosPacket.acknowledges_iff.mp h
  obtain rfl := Option.some.inj ((ackFor_content hstart hsized call).symm.trans hm')
  obtain ⟨k, hk, rfl⟩ := List.mem_map.mp hf'
  have hlt := (List.mem_range'_1.mp hk).2
  rw [toUnsigned, Int.ofNat_eq_natCast]
  omega

theorem ackFor_not_announces (f : ℕ) :
    ¬ BenthosPacket.announces codec ⟨ackFor m, call⟩ f = true := by
  intro h
  obtain ⟨m', hm', htype, -⟩ := BenthosPacket.announces_iff.mp h
  obtain rfl := Option.some.inj ((ackFor_content hstart hsized call).symm.trans hm')
  exact absurd htype nofun

theorem ackFor_sized : BenthosPacket.Sized codec ⟨ackFor m, call⟩ := by
  intro m' hm'
  obtain rfl := Option.some.inj ((ackFor_content hstart hsized call).symm.trans hm')
  exact Nat.zero_le _

end Acknowledgment

section Request

variable [DecidableEq Desc] {env : Environment Desc Msg} {codec : BenthosHeaderCodec}
  {s : QueueManager Desc Msg} {n' : BenthosNode Desc Msg}

theorem record_outcome {fuel : ℕ} {filled : Filled Msg}
    (h : (record env s (.handleModemDataRequest fuel msg)).outcome = .ok (some filled)) :
    ∃ s', handleModemDataRequest env fuel msg s.begin = .ok filled s' := by
  rw [record, code, run_bind] at h
  cases hrun : handleModemDataRequest env fuel msg s.begin with
  | ok r s' =>
    rw [hrun] at h
    obtain rfl : r = filled := Option.some.inj (Except.ok.inj h)
    exact ⟨s', rfl⟩
  | error e s' =>
    rw [hrun] at h
    cases h

/-- A request fills at most the frames that it asks for, if no more are given with it, and
acknowledges nothing. -/
theorem filled_spec (hs : Inv env s) {fuel : ℕ}
    {filled : ModemTransmission} {packed : List (List (Packed Msg))}
    (h : (record env s (.handleModemDataRequest fuel msg)).outcome = .ok (some (filled, packed))) :
    filled.ackedFrame = msg.ackedFrame ∧ filled.frame.length ≤ max msg.frame.length msg.maxNumFrames := by
  obtain ⟨s', hrun⟩ := record_outcome h
  have hframes := handleModemDataRequest_ensures fuel msg hs.begin
  simp only [Ensures, hrun] at hframes
  obtain ⟨⟨-, hacked, hlength⟩, hframe, -⟩ := hframes
  exact ⟨hacked, by omega⟩

theorem limitFrameBytes_eq (maxFrameSize : ℕ) (msg : ModemTransmission) :
    ∃ limit, limitFrameBytes maxFrameSize msg = { msg with maxFrameBytes := limit } := by
  rw [limitFrameBytes]
  split
  · exact ⟨_, rfl⟩
  · exact ⟨_, rfl⟩

structure FilledFor (n : BenthosNode Desc Msg) (msg : ModemTransmission) (p : BenthosPacket) : Prop where
  ackedFrame : p.msg.ackedFrame = msg.ackedFrame
  frame : p.msg.frame.length ≤ max msg.frame.length msg.maxNumFrames
  call : p.call = n.manager.records.length

theorem mem_onTheWay_handleInitiateTransmission (hn : Inv env n.manager.state)
    (h : p ∈ (n.handleInitiateTransmission env maxFrameSize fuel msg).onTheWay) :
    p ∈ n.onTheWay ∨ FilledFor n msg p := by
  rw [handleInitiateTransmission] at h
  split at h
  case isFalse => exact .inl h
  case isTrue =>
    rcases mem_onTheWay_sendFilled h with h | ⟨filled, packed, hout, rfl⟩
    · exact .inl h
    · obtain ⟨hacked, hframe⟩ := filled_spec hn hout
      obtain ⟨limit, hlimit⟩ := limitFrameBytes_eq maxFrameSize msg
      rw [hlimit] at hacked hframe
      exact .inr ⟨hacked, hframe, rfl⟩

theorem handleInitiateTransmission_manager (htype : msg.type = .data) :
    (n.handleInitiateTransmission env maxFrameSize fuel msg).manager =
      n.manager.extend env (.handleModemDataRequest fuel (limitFrameBytes maxFrameSize msg)) := by
  rw [handleInitiateTransmission, if_pos htype]
  exact sendFilled_manager _ _

theorem mem_onTheWay_receive (h : p ∈ (n.receive env modemId m).onTheWay) :
    p ∈ n.onTheWay ∨
      p = ⟨ackFor m, n.manager.records.length⟩ ∧ m.type = .data ∧ m.ackRequestedD = true := by
  rw [receive] at h
  split at h
  case isTrue hack =>
    rcases mem_onTheWay_send h with h | h
    · exact .inl h
    · exact .inr ⟨h, hack.1, hack.2.1⟩
  case isFalse => exact .inl h

theorem receive_manager :
    (n.receive env modemId m).manager = n.manager.extend env (.handleModemReceive m) := by
  rw [receive]
  split <;> rfl

/-- The manager is in good order, every message that awaits an acknowledgment was given in the
latest request for its frame, and the acknowledgments of all packets fit into a header. -/
structure Valid (env : Environment Desc Msg) (codec : BenthosHeaderCodec) (n : BenthosNode Desc Msg) :
    Prop where
  inv : Inv env n.manager.state
  entries : n.manager.EntriesLatest
  sized : ∀ p ∈ n.onTheWay, p.Sized codec

omit [DecidableEq Desc] in
theorem valid_new (env : Environment Desc Msg) (codec : BenthosHeaderCodec) (managerId : ℤ)
    (dccl : DcclCodec Desc) :
    Valid env codec { manager := ⟨[], initial managerId dccl⟩ } :=
  ⟨inv_initial managerId dccl, entriesLatest_initial managerId dccl,
    fun _ hp => absurd hp List.not_mem_nil⟩

omit [DecidableEq Desc] in
theorem Valid.of_subset (hn : Valid env codec n)
    (hmanager : n'.manager = n.manager) (hsubset : ∀ p ∈ n'.onTheWay, p ∈ n.onTheWay) :
    Valid env codec n' :=
  ⟨hmanager ▸ hn.inv, hmanager ▸ hn.entries, fun p hp => hn.sized p (hsubset p hp)⟩

theorem Valid.of_extend (hn : Valid env codec n) {c : Call Msg}
    (hmanager : n'.manager = n.manager.extend env c) (hsized : ∀ p ∈ n'.onTheWay, p.Sized codec) :
    Valid env codec n' := by
  refine ⟨?_, ?_, hsized⟩
  · rw [hmanager]
    exact record_inv hn.inv c
  · rw [hmanager]
    exact hn.entries.extend hn.inv c

theorem Valid.callManager (hn : Valid env codec n) (c : Call Msg) :
    Valid env codec (n.callManager env c) := hn.of_extend rfl hn.sized

theorem Valid.handleInitiateTransmission (hn : Valid env codec n) (hacked : msg.ackedFrame = [])
    (hframe : msg.frame.length ≤ msg.maxNumFrames)
    (hmax : msg.maxNumFrames ≤ 8) :
    Valid env codec (n.handleInitiateTransmission env maxFrameSize fuel msg) := by
  by_cases htype : msg.type = .data
  · refine hn.of_extend (handleInitiateTransmission_manager htype) fun p hp => ?_
    rcases mem_onTheWay_handleInitiateTransmission hn.inv hp with hp | hp
    · exact hn.sized p hp
    · intro m hm
      have hlength := BenthosPacket.data_frame_length (hp.ackedFrame.trans hacked) hm
      have := hp.frame
      omega
  · rw [BenthosNode.handleInitiateTransmission, if_neg htype]
    exact hn

theorem Valid.receive (hn : Valid env codec n)
    (hstart : m.frameStart = 0) (hsized : m.frame.length ≤ 8) :
    Valid env codec (n.receive env modemId m) := by
  refine hn.of_extend receive_manager fun p hp => ?_
  rcases mem_onTheWay_receive hp with hp | ⟨rfl, -⟩
  · exact hn.sized p hp
  · exact ackFor_sized hstart hsized _

end Request

end BenthosNode
end Goby
