import Goby.TransmissionMessages
import Mathlib.Data.Finset.Fold
import Std.Data.TreeMap.Lemmas

/-! With `use_application_acks` the driver numbers the packets for which it wants an
acknowledgment. A flexible data packet starts with a header that names the number of the
packet and acknowledges, one bit a number, what was received from each of the other nodes.
There are 32 numbers: when they are used up the driver flushes those it waits for and starts
again from zero. The modem acknowledges the frames of data packets by itself, by the number that
they have within their packet, and the driver takes this for one of its own numbers. -/

namespace Goby

structure AckPart where
  ackDest : ℤ
  ackedFrames : ℕ
  deriving DecidableEq, Repr

structure ApplicationAck where
  part : List AckPart
  ackRequested : Bool
  frameStart : ℕ
  deriving DecidableEq, Repr

def applicationAckMaxFrames : ℕ := 32

/-- The numbers acknowledged to the node with an identifier, in the order they are handled. -/
def ApplicationAck.ackedTo (acks : ApplicationAck) (id : ℤ) : List ℕ :=
  acks.part.flatMap fun p =>
    if p.ackDest = id then
      (List.range applicationAckMaxFrames).filter fun j => p.ackedFrames.testBit j
    else []

structure OutgoingData where
  src : ℤ
  dest : ℤ
  maxNumFrames : ℕ := 1
  ackRequested : Bool := true
  frame : List Bytes := []

structure CachedData extends OutgoingData where
  /-- The header that the first frame starts with. -/
  header : Option ApplicationAck := none

/-- What the data request callback leaves in the message: `data` follows the header in the
first frame. -/
structure DataAnswer where
  dest : ℤ
  ackRequested : Bool
  data : Bytes
  more : List Bytes := []

structure AppAckDriver where
  modemId : ℤ
  nextFrame : ℕ := 0
  expectedAckDestination : ℕ := 0
  framesWaitingForAck : Finset ℕ := ∅
  framesToAck : Std.TreeMap ℤ (Finset ℕ) := ∅

namespace AppAckDriver

def toAck (d : AppAckDriver) (id : ℤ) : Finset ℕ := d.framesToAck.getD id ∅

def ackedFrames (frames : Finset ℕ) : ℕ := frames.fold (fun a b : ℕ => a ||| b) 0 (2 ^ ·) % 2 ^ 32

def ackParts (d : AppAckDriver) : List AckPart :=
  d.framesToAck.toList.map fun e => ⟨e.1, ackedFrames e.2⟩

/-- The message with what the callback has given it and the header in front. If there are
neither data nor acknowledgments nothing is sent. -/
def withHeader (acks : ApplicationAck) (msg : OutgoingData) (answer : DataAnswer) : CachedData :=
  if acks.part = [] ∧ answer.data = [] ∧ answer.more = [] then
    { msg with
      dest := answer.dest
      ackRequested := answer.ackRequested
      frame := [] }
  else
    { msg with
      dest := if answer.dest = queryDestinationId then broadcastId else answer.dest
      ackRequested := answer.ackRequested
      frame := answer.data :: answer.more
      header := some acks }

/-- A message that came with its frames gets no header. -/
def processOutgoingAppAck (d : AppAckDriver) (msg : OutgoingData) (answer : DataAnswer) :
    AppAckDriver × CachedData :=
  if msg.frame ≠ [] then (d, { msg with })
  else
    ({ d with framesToAck := ∅ },
      withHeader ⟨d.ackParts, answer.ackRequested, d.nextFrame⟩ msg answer)

def flush (d : AppAckDriver) : AppAckDriver :=
  { d with
    framesWaitingForAck := ∅
    expectedAckDestination := 0
    nextFrame := 0 }

def cacheOutgoingData (d : AppAckDriver) (msg : OutgoingData) (answer : DataAnswer) :
    AppAckDriver × CachedData :=
  if msg.src = d.modemId then
    processOutgoingAppAck
      (if d.nextFrame + msg.maxNumFrames > applicationAckMaxFrames then d.flush else d) msg answer
  else (d, { msg with })

/-- `frames_waiting_for_ack_.insert(next_frame_++)`. -/
def awaitAck (d : AppAckDriver) (dest : ℤ) : AppAckDriver :=
  { d with
    expectedAckDestination := toUnsigned dest
    framesWaitingForAck := insert d.nextFrame d.framesWaitingForAck
    nextFrame := d.nextFrame + 1 }

def hasData (msg : CachedData) : Bool :=
  match msg.frame with
  | [] => false
  | first :: _ => msg.header.isSome || !first.isEmpty

/-- What goes to the modem, with the number it is given. -/
def sendFlexible (d : AppAckDriver) (msg : CachedData) :
    AppAckDriver × Option (CachedData × Option ℕ) :=
  if hasData msg then
    if msg.ackRequested then (d.awaitAck msg.dest, some (msg, some d.nextFrame)) else (d, some (msg, none))
  else (d, none)

def cctdp (d : AppAckDriver) (msg : OutgoingData) (answer : DataAnswer) :
    AppAckDriver × Option (CachedData × Option ℕ) :=
  let cached := cacheOutgoingData d { msg with maxNumFrames := 1 } answer
  sendFlexible cached.1 cached.2

/-- `handle_ack` for one number after the other, with those for which an acknowledgment is
raised. -/
def handleAcks : List ℕ → AppAckDriver → AppAckDriver × List ℕ
  | [], d => (d, [])
  | frame :: frames, d =>
    if frame ∈ d.framesWaitingForAck then
      let (d', raised) :=
        handleAcks frames { d with framesWaitingForAck := d.framesWaitingForAck.erase frame }
      (d', frame :: raised)
    else handleAcks frames d

/-- A packet from `src` to `dest` wants an acknowledgment from the node it is sent to. -/
def noteFrame (d : AppAckDriver) (src dest : ℤ) (acks : ApplicationAck) : AppAckDriver :=
  if dest = d.modemId ∧ acks.ackRequested then
    { d with framesToAck := d.framesToAck.insert src (insert acks.frameStart (d.toAck src)) }
  else d

def processIncomingAppAck (d : AppAckDriver) (src dest : ℤ) (acks : ApplicationAck) :
    AppAckDriver × List ℕ :=
  handleAcks (acks.ackedTo d.modemId) (d.noteFrame src dest acks)

/-- An acknowledgment of the modem itself, whether or not those of the application are used. -/
def caack (d : AppAckDriver) (src dest : ℤ) (frame : ℕ) : AppAckDriver × List ℕ :=
  if dest = d.modemId ∧ toUnsigned src = d.expectedAckDestination then handleAcks [frame] d else (d, [])

variable {d d' : AppAckDriver} {msg : OutgoingData} {answer : DataAnswer} {acks : ApplicationAck}
  {src dest : ℤ} {f : ℕ} {number : Option ℕ}

theorem testBit_fold_or (frames : Finset ℕ) (j : ℕ) :
    (frames.fold (fun a b : ℕ => a ||| b) 0 (2 ^ ·)).testBit j = decide (j ∈ frames) := by
  induction frames using Finset.induction_on with
  | empty => simp
  | insert a frames ha ih =>
    rw [Finset.fold_insert ha, Nat.testBit_or, ih, Nat.testBit_two_pow]
    simp [eq_comm]

theorem mem_of_testBit_ackedFrames {frames : Finset ℕ} {j : ℕ}
    (h : (ackedFrames frames).testBit j = true) : j ∈ frames := by
  rw [ackedFrames, Nat.testBit_mod_two_pow, testBit_fold_or, Bool.and_eq_true] at h
  exact of_decide_eq_true h.2

theorem mem_toAck_of_ackedTo {ackRequested : Bool} {frameStart f : ℕ} {id : ℤ}
    (h : f ∈ ApplicationAck.ackedTo ⟨d.ackParts, ackRequested, frameStart⟩ id) : f ∈ d.toAck id := by
  obtain ⟨p, hp, hf⟩ := List.mem_flatMap.mp h
  obtain ⟨e, he, rfl⟩ := List.mem_map.mp hp
  split at hf
  case isTrue hid =>
    have hget := Std.TreeMap.mem_toList_iff_getElem?_eq_some.mp he
    rw [toAck, Std.TreeMap.getD_eq_getD_getElem?, ← hid, hget]
    exact mem_of_testBit_ackedFrames (List.mem_filter.mp hf).2
  case isFalse => exact absurd hf List.not_mem_nil

/-- The header speaks for the driver `d`: it acknowledges only what `d` has to, and the number
it wants to be acknowledged is the one that the packet was given. -/
structure HeaderOf (d : AppAckDriver) (number : Option ℕ) (acks : ApplicationAck) : Prop where
  acked : ∀ id, ∀ f ∈ acks.ackedTo id, f ∈ d.toAck id
  numbered : acks.ackRequested = true → number = some acks.frameStart

/-- Nothing new is to be acknowledged, and the node is the same. -/
structure Keeps (d d' : AppAckDriver) : Prop where
  modemId : d'.modemId = d.modemId
  toAck : ∀ id, d'.toAck id ⊆ d.toAck id

theorem Keeps.refl (d : AppAckDriver) : Keeps d d := ⟨rfl, fun _ => Finset.Subset.refl _⟩

theorem toAck_cleared (d : AppAckDriver) (id : ℤ) : toAck { d with framesToAck := ∅ } id = ∅ :=
  Std.TreeMap.getD_emptyc

theorem keeps_cleared (d : AppAckDriver) : Keeps d { d with framesToAck := ∅ } :=
  ⟨rfl, fun id => by simp [toAck_cleared]⟩

theorem processOutgoingAppAck_keeps : Keeps d (processOutgoingAppAck d msg answer).1 := by
  rw [processOutgoingAppAck]
  split
  · exact .refl d
  · exact keeps_cleared d

theorem processOutgoingAppAck_nextFrame :
    (processOutgoingAppAck d msg answer).1.nextFrame = d.nextFrame := by
  rw [processOutgoingAppAck]
  split <;> rfl

theorem withHeader_ackRequested :
    (withHeader acks msg answer).ackRequested = answer.ackRequested := by
  rw [withHeader]
  split <;> rfl

theorem withHeader_header {acks acks' : ApplicationAck}
    (h : (withHeader acks msg answer).header = some acks') : acks' = acks := by
  rw [withHeader] at h
  split at h
  · exact absurd h nofun
  · exact (Option.some.inj h).symm

theorem processOutgoingAppAck_headerOf
    (h : (processOutgoingAppAck d msg answer).2.header = some acks) :
    HeaderOf d (if (processOutgoingAppAck d msg answer).2.ackRequested then some d.nextFrame
      else none) acks := by
  rw [processOutgoingAppAck] at h ⊢
  split at h
  case isTrue => exact absurd h nofun
  case isFalse hframe =>
    obtain rfl := withHeader_header h
    rw [if_neg hframe, withHeader_ackRequested]
    refine ⟨fun id f hf => mem_toAck_of_ackedTo hf, fun hack => if_pos hack⟩

theorem cacheOutgoingData_keeps : Keeps d (cacheOutgoingData d msg answer).1 := by
  rw [cacheOutgoingData]
  split
  · have h := @processOutgoingAppAck_keeps
      (if d.nextFrame + msg.maxNumFrames > applicationAckMaxFrames then d.flush else d) msg answer
    -- a flush does not touch what is to be acknowledged
    split at h
    case isTrue hfull => exact if_pos hfull ▸ ⟨h.modemId, h.toAck⟩
    case isFalse hroom => exact if_neg hroom ▸ h
  · exact .refl d

theorem cacheOutgoingData_headerOf (h : (cacheOutgoingData d msg answer).2.header = some acks) :
    HeaderOf d (if (cacheOutgoingData d msg answer).2.ackRequested then
      some (cacheOutgoingData d msg answer).1.nextFrame else none) acks := by
  rw [cacheOutgoingData] at h ⊢
  split at h
  case isFalse => exact absurd h nofun
  case isTrue hsrc =>
    rw [if_pos hsrc, processOutgoingAppAck_nextFrame]
    obtain ⟨hacked, hnumbered⟩ := processOutgoingAppAck_headerOf h
    refine ⟨fun id f hf => ?_, hnumbered⟩
    have hf' := hacked id f hf
    split at hf'
    · exact hf'
    · exact hf'

theorem awaitAck_keeps (d : AppAckDriver) (dest : ℤ) : Keeps d (d.awaitAck dest) :=
  ⟨rfl, fun _ => Finset.Subset.refl _⟩

theorem Keeps.trans {d'' : AppAckDriver} (h : Keeps d d') (h' : Keeps d' d'') : Keeps d d'' :=
  ⟨h'.modemId.trans h.modemId, fun id => (h'.toAck id).trans (h.toAck id)⟩

theorem sendFlexible_keeps {msg : CachedData} : Keeps d (sendFlexible d msg).1 := by
  rw [sendFlexible]
  split
  · split
    · exact awaitAck_keeps d _
    · exact .refl d
  · exact .refl d

theorem sendFlexible_eq {msg m : CachedData}
    (h : (sendFlexible d msg).2 = some (m, number)) :
    m = msg ∧ number = if msg.ackRequested then some d.nextFrame else none := by
  rw [sendFlexible] at h
  split at h
  case isTrue =>
    split at h
    case isTrue hack =>
      cases h
      exact ⟨rfl, (if_pos hack).symm⟩
    case isFalse hack =>
      cases h
      exact ⟨rfl, (if_neg hack).symm⟩
  case isFalse => exact absurd h nofun

theorem cctdp_keeps : Keeps d (cctdp d msg answer).1 :=
  cacheOutgoingData_keeps.trans sendFlexible_keeps

/-- The header of a packet speaks for the driver that sends it. -/
theorem cctdp_headerOf {m : CachedData}
    (h : (cctdp d msg answer).2 = some (m, number))
    (hacks : m.header = some acks) : HeaderOf d number acks := by
  obtain ⟨rfl, rfl⟩ := sendFlexible_eq h
  exact cacheOutgoingData_headerOf hacks

theorem handleAcks_eq (frames : List ℕ) (d : AppAckDriver) :
    ∃ waiting, (handleAcks frames d).1 = { d with framesWaitingForAck := waiting } := by
  induction frames generalizing d with
  | nil => exact ⟨d.framesWaitingForAck, rfl⟩
  | cons frame frames ih =>
    rw [handleAcks]
    split
    · exact ih _
    · exact ih d

theorem mem_of_handleAcks {frames : List ℕ} (h : f ∈ (handleAcks frames d).2) :
    f ∈ d.framesWaitingForAck ∧ f ∈ frames := by
  induction frames generalizing d with
  | nil => exact absurd h List.not_mem_nil
  | cons frame frames ih =>
    rw [handleAcks] at h
    split at h
    case isTrue hwaiting =>
      rcases List.mem_cons.mp h with rfl | h
      · exact ⟨hwaiting, List.mem_cons_self⟩
      · obtain ⟨hf, hmem⟩ := ih h
        exact ⟨Finset.mem_of_mem_erase hf, List.mem_cons_of_mem _ hmem⟩
    case isFalse =>
      obtain ⟨hf, hmem⟩ := ih h
      exact ⟨hf, List.mem_cons_of_mem _ hmem⟩

theorem noteFrame_toAck {src dest id : ℤ} (h : f ∈ (d.noteFrame src dest acks).toAck id) :
    f ∈ d.toAck id ∨ id = src ∧ dest = d.modemId ∧ acks.ackRequested = true ∧ f = acks.frameStart := by
  rw [noteFrame] at h
  split at h
  case isFalse => exact .inl h
  case isTrue hack =>
    rw [toAck, Std.TreeMap.getD_insert] at h
    split at h
    case isFalse => exact .inl h
    case isTrue hid =>
      obtain rfl := compare_eq_iff_eq.mp hid
      rcases Finset.mem_insert.mp h with rfl | h
      · exact .inr ⟨rfl, hack.1, hack.2, rfl⟩
      · exact .inl h

theorem noteFrame_modemId : (d.noteFrame src dest acks).modemId = d.modemId := by
  rw [noteFrame]
  split <;> rfl

theorem noteFrame_waiting :
    (d.noteFrame src dest acks).framesWaitingForAck = d.framesWaitingForAck := by
  rw [noteFrame]
  split <;> rfl

theorem processIncomingAppAck_modemId :
    (d.processIncomingAppAck src dest acks).1.modemId = d.modemId := by
  obtain ⟨waiting, hacks⟩ := handleAcks_eq (acks.ackedTo d.modemId) (d.noteFrame src dest acks)
  rw [processIncomingAppAck, hacks]
  exact noteFrame_modemId

theorem processIncomingAppAck_toAck {src dest id : ℤ}
    (h : f ∈ (d.processIncomingAppAck src dest acks).1.toAck id) :
    f ∈ d.toAck id ∨ id = src ∧ dest = d.modemId ∧ acks.ackRequested = true ∧ f = acks.frameStart := by
  obtain ⟨waiting, hacks⟩ := handleAcks_eq (acks.ackedTo d.modemId) (d.noteFrame src dest acks)
  rw [processIncomingAppAck, hacks] at h
  exact noteFrame_toAck h

theorem mem_of_processIncomingAppAck (h : f ∈ (d.processIncomingAppAck src dest acks).2) :
    f ∈ d.framesWaitingForAck ∧ f ∈ acks.ackedTo d.modemId := by
  obtain ⟨hwaiting, hacked⟩ := mem_of_handleAcks h
  exact ⟨noteFrame_waiting ▸ hwaiting, hacked⟩

theorem caack_eq (d : AppAckDriver) (src dest : ℤ) (frame : ℕ) :
    ∃ waiting, (d.caack src dest frame).1 = { d with framesWaitingForAck := waiting } := by
  rw [caack]
  split
  · exact handleAcks_eq [frame] d
  · exact ⟨d.framesWaitingForAck, rfl⟩

theorem mem_of_caack {frame : ℕ} (h : f ∈ (d.caack src dest frame).2) :
    f ∈ d.framesWaitingForAck ∧ dest = d.modemId ∧ f = frame := by
  rw [caack] at h
  split at h
  case isTrue hdest =>
    obtain ⟨hwaiting, hmem⟩ := mem_of_handleAcks h
    exact ⟨hwaiting, hdest.1, List.mem_singleton.mp hmem⟩
  case isFalse => exact absurd h List.not_mem_nil

end AppAckDriver
end Goby
