import Goby.DcclCodecConfiguration
import Goby.QueueOperations
import Std.Data.TreeMap

/-! The manager owns one queue for each DCCL identifier and packs their messages into the
frames that the modem driver asks for. For every message sent with an acknowledgment
requested it keeps an entry from the frame number to the queue. Each function follows
the member function of `QueueManager` with its name; an exception leaves behind the
state reached so far, as it does in C++. A pointer to a queue is the identifier under
which the manager holds it: queues are never removed. -/

namespace Goby

/-- The libraries, the clock and the subscribers of the signals that return data. A
subscriber is indexed by the number of clock readings made before it is called, so that
it may answer differently each time. -/
structure Environment (Desc Msg : Type) extends Library Desc Msg where
  clock : ℕ → ℕ
  onDemand : ℕ → ModemTransmission → Msg → Msg
  outRoute : ℕ → QueuedMessageMeta → Msg → ℤ → QueuedMessageMeta
  inRouteConnected : ℕ → Bool

/-- The signals raised by the manager, in order, together with what happens to each
message of a queue. A stored message is named by its queue and its address there. -/
inductive Event (Msg : Type) where
  | queue (dcclId : ℕ) (e : QueueEvent Msg)
  | signalAck (ack : ModemTransmission) (origin : Option (ℕ × ℕ)) (msg : Msg)
  | signalReceive (msg : Msg)
  | signalExpire (origin : ℕ × ℕ) (msg : Msg)
  | queueSizeChange (dcclId size : ℕ)
  | dataOnDemand (request : ModemTransmission)
  | inRoute (msgMeta : QueuedMessageMeta) (msg : Msg) (modemId : ℤ)
  deriving DecidableEq

structure QueueManager (Desc Msg : Type) where
  modemId : ℤ
  queues : Std.TreeMap ℕ (Queue Desc Msg) := ∅
  waitingForAck : Multimap ℕ ℕ := []
  packetAck : Bool := false
  packetDest : ℤ := broadcastId
  networkAckSrcIds : List ℤ := []
  routeAdditionalModemIds : List ℤ := []
  encryptRules : Std.TreeMap ℤ String := ∅
  cfg : QueueManagerConfig := {}
  codec : DcclCodec Desc
  manips : Multimap ℕ Manipulator := []
  readings : ℕ := 0
  log : List (Event Msg) := []

namespace QueueManager

variable {Desc Msg : Type}

abbrev Code (Desc Msg : Type) := EStateM Failure (QueueManager Desc Msg)

variable (s : QueueManager Desc Msg)

def hasManip (id : ℕ) (manip : Manipulator) : Bool :=
  s.manips.any (fun e => e.1 = id && e.2 = manip)

def minimumAckWaitSeconds : ℚ := s.cfg.minimumAckWaitSeconds.getD 0

def emit (events : List (Event Msg)) : Code Desc Msg Unit :=
  modify (fun s => { s with log := s.log ++ events })

def lift {α : Type} : Except Failure α → Code Desc Msg α
  | .ok a => pure a
  | .error e => throw e

/-- Runs a block whose `dccl::Exception` is caught. -/
def tryDccl {α : Type} (m : Code Desc Msg α) : Code Desc Msg (Except String α) := fun s =>
  match m s with
  | .ok a s' => .ok (.ok a) s'
  | .error (.dccl e) s' => .ok (.error e) s'
  | .error e s' => .error e s'

def getQueue (k : ℕ) : Code Desc Msg (Queue Desc Msg) := do
  match (← get).queues[k]? with
  | some q => pure q
  | none => throw .undefined

/-- The new value of a queue, with what happened to its messages. -/
def putQueue (k : ℕ) (q : Queue Desc Msg) (events : List (QueueEvent Msg)) : Code Desc Msg Unit :=
  modify (fun s => { s with
    queues := s.queues.insert k q, log := s.log ++ events.map (.queue k) })

def setReadings (n : ℕ) : Code Desc Msg Unit := modify (fun s => { s with readings := n })

variable (env : Environment Desc Msg)

def qsize (k : ℕ) : Code Desc Msg Unit := do
  let q ← getQueue k
  emit [.queueSizeChange (env.id q.desc) q.size]

def metaFromMsg (msg : Msg) : Code Desc Msg QueuedMessageMeta := do
  let s ← get
  match s.queues[env.id (env.descriptor msg)]? with
  | none => throw (.queue ("No such queue [[" ++ env.fullName (env.descriptor msg) ++ "]] loaded"))
  | some q => lift (q.metaFromMsg env.toLibrary s.codec.codec.settings msg)

/-- What a queue sees of the manager when a message is pushed. -/
def parent (k : ℕ) : Queue.Parent Msg where
  loopback := s.hasManip k .loopback
  noQueue := s.hasManip k .noQueue
  modemId := s.modemId
  cfgModemId := s.cfg.modemId.getD 0
  outRoute := env.outRoute

/-- `Queue::push_message` on a queue of the manager, and the report of its size. -/
def pushOnQueue (k : ℕ) (q : Queue Desc Msg) (dcclMsg : Msg) (given : QueuedMessageMeta) :
    Code Desc Msg Unit := do
  let s ← get
  let r := q.pushMessage (s.parent env k) env.clock s.readings dcclMsg given
  setReadings r.readings
  emit (r.received.map .signalReceive)
  emit (r.acked.toList.map (fun ack => .signalAck ack none dcclMsg))
  putQueue k r.queue r.events
  qsize env k

def pushMeta (q : Queue Desc Msg) (dcclMsg : Msg) :
    Option QueuedMessageMeta → Code Desc Msg QueuedMessageMeta
  | some given => pure given
  | none => do lift (q.metaFromMsg env.toLibrary (← get).codec.codec.settings dcclMsg)

def pushMessage (dcclMsg : Msg) (given : Option QueuedMessageMeta) : Code Desc Msg Unit := do
  let k := env.id (env.descriptor dcclMsg)
  match (← get).queues[k]? with
  | none => throw (.queue ("No queue exists for message: " ++
      env.fullName (env.descriptor dcclMsg) ++ "; you must configure it first."))
  | some q => do
      let msgMeta ← pushMeta env q dcclMsg given
      pushOnQueue env k q dcclMsg msgMeta

def flushQueue (dcclId : ℕ) : Code Desc Msg Unit := do
  match (← get).queues[dcclId]? with
  | none => pure ()
  | some q => do
      putQueue dcclId q.flush (q.messages.addrs.map .flushed)
      qsize env dcclId

def createNetworkAck (ackSrc : ℤ) (orig : Msg) (ackType : AckType) : Code Desc Msg Unit := do
  if env.fullName (env.descriptor orig) = "goby.acomms.protobuf.NetworkAck" then pure ()
  else do
    let s ← get
    let msgMeta ← metaFromMsg env orig
    if msgMeta.srcD ∉ s.networkAckSrcIds then pure ()
    else do
      let ack := env.networkAck {
        messageSrc := msgMeta.srcD
        messageDest := msgMeta.destD
        messageTime := msgMeta.timeD
        messageDcclId := env.id (env.descriptor orig)
        ackSrc := ackSrc
        ackType := ackType }
      let ackMeta ← metaFromMsg env ack
      if ackMeta.destD = s.modemId then emit [.signalReceive ack]
      else emit [.inRoute ackMeta ack s.modemId]

def acknowledgeSource (ackSrc : ℤ) (orig : Msg) (ackType : AckType) : Code Desc Msg Unit := do
  let msgMeta ← metaFromMsg env orig
  if msgMeta.srcD ∈ (← get).networkAckSrcIds then createNetworkAck env ackSrc orig ackType
  else pure ()

def signalExpired (k : ℕ) : List (ℕ × Msg) → Code Desc Msg Unit
  | [] => pure ()
  | e :: rest => do
      emit [.signalExpire (k, e.1) e.2]
      acknowledgeSource env (← get).modemId e.2 .expire
      signalExpired k rest

def expireQueue (k : ℕ) : Code Desc Msg Unit := do
  let q ← getQueue k
  let (expired, q', n) := q.expire env.clock (← get).readings
  setReadings n
  putQueue k q' (expired.map (fun e => .expired e.1 e.2))
  signalExpired env k expired

def expireQueues : List ℕ → Code Desc Msg Unit
  | [] => pure ()
  | k :: rest => do
      expireQueue env k
      expireQueues rest

def doWork : Code Desc Msg Unit := do
  expireQueues env (← get).queues.keys

/-- `Queue::clear_ack_queue`: true if no message of the queue is waiting any more. -/
def clearAckQueue (k startFrame : ℕ) : Code Desc Msg Bool := do
  let q ← getQueue k
  let s ← get
  match q.clearAckQueue env.clock s.readings s.minimumAckWaitSeconds startFrame with
  | none => throw .undefined
  | some (q', erased, n) => do
      setReadings n
      putQueue k q' (erased.map (fun e => .ackCleared e.2 e.1))
      pure q'.waitingForAck.isEmpty

def clearEntries (startFrame : ℕ) : Multimap ℕ ℕ → Code Desc Msg (Multimap ℕ ℕ)
  | [] => pure []
  | e :: rest => do
      let isEmpty ← clearAckQueue env e.2 startFrame
      let kept ← clearEntries startFrame rest
      pure (if isEmpty then kept else e :: kept)

def clearPacket (msg : ModemTransmission) : Code Desc Msg Unit := do
  let kept ← clearEntries env msg.frameStart (← get).waitingForAck
  modify (fun s => { s with
    waitingForAck := kept, packetAck := msg.ackRequested.getD false, packetDest := msg.destD })

def needsData (q : Queue Desc Msg) : Code Desc Msg Bool := do
  if q.size = 0 then pure true
  else do
    let s ← get
    let skew := truncate (s.cfg.onDemandSkewSeconds.getD 1 * 1000000)
    setReadings (s.readings + 1)
    pure ((q.newestMsgTime.addMicroseconds skew).lt (unixMicrosec2ptime (env.clock s.readings)))

/-- Asks the application for a message and pushes what it fills in. -/
def demandData (request : ModemTransmission) (q : Queue Desc Msg) : Code Desc Msg Unit := do
  let n := (← get).readings
  let newMsg := env.onDemand n request (env.newMessage q.desc)
  setReadings (n + 1)
  emit [.dataOnDemand request]
  if env.isInitialized newMsg then pushMessage env newMsg none else pure ()

def encodeOnDemand (request : ModemTransmission) (k : ℕ) : Code Desc Msg Unit := do
  let q ← getQueue k
  if (← get).hasManip (env.id q.desc) .onDemand then do
    if ← needsData env q then demandData env request q else pure ()
  else pure ()

abbrev Winner := Option (ℕ × Double × Ptime)

/-- No winner, better winner, or equal and older winner. -/
def Winner.beatenBy : Winner → Queue.PriorityValues → Bool
  | none, _ => true
  | some (_, priority, lastSendTime), v => priority.lt v.priority ||
      (v.priority.eq priority && v.lastSendTime.lt lastSendTime)

def contest (request : ModemTransmission) (data : Bytes) :
    List ℕ → Winner → Code Desc Msg Winner
  | [], winner => pure winner
  | k :: rest, winner => do
      encodeOnDemand env request k
      let q ← getQueue k
      match q.getPriorityValues env.clock (← get).readings request data with
      | none => throw .undefined
      | some v => do
          setReadings v.readings
          contest request data rest
            (if v.available && winner.beatenBy v then some (k, v.priority, v.lastSendTime)
              else winner)

def findNextSender (request : ModemTransmission) (data : Bytes) : Code Desc Msg (Option ℕ) := do
  let winner ← contest env request data (← get).queues.keys none
  pure (winner.map (fun w => w.1))

def loopbackAsSent (dcclId : ℕ) (msg : Msg) : Code Desc Msg Unit := do
  if (← get).hasManip dcclId .loopbackAsSent then emit [.signalReceive msg] else pure ()

/-- Pops the message given without an acknowledgment, and reports the size. -/
def popGiven (k frame : ℕ) (given : Queue Desc Msg) : Code Desc Msg Unit :=
  match given.popMessage with
  | none => throw .undefined
  | some (none, _) => qsize env k
  | some (some it, left) => do
      putQueue k left [.popped it frame]
      qsize env k

/-- A given message is entered as waiting for an acknowledgment or popped. -/
def settleGiven (k frame : ℕ) (m : QueuedMessage Msg) (given : Queue Desc Msg) :
    Code Desc Msg Unit :=
  if m.msgMeta.ackRequestedD then
    modify (fun s => { s with waitingForAck := s.waitingForAck.insert frame k })
  else popGiven env k frame given

/-- Takes the next message of the winning queue for a frame, with its address. -/
def takeUserFrame (k frame : ℕ) : Code Desc Msg (ℕ × QueuedMessage Msg) := do
  let q ← getQueue k
  let s ← get
  match q.giveData frame (env.clock s.readings) with
  | none => throw .undefined
  | some (it, m, given) => do
      setReadings (s.readings + 1)
      putQueue k given [.gave it frame m.dcclMsg]
      loopbackAsSent (env.id q.desc) m.dcclMsg
      settleGiven env k frame m given
      modify (fun s => { s with packetAck := s.packetAck || m.msgMeta.ackRequestedD })
      pure (it, m)

def sizeRepeated : List (QueuedMessage Msg) → Code Desc Msg ℕ
  | [] => pure 0
  | m :: rest => do
      let size ← lift ((env.size (← get).codec.codec.settings m.dcclMsg).mapError Failure.dccl)
      pure (size + (← sizeRepeated rest))

def encode (msg : Msg) (headerOnly : Bool) : Code Desc Msg Bytes := do
  lift ((env.encode (← get).codec.codec.settings msg headerOnly).mapError Failure.dccl)

def decode (bytes : Bytes) (headerOnly : Bool) : Code Desc Msg Msg := do
  lift ((env.decode (← get).codec.codec.settings bytes headerOnly).mapError Failure.dccl)

def ruleCfg (modem : ℤ) : DcclConfig :=
  { cryptoPassphrase := s.encryptRules[modem]? }

/-- Merges the rule of a modem into the codec, if there are any rules at all. -/
def applyRule [DecidableEq Desc] (modem : ℤ) : Code Desc Msg Unit :=
  modify (fun s => if s.encryptRules.isEmpty then s
    else { s with codec := s.codec.mergeCfg env.toLibrary (s.ruleCfg modem) })

def encodeRepeated [DecidableEq Desc] : List (QueuedMessage Msg) → Code Desc Msg Bytes
  | [] => pure []
  | m :: rest => do
      applyRule env m.msgMeta.destD
      let piece ← encode env m.dcclMsg false
      pure (piece ++ (← encodeRepeated rest))

def resize (data : Bytes) (n : ℕ) : Bytes := data.take n ++ List.replicate (n - data.length) 0

structure Packed (Msg : Type) where
  origin : ℕ × ℕ
  message : QueuedMessage Msg
  /-- The encoded message it was queued with, if it is passed on untouched. -/
  carried : Option Bytes
  /-- The metadata it was given with, before its own ones take their place. -/
  sentMeta : QueuedMessageMeta

/-- What the packing loop has gathered for one frame. -/
structure Packing (Msg : Type) where
  msg : ModemTransmission
  packed : List (Packed Msg) := []
  /-- The encoded message passed on untouched, which ends the frame. -/
  passthrough : Option Bytes := none

def Packing.dcclMsgs {Msg : Type} (p : Packing Msg) : List (QueuedMessage Msg) :=
  p.packed.map (fun m => m.message)

/-- Fixes the addresses of the packet by the message just taken; the packet's own
destination is only set in the first frame. -/
def address (i : ℕ) (m : QueuedMessage Msg) (msg : ModemTransmission) :
    Code Desc Msg ModemTransmission := do
  if i = 0 then do
    let s ← get
    let msg := if msg.destD = queryDestinationId
      then { msg with dest := some m.msgMeta.destD } else msg
    let msg := if msg.src = querySourceId then { msg with src := s.modemId } else msg
    modify (fun s => if s.packetDest = broadcastId ∨ s.packetDest = queryDestinationId
      then { s with packetDest := msg.destD } else s)
    pure msg
  else pure msg

/-- Rounds of the packing loop of frame `i`, at most `fuel` of them, from the winning
queue `k` on. -/
def packLoop (i : ℕ) (original : Bytes) :
    ℕ → ℕ → Packing Msg → Code Desc Msg (Packing Msg)
  | 0, _, _ => throw .fuel
  | fuel + 1, k, p => do
      let (it, m) ← takeUserFrame env k (p.msg.frameStart + i)
      let msg ← address i m p.msg
      let msgMeta ← metaFromMsg env m.dcclMsg
      let p : Packing Msg := {
        msg := msg
        packed := p.packed ++ [⟨(k, it), ⟨m.dcclMsg, msgMeta⟩, m.msgMeta.encodedMessage, m.msgMeta⟩]
        passthrough := m.msgMeta.encodedMessage }
      if p.passthrough.isSome then pure p
      else do
        let size ← sizeRepeated env p.dcclMsgs
        let data := resize (p.msg.frame.getD i []) (size + original.length)
        let p := { p with msg := { p.msg with frame := p.msg.frame.set i data } }
        if sizeSub p.msg.maxFrameBytesD data.length > 0 then
          match ← findNextSender env p.msg data with
          | none => pure p
          | some k' => packLoop i original fuel k' p
        else pure p

/-- The bytes of a frame. A passed-through message keeps its body, after the header
encoded anew; `substr` throws if it is shorter than that. -/
def encodeFrame [DecidableEq Desc] (original : Bytes) (p : Packing Msg) : Code Desc Msg Bytes := do
  match p.passthrough, p.dcclMsgs.getLast? with
  | some body, some last => do
      let front ← encodeRepeated env p.dcclMsgs.dropLast
      let head ← encode env last.dcclMsg true
      if head.length ≤ body.length then pure (original ++ front ++ head ++ body.drop head.length)
      else throw .outOfRange
  | _, _ => do
      let pieces ← encodeRepeated env p.dcclMsgs
      pure (original ++ pieces)

/-- One frame: the transmission with the frame filled, and the messages put in it. A
frame that fails to encode is left empty. -/
def packFrame [DecidableEq Desc] (fuel i : ℕ) (msg : ModemTransmission) :
    Code Desc Msg (ModemTransmission × List (Packed Msg)) := do
  let msg := if i < msg.frame.length then msg else { msg with frame := msg.frame ++ [[]] }
  let original := msg.frame.getD i []
  match ← findNextSender env msg original with
  | none => pure ({ msg with dest := some (← get).packetDest }, [])
  | some k => do
      let p ← packLoop env i original fuel k { msg := msg }
      match ← tryDccl (encodeFrame env original p) with
      | .ok data => pure ({ p.msg with frame := p.msg.frame.set i data }, p.packed)
      | .error _ => pure ({ p.msg with frame := p.msg.frame.set i [] }, p.packed)

def packFrames [DecidableEq Desc] (fuel : ℕ) :
    ℕ → ℕ → ModemTransmission → Code Desc Msg (ModemTransmission × List (List (Packed Msg)))
  | 0, _, msg => pure (msg, [])
  | count + 1, i, msg => do
      let (msg, packed) ← packFrame env fuel i msg
      let (msg, rest) ← packFrames fuel count (i + 1) msg
      pure (msg, packed :: rest)

/-- The number of frames the request loop runs through: `unsigned` arithmetic ends the
loop at once if the last frame number does not fit. -/
def frameCount (msg : ModemTransmission) : ℕ :=
  (msg.maxNumFrames + msg.frameStart) % 2 ^ 32 - msg.frameStart

/-- The filled transmission, with the messages put in each frame. `fuel` bounds the
messages tried for one frame. -/
def handleModemDataRequest [DecidableEq Desc] (fuel : ℕ) (msg : ModemTransmission) :
    Code Desc Msg (ModemTransmission × List (List (Packed Msg))) := do
  clearPacket env msg
  let (filled, packed) ← packFrames env fuel (frameCount msg) 0 msg
  pure ({ filled with ackRequested := some (← get).packetAck }, packed)

/-- Pops the message that a queue holds under an acknowledged frame, and signals it. -/
def ackEntry (ack : ModemTransmission) (frame k : ℕ) : Code Desc Msg Unit := do
  let q ← getQueue k
  match q.popMessageAck frame with
  | none => throw .undefined
  | some (none, _) => pure ()
  | some (some (it, removed), q') => do
      putQueue k q' [.ackPopped it frame removed]
      qsize env k
      emit [.signalAck ack (some (k, it)) removed]
      acknowledgeSource env ack.src removed .ack

/-- Rounds of the loop over the entries of an acknowledged frame; every round erases
one entry, so their number bounds the rounds. -/
def ackLoop (ack : ModemTransmission) (frame : ℕ) : ℕ → Code Desc Msg Unit
  | 0 => pure ()
  | fuel + 1 => do
      match (← get).waitingForAck.find frame with
      | none => pure ()
      | some (_, k) => do
          ackEntry env ack frame k
          modify (fun s => { s with waitingForAck := s.waitingForAck.eraseFound frame })
          ackLoop ack frame fuel

/-- One acknowledged frame, unless the acknowledgment is for another modem. -/
def ackFrame (ack : ModemTransmission) (f : ℤ) : Code Desc Msg Unit := do
  let s ← get
  if ack.destD ≠ s.modemId then pure ()
  else ackLoop env ack (toUnsigned f) (s.waitingForAck.count (toUnsigned f))

def ackFrames (ack : ModemTransmission) : List ℤ → Code Desc Msg Unit
  | [] => pure ()
  | f :: rest => do
      ackFrame env ack f
      ackFrames ack rest

def processModemAck (ack : ModemTransmission) : Code Desc Msg Unit := ackFrames env ack ack.ackedFrame

/-- One message at the front of the bytes; with rules, the source in its header chooses
the passphrase. -/
def decodeOne [DecidableEq Desc] (bytes : Bytes) : Code Desc Msg (QueuedMessage Msg) := do
  if (← get).encryptRules.isEmpty then do
    let m ← decode env bytes false
    pure ⟨m, ← metaFromMsg env m⟩
  else do
    let header ← decode env bytes true
    let msgMeta ← metaFromMsg env header
    applyRule env msgMeta.srcD
    pure ⟨← decode env bytes false, msgMeta⟩

/-- Rounds of the decoding loop. A failure is thrown on only if nothing was decoded. -/
def decodeLoop [DecidableEq Desc] :
    ℕ → Bytes → List (QueuedMessage Msg) → Code Desc Msg (List (QueuedMessage Msg))
  | _, [], out => pure out
  | 0, _, _ => throw .fuel
  | fuel + 1, bytes, out => do
      match ← tryDccl (decodeOne env bytes) with
      | .error e => if out.isEmpty then throw (.dccl e) else pure out
      | .ok m => do
          match env.size (← get).codec.codec.settings m.dcclMsg with
          | .error _ => pure (out ++ [m])
          | .ok lastSize => decodeLoop fuel (bytes.drop lastSize) (out ++ [m])

def decodeRepeated [DecidableEq Desc] (bytes : Bytes) : Code Desc Msg (List (QueuedMessage Msg)) :=
  decodeLoop env bytes.length bytes []

def deliver (m : QueuedMessage Msg) : Code Desc Msg Unit := do
  let s ← get
  let id := env.id (env.descriptor m.dcclMsg)
  let dest := m.msgMeta.destD
  if dest ≠ broadcastId ∧ dest ≠ s.modemId ∧ s.hasManip id .promiscuous = false then pure ()
  else if dest = broadcastId ∧ m.msgMeta.srcD = s.modemId then pure ()
  else if s.hasManip id .noDequeue then pure ()
  else emit [.signalReceive m.dcclMsg]

def deliverAll : List (QueuedMessage Msg) → Code Desc Msg Unit
  | [] => pure ()
  | m :: rest => do
      deliver env m
      deliverAll rest

/-- The first block for a received frame: its messages are decoded and delivered. -/
def receiveFrame [DecidableEq Desc] (frame : Bytes) : Code Desc Msg Unit := do
  if (← get).cfg.skipDecoding.getD false then pure ()
  else deliverAll env (← decodeRepeated env frame)

/-- The second block: the header is decoded for routing, if a router is connected. -/
def routeFrame (transmission : ModemTransmission) (frame : Bytes) : Code Desc Msg Unit := do
  let s ← get
  if env.inRouteConnected s.readings then do
    let header ← decode env frame true
    let msgMeta ← metaFromMsg env header
    if transmission.destD = s.modemId ∨ transmission.destD ∈ s.routeAdditionalModemIds then
      emit [.inRoute { msgMeta with
        encodedMessage := some frame, nonRepeatedSize := some frame.length } header s.modemId]
    else pure ()
  else pure ()

def receiveFrames [DecidableEq Desc] (transmission : ModemTransmission) :
    List Bytes → Code Desc Msg Unit
  | [] => pure ()
  | frame :: rest => do
      let _ ← tryDccl (receiveFrame env frame)
      let _ ← tryDccl (routeFrame env transmission frame)
      receiveFrames transmission rest

def handleModemReceive [DecidableEq Desc] (transmission : ModemTransmission) : Code Desc Msg Unit :=
  if transmission.type = .ack then processModemAck env transmission
  else receiveFrames env transmission transmission.frame

def setQueueCfg (k : ℕ) (q : Queue Desc Msg) (entry : QueuedMessageEntry) : Code Desc Msg Unit := do
  match Queue.setCfg env.toLibrary entry q with
  | .ok _ q' => putQueue k q' []
  | .error e q' => do
      putQueue k q' []
      throw e

def validate [DecidableEq Desc] (desc : Desc) : Code Desc Msg Unit := do
  let s ← get
  match s.codec.validate env.toLibrary desc with
  | .error e => throw (.queue ("could not create queue for message: " ++ env.fullName desc ++
      " because it failed DCCL validation: " ++ e))
  | .ok codec => set { s with codec := codec }

/-- The constructor of `Queue`; it is only kept if its configuration is accepted. -/
def newQueue (desc : Desc) (entry : QueuedMessageEntry) : Code Desc Msg Unit := do
  let s ← get
  setReadings (s.readings + 1)
  let now := unixMicrosec2ptime (env.clock s.readings)
  match Queue.processCfg env.toLibrary { desc := desc, cfg := entry, lastSendTime := now } with
  | .error e _ => throw e
  | .ok _ q => do
      putQueue (env.id desc) q []
      qsize env (env.id desc)

def addQueue [DecidableEq Desc] (desc : Desc) (entry : QueuedMessageEntry) : Code Desc Msg Unit := do
  validate env desc
  match (← get).queues[env.id desc]? with
  | some q => setQueueCfg env (env.id desc) q entry
  | none => newQueue env desc entry

/-- A message entry, unless there is no message type by its name. -/
def addEntry [DecidableEq Desc] (entry : QueuedMessageEntry) : Code Desc Msg Unit :=
  match env.findDescriptor entry.protobufName with
  | none => pure ()
  | some desc => do
      addQueue env desc entry
      let add := fun (m : Multimap ℕ Manipulator) manip => m.insert (env.id desc) manip
      modify (fun s => { s with manips := entry.manipulator.foldl add s.manips })

def addEntries [DecidableEq Desc] : List QueuedMessageEntry → Code Desc Msg Unit
  | [] => pure ()
  | entry :: rest => do
      addEntry env entry
      addEntries rest

def processCfg [DecidableEq Desc] : Code Desc Msg Unit := do
  modify (fun s => { s with
    modemId := s.cfg.modemId.getD 0
    manips := []
    networkAckSrcIds := []
    routeAdditionalModemIds := []
    encryptRules := ∅ })
  addEntries env (← get).cfg.messageEntry
  modify (fun s => { s with
    networkAckSrcIds := s.cfg.makeNetworkAckForSrcId
    routeAdditionalModemIds := s.cfg.routeForAdditionalModemId
    encryptRules := s.cfg.encryptRule.foldl (fun m r => m.insert r.id r.cryptoPassphrase) ∅ })

def setCfg [DecidableEq Desc] (cfg : QueueManagerConfig) : Code Desc Msg Unit := do
  modify (fun s => { s with cfg := cfg })
  processCfg env

def mergeCfg [DecidableEq Desc] (cfg : QueueManagerConfig) : Code Desc Msg Unit := do
  modify (fun s => { s with cfg := s.cfg.mergeFrom cfg })
  processCfg env

end QueueManager
end Goby
