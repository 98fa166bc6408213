import Goby.Bimaps
import Goby.ExceptionState
import Goby.IridiumFrames
import Goby.RudicsReception
import Std.Data.TreeMap

/-! The shore driver accepts connections from mobile modems. It learns which modem a connection
belongs to from the first message on it, keeps a record of the call for each modem while it
lasts, and hangs up calls that have nothing more to say. -/

namespace Goby

/-- `OnCallBase`, the record of a call. -/
structure OnCall where
  lastTxTime : ℚ
  lastRxTime : ℚ := 0
  byeReceived : Bool := false
  byeSent : Bool := false
  totalBytesSent : ℕ := 0
  lastBytesSent : ℕ := 0
  deriving DecidableEq

namespace OnCall

def lastRxTxTime (c : OnCall) : ℚ := max c.lastTxTime c.lastRxTime

def sent (c : OnCall) (now : ℚ) (bytes : ℕ) : OnCall :=
  { c with
    lastTxTime := now
    lastBytesSent := bytes
    totalBytesSent := c.totalBytesSent + bytes }

end OnCall

/-- What the driver does to the outside. Connections are known by a number. -/
inductive ShoreEvent where
  | write (connection : ℕ) (data : Bytes)
  | close (connection : ℕ)
  | sbdMt (imei : String) (data : Bytes)
  | received (msg : DriverTransmission)
  deriving DecidableEq

/-- `calls` has the modems with a record; a missing one is a null pointer. The pending read of
an aborted connection has not been reported yet. -/
structure IridiumShore where
  nextFrame : ℕ := 0
  calls : Std.TreeMap ℕ OnCall := ∅
  clients : Bimap ℕ ℕ := ∅
  aborted : List ℕ := []
  packetFailures : Std.TreeMap ℕ ℕ := ∅
  out : List ShoreEvent := []

inductive ShoreFailure where
  | nullOnCall
  | thrown (e : Failure)
  deriving DecidableEq

structure ShoreEnv where
  codec : HeaderCodec
  crc : Bytes → UInt32
  modemId : ℤ
  maxFrameSize : ℕ := 1500
  targetBitRate : ℚ := 2400
  handshakeHangupSeconds : ℚ := 5
  hangupSecondsAfterEmpty : ℚ := 30
  imei : ℕ → Option String := fun _ => none

abbrev ShoreM := EStateM ShoreFailure IridiumShore

namespace IridiumShore

def log (s : IridiumShore) (e : ShoreEvent) : IridiumShore := { s with out := s.out ++ [e] }

def modemKey (id : ℤ) : ℕ := toUnsigned id

def onCall (id : ℕ) : ShoreM OnCall := do
  let s ← get
  match s.calls[id]? with
  | some c => pure c
  | none => throw .nullOnCall

def setOnCall (id : ℕ) (c : OnCall) : ShoreM Unit :=
  modify fun s => { s with calls := s.calls.insert id c }

variable (env : ShoreEnv)

def framed (msg : DriverTransmission) : ShoreM Bytes :=
  match serializeIridiumModemMessage env.codec msg with
  | .ok bytes => pure (serializeRudicsPacket env.crc bytes)
  | .error e => throw (.thrown e)

/-- A modem that has no connection is not sent anything. -/
def writeTo (data : Bytes) (id : ℕ) (s : IridiumShore) : IridiumShore :=
  match s.clients.left? id with
  | some connection => s.log (.write connection data)
  | none => s

def rudicsSend (data : Bytes) (id : ℕ) : ShoreM Unit := modify (writeTo data id)

variable (now : ℚ)

def sendOnCall (msg : DriverTransmission) : ShoreM Unit := do
  let rudicsPacket ← framed env msg
  rudicsSend rudicsPacket (modemKey msg.destD)
  let c ← onCall (modemKey msg.destD)
  setOnCall (modemKey msg.destD) (c.sent now rudicsPacket.length)

def sendSbd (msg : DriverTransmission) : ShoreM Unit := do
  let sbdPacket ← framed env msg
  match env.imei (modemKey msg.destD) with
  | some imei => modify fun s => s.log (.sbdMt imei sbdPacket)
  | none => pure ()

def send (msg : DriverTransmission) : ShoreM Unit := do
  let s ← get
  if msg.rateD = rateRudics ∨ modemKey msg.destD ∈ s.calls then sendOnCall env now msg
  else if msg.rateD = rateSbd then sendSbd env msg
  else pure ()

/-- Only messages are acted on; the shore driver neither dials nor checks a mailbox. -/
def perform (env : ShoreEnv) (now : ℚ) : List IridiumAction → ShoreM Unit
  | [] => pure ()
  | .send msg :: actions => do
      send env now msg
      perform env now actions
  | _ :: actions => perform env now actions

variable (signals : DriverSignals)

def processTransmission (msg : DriverTransmission) : ShoreM Unit := do
  let s ← get
  let r := IridiumShoreDriver.processTransmission env.maxFrameSize signals s.nextFrame msg
  set { s with nextFrame := r.1 }
  perform env now r.2

def handleInitiateTransmission
    (msg : DriverTransmission) : ShoreM Unit := processTransmission env now signals msg

def acknowledge (msg : DriverTransmission) : ShoreM Unit :=
  match receiveAck env.modemId msg with
  | some ack => send env now ack
  | none => pure ()

def receive (msg : DriverTransmission) : ShoreM Unit := do
  acknowledge env now msg
  modify fun s => s.log (.received msg)

def rudicsMacMsg (dest : ℤ) : DriverTransmission where
  src := env.modemId
  dest := some dest
  type := .data
  rate := some rateRudics

def sendWait (c : OnCall) : ℚ := c.lastBytesSent / (env.targetBitRate / 8)

/-- Data is pushed at the target rate, until a bye was sent. -/
def pushData (id : ℕ) (c : OnCall) : ShoreM Unit :=
  if now > c.lastTxTime + sendWait env c ∧ c.byeSent = false then
    processTransmission env now signals (rudicsMacMsg env (toInt id))
  else pure ()

def byeDue (c : OnCall) : Prop :=
  c.byeSent = false ∧ now > c.lastTxTime + env.handshakeHangupSeconds

instance (env : ShoreEnv) (now : ℚ) (c : OnCall) : Decidable (byeDue env now c) :=
  inferInstanceAs (Decidable (_ ∧ _))

def sendBye (id : ℕ) : ShoreM Unit := do
  let c ← onCall id
  if byeDue env now c then do
    rudicsSend (ascii "bye\r") id
    setOnCall id { c with byeSent := true }
  else pure ()

def hangupDue (c : OnCall) : Prop :=
  (c.byeReceived = true ∧ c.byeSent = true) ∨ now > c.lastRxTxTime + env.hangupSecondsAfterEmpty

instance (env : ShoreEnv) (now : ℚ) (c : OnCall) : Decidable (hangupDue env now c) :=
  inferInstanceAs (Decidable (_ ∨ _))

/-- The connection is closed and the call forgotten; the client stays until the disconnection
is reported. -/
def hangUp (id : ℕ) (s : IridiumShore) : IridiumShore :=
  let s := match s.clients.left? id with
    | some connection => { s.log (.close connection) with aborted := s.aborted ++ [connection] }
    | none => s
  { s with calls := s.calls.erase id }

def checkHangup (id : ℕ) : ShoreM Unit := do
  let c ← onCall id
  if hangupDue env now c then modify (hangUp id) else pure ()

/-- The visit of a node. Nothing on the way resets the record of its call, which the loop holds a
pointer to. -/
def visit (id : ℕ) : ShoreM Unit := do
  let s ← get
  match s.calls[id]? with
  | none => pure ()
  | some c => do
      pushData env now signals id c
      sendBye env now id
      checkHangup env now id

def visitAll (env : ShoreEnv) (now : ℚ) (signals : ℕ → DriverSignals) : List ℕ → ShoreM Unit
  | [] => pure ()
  | id :: ids => do
      visit env now (signals id) id
      visitAll env now signals ids

def forget (connection : ℕ) (s : IridiumShore) : IridiumShore :=
  match s.clients.right? connection with
  | some id => { s with
      calls := s.calls.erase id
      clients := s.clients.eraseRight connection }
  | none => s

def rudicsDisconnect (connection : ℕ) : ShoreM Unit := modify (forget connection)

/-- The handlers that are ready when `rudics_io_.poll()` begins: of every connection that was
closed the read is aborted, which `handle_read` signals as a disconnection. -/
def pollAborted (s : IridiumShore) : IridiumShore :=
  s.aborted.foldl (fun s connection => forget connection s) { s with aborted := [] }

/-- The nodes that have a call are visited in the order of the map, and then the io services are
polled. Every other handler that `poll` runs, for what has arrived on a connection, and every
message that `receive_sbd_mo` takes is a call of its own that follows this one. -/
def doWork (signals : ℕ → DriverSignals) : ShoreM Unit := do
  let s ← get
  visitAll env now signals s.calls.keys
  modify pollAborted

def receiveBye (connection : ℕ) : ShoreM Unit := do
  let s ← get
  match s.clients.right? connection with
  | some id => do
      let c ← onCall id
      setOnCall id { c with byeReceived := true }
  | none => pure ()

/-- Three bad packets close a connection. -/
def addPacketFailure (connection : ℕ) (s : IridiumShore) : IridiumShore :=
  let failures := s.packetFailures.getD connection 0 + 1
  let s := { s with packetFailures := s.packetFailures.insert connection failures }
  if failures ≥ 3 then s.log (.close connection) else s

/-- A modem that is not known yet is now. The entry is not made if the connection has one. -/
def addClient (id connection : ℕ) (s : IridiumShore) : IridiumShore :=
  match s.clients.left? id with
  | some _ => s
  | none => { s with
      clients := s.clients.insert id connection
      calls := s.calls.insert id { lastTxTime := now } }

def receiveMessage (connection : ℕ) (msg : DriverTransmission) : ShoreM Unit := do
  modify (addClient now (modemKey msg.src) connection)
  let c ← onCall (modemKey msg.src)
  setOnCall (modemKey msg.src) { c with lastRxTime := now }
  receive env now msg

def decodePacket (data : Bytes) :
    Except RudicsPacketException (Except Failure DriverTransmission) :=
  (parseRudicsPacket env.crc data).map (parseIridiumModemMessage env.codec)

/-- The literal `"\0goby\r"` is compared as an empty string. -/
def rudicsLine (data : Bytes) (connection : ℕ) : ShoreM Unit :=
  if data = ascii "goby\r" ∨ data = [] then pure ()
  else if data = ascii "bye\r" then receiveBye connection
  else match decodePacket env data with
    | .error _ => modify (addPacketFailure connection)
    | .ok (.error e) => throw (.thrown e)
    | .ok (.ok msg) => receiveMessage env now connection msg

/-- A message in a short burst of the mobile modem; a bad packet is dropped. -/
def receiveSbdMo (payload : Bytes) : ShoreM Unit :=
  match decodePacket env payload with
  | .error _ => pure ()
  | .ok (.error e) => throw (.thrown e)
  | .ok (.ok msg) => receive env now msg

end IridiumShore
end Goby
