import Goby.CircularBuffers
import Goby.IridiumShore
import Goby.LexicalCasts

/-! The machine has two regions. In the one, the modem takes commands (`Command`), which is itself
divided into the state of the line and that of a short burst, or it is online. In the other, there
is a call or there is none. Reactions post further events, which are processed before the machine
takes the next one from the driver. Reactions to a line from the modem and to a message that is
sent on a call may throw, and no reaction catches anything but a bad packet. -/

namespace Goby

inductive IridiumEvent where
  | rxSerial (line : Bytes)
  | txSerial
  | rxOnCallSerial (line : Bytes)
  | txOnCallSerial
  | ack (response : Bytes)
  | atEmpty
  | reset
  | dial
  | ring
  | online
  | hangup
  | connect
  | noCarrier
  | disconnect
  | sendBye
  | configured
  | sbdBeginData (data : Bytes) (inResponseToRingAlert : Bool)
  | sbdSendBufferCleared
  | sbdWriteReady
  | sbdWriteComplete
  | sbdTransmitComplete (sbdi : Bytes)
  | sbdReceiveComplete
  deriving DecidableEq

inductive LineLeaf where
  | configure | ready | hangingUp | postDisconnected | dial (attempts : ℕ) | answer
  deriving DecidableEq

inductive SbdLeaf where
  | ready | clearBuffers | write | transmit | receive
  deriving DecidableEq

/-- A command in `at_out_` with its `ATSentenceMeta`. -/
structure AtSentence where
  command : Bytes
  lastSendTime : ℚ := 0
  tries : ℕ := 0
  deriving DecidableEq

/-- `Command` with what belongs to `SBD`. -/
structure IridiumCommand where
  leaf : LineLeaf
  sbd : SbdLeaf := .ready
  data : Bytes := []
  inResponseToRingAlert : Bool := false
  atOut : List AtSentence := []
  sbdRxBuffer : Bytes := []
  deriving DecidableEq

/-- There is no `Command` while the modem is online, and a record while there is a call. -/
structure IridiumFsm where
  command : Option IridiumCommand
  onCall : Option OnCall := none
  serialTx : List Bytes := []
  received : List DriverTransmission := []
  dataOut : List DriverTransmission := []
  posted : List IridiumEvent := []
  deriving DecidableEq

inductive MobileFailure where
  | rudicsPacket (e : RudicsPacketException)
  | thrown (e : Failure)
  deriving DecidableEq

/-- The configuration, and the code that the driver calls. -/
structure MobileEnv where
  codec : HeaderCodec
  crc : Bytes → UInt32
  modemId : ℤ
  config : List Bytes := []
  iridiumNumber : Bytes := []
  dialAttempts : ℕ := 3
  maxFrameSize : ℕ := 1500
  targetBitRate : ℚ := 2400
  handshakeHangupSeconds : ℚ := 5
  hangupSecondsAfterEmpty : ℚ := 30
  useDtr : Bool := false

abbrev FsmM := EStateM MobileFailure IridiumFsm

def sbdRead : Bytes := ascii "+SBDRB"

def triplePlus : Bytes := ascii "+++"

namespace IridiumCommand

def pushAtCommand (c : IridiumCommand) (cmd : Bytes) : IridiumCommand :=
  { c with atOut := circularPush 100 c.atOut { command := cmd } }

def front? (c : IridiumCommand) : Option Bytes := c.atOut.head?.map AtSentence.command

variable (env : MobileEnv)

def leafCommands : LineLeaf → List Bytes
  | .configure => [] :: env.config
  | .ready => []
  | .hangingUp => [triplePlus, ascii "H"]
  | .postDisconnected => [ascii "+CEER"]
  | .dial _ => [ascii "D" ++ env.iridiumNumber]
  | .answer => [ascii "A"]

def enterLeaf (leaf : LineLeaf) (c : IridiumCommand) : IridiumCommand :=
  (leafCommands env leaf).foldl pushAtCommand { c with leaf := leaf }

def make (leaf : LineLeaf) : IridiumCommand := enterLeaf env leaf { leaf := leaf }

/-- `~Configure`. -/
def exitEvents (c : IridiumCommand) : List IridiumEvent :=
  if c.leaf = .configure then [.configured] else []

def sbdCsum (data : Bytes) : ℕ := (data.map UInt8.toNat).sum % 2 ^ 32

/-- The data of a burst is followed by its checksum. -/
def setData (data : Bytes) (inResponseToRingAlert : Bool) (c : IridiumCommand) : IridiumCommand :=
  { c with
    data :=
      if data.isEmpty then data
      else data ++ [UInt8.ofNat (sbdCsum data / 256), UInt8.ofNat (sbdCsum data)]
    inResponseToRingAlert := inResponseToRingAlert }

def enterSbd (sbd : SbdLeaf) (c : IridiumCommand) : IridiumCommand :=
  let c := { c with sbd := sbd }
  match sbd with
  | .ready => c
  | .clearBuffers => { c with sbdRxBuffer := [] }.pushAtCommand (ascii "+SBDD2")
  | .write =>
    if c.data.isEmpty then c
    else c.pushAtCommand (ascii "+SBDWB=" ++ ascii (toString (c.data.length - 2)))
  | .transmit => c.pushAtCommand (ascii (if c.inResponseToRingAlert then "+SBDIXA" else "+SBDIX"))
  | .receive => c.pushAtCommand sbdRead

/-- A message is fetched if the exchange succeeded and one was received. -/
def sbdiOutcome (sbdi : Bytes) : SbdLeaf :=
  match (sbdi.splitOnP fun b => b = 0x3A ∨ b = 0x2C).map trimCopy with
  | [_, moStatus, _, mtStatus, _, _, _] =>
    if asInt moStatus ≤ 4 ∧ asInt mtStatus = 1 then .receive else .ready
  | _ => .ready

def timeout (cmd : Bytes) : ℚ :=
  if ascii "+SBDI" <+: cmd then 60
  else if cmd = triplePlus then 6
  else if cmd.head? = some 0x44 then 60
  else if cmd.head? = some 0x41 then 30
  else if cmd.head? = some 0x48 then 10
  else 2

/-- The line is added to what has been read of a reply, without the end of the last line. -/
def accumulate (buffer line : Bytes) : Bytes :=
  if buffer = [] ∧ line.head? = some 0x0A then line.tail else buffer ++ line

/-- The data of a reply, once there are as many bytes as its size field says. -/
def announced (buffer : Bytes) : Option Bytes :=
  match buffer with
  | high :: low :: rest =>
    let size := high.toNat * 256 + low.toNat
    if rest.length < size then none else some (rest.take size)
  | _ => none

end IridiumCommand

namespace IridiumFsm

open IridiumCommand

def post (e : IridiumEvent) (s : IridiumFsm) : IridiumFsm := { s with posted := s.posted ++ [e] }

def postAll (es : List IridiumEvent) (s : IridiumFsm) : IridiumFsm := { s with posted := s.posted ++ es }

def onCommand (f : IridiumCommand → IridiumFsm → IridiumFsm) (s : IridiumFsm) : IridiumFsm :=
  match s.command with
  | some c => f c s
  | none => s

def setCommand (c : IridiumCommand) (s : IridiumFsm) : IridiumFsm := { s with command := some c }

variable (env : MobileEnv)

def setLeaf (leaf : LineLeaf) (c : IridiumCommand) (s : IridiumFsm) : IridiumFsm :=
  (s.setCommand (c.enterLeaf env leaf)).postAll c.exitEvents

/-- The state of a burst is changed; without data, there is nothing to write. -/
def setSbd (sbd : SbdLeaf) (c : IridiumCommand) (s : IridiumFsm) : IridiumFsm :=
  let s := s.setCommand (c.enterSbd sbd)
  if sbd = .write ∧ c.data.isEmpty then s.post .sbdWriteComplete else s

def lineEvents (text : Bytes) : List IridiumEvent :=
  if text = ascii "OK" then [.ack text]
  else if text = ascii "RING" then [.ring]
  else if text = ascii "NO CARRIER" then [.ack text, .noCarrier]
  else if ascii "CONNECT" <+: text then [.ack text, .connect]
  else if text = ascii "NO DIALTONE" then [.ack text, .noCarrier]
  else if text = ascii "BUSY" then [.ack text, .noCarrier]
  else if text = ascii "ERROR" then [.reset]
  else if text = ascii "0" ∨ text = ascii "1" ∨ text = ascii "2" ∨ text = ascii "3" then [.ack text]
  else if text = ascii "READY" then [.ack text]
  else if ascii "+SBDI" <+: text then [.sbdTransmitComplete text]
  else if text = ascii "SBDRING" then [.sbdBeginData [] true]
  else []

/-- The modem repeats the command in front, which is not the one to stop it from doing so. -/
def isEcho (c : IridiumCommand) (text : Bytes) : Prop :=
  ∃ cmd ∈ c.front?, cmd ≠ ascii "E" ∧ text = ascii "AT" ++ cmd

instance (c : IridiumCommand) (text : Bytes) : Decidable (isEcho c text) :=
  inferInstanceAs (Decidable (∃ cmd ∈ c.front?, _))

def commandRx (line : Bytes) (c : IridiumCommand) (s : IridiumFsm) : IridiumFsm :=
  if isEcho c (trimCopy line) then
    s.setCommand { c with atOut := circularInsert 100 c.atOut 1 { command := ascii "E" } }
  else s.postAll (lineEvents (trimCopy line))

/-- The command in front is sent unless an answer is still waited for, at most three times. What
has been read of a reply is discarded at any rate. -/
def commandTx (now : ℚ) (c : IridiumCommand) (s : IridiumFsm) : IridiumFsm :=
  match c.atOut with
  | [] => s
  | front :: rest =>
    let c := if front.command = sbdRead then { c with sbdRxBuffer := [] } else c
    if front.lastSendTime + timeout front.command < now then
      if 3 < front.tries + 1 then
        (s.setCommand { c with atOut := { front with tries := front.tries + 1 } :: rest }).post .reset
      else
        { s.setCommand { c with
            atOut := { front with tries := front.tries + 1, lastSendTime := now } :: rest } with
          serialTx := circularPush 10 s.serialTx
            (if front.command = triplePlus then front.command
              else ascii "AT" ++ front.command ++ [carriageReturn]) }
    else s.setCommand c

def commandAnswered (response : Bytes) (c : IridiumCommand) (s : IridiumFsm) : IridiumFsm :=
  match c.atOut with
  | [] => s
  | front :: rest =>
    let hungUp := response = ascii "OK" ∧
      (front.command.head? = some 0x48 ∨ front.command.head? = some 0x44)
    (s.setCommand { c with atOut := rest }).postAll
      ((if hungUp then [.noCarrier] else []) ++
        (if response = ascii "READY" then [.sbdWriteReady] else []) ++
        if rest.isEmpty then [.atEmpty] else [])

def commandAck (response : Bytes) (c : IridiumCommand) (s : IridiumFsm) : IridiumFsm :=
  match response.head? with
  | some 0x30 =>
    if c.front? = some (ascii "+SBDD2") then s.post .sbdSendBufferCleared
    else if c.atOut = [] then (s.setCommand (c.pushAtCommand (ascii "AT"))).post .sbdWriteComplete
    else s
  | some 0x31 => s
  | some 0x32 => s
  | some 0x33 => s
  | _ => commandAnswered response c s

def sbdReceived (msg : DriverTransmission) (s : IridiumFsm) : IridiumFsm :=
  onCommand (fun c s =>
    ({ s with received := circularPush 10 s.received msg }.setCommand
      ({ c with atOut := c.atOut.tail }.pushAtCommand [])).post .sbdReceiveComplete) s

def parsePacket (data : Bytes) : FsmM DriverTransmission :=
  match parseRudicsPacket env.crc data with
  | .error e => throw (.rudicsPacket e)
  | .ok bytes =>
    match parseIridiumModemMessage env.codec bytes with
    | .error e => throw (.thrown e)
    | .ok msg => pure msg

/-- The first character of the line is looked at only if nothing has been read yet. -/
def handleSbdRx (line : Bytes) (c : IridiumCommand) : FsmM Unit :=
  if c.sbdRxBuffer = [] ∧ line = [] then throw (.thrown .outOfRange)
  else do
    modify (setCommand { c with sbdRxBuffer := accumulate c.sbdRxBuffer line })
    match announced (accumulate c.sbdRxBuffer line) with
    | none => pure ()
    | some data => do
        let msg ← parsePacket env data
        modify (sbdReceived msg)

def setOnCall (call : OnCall) (s : IridiumFsm) : IridiumFsm := { s with onCall := some call }

/-- Only a bad packet is caught. -/
def onCallPacket (now : ℚ) (line : Bytes) (call : OnCall) : FsmM Unit :=
  match parseRudicsPacket env.crc line with
  | .error _ => pure ()
  | .ok bytes =>
    match parseIridiumModemMessage env.codec bytes with
    | .error e => throw (.thrown e)
    | .ok msg => modify fun s => { s with
        received := circularPush 10 s.received msg
        onCall := some { call with lastRxTime := now } }

def onCallRx (now : ℚ) (line : Bytes) (call : OnCall) : FsmM Unit :=
  if ascii "NO CARRIER" <:+: line then modify (post .noCarrier)
  else if trimCopy line = ascii "goby" then pure ()
  else if trimCopy line = ascii "bye" then modify (setOnCall { call with byeReceived := true })
  else onCallPacket env now line call

/-- The oldest message is sent if the packet before it has had time. -/
def onCallTx (now : ℚ) (call : OnCall) : FsmM Unit := do
  let s ← get
  match s.dataOut with
  | [] => pure ()
  | msg :: rest =>
    if now > call.lastTxTime + call.lastBytesSent / (env.targetBitRate / 8) then
      match serializeIridiumModemMessage env.codec msg with
      | .error e => throw (.thrown e)
      | .ok bytes =>
        let packet := serializeRudicsPacket env.crc bytes
        set { s with
          serialTx := circularPush 10 s.serialTx packet
          dataOut := rest
          onCall := some (call.sent now packet.length) }
    else pure ()

def leaveCall (s : IridiumFsm) : IridiumFsm :=
  match s.onCall with
  | some _ => { s with onCall := none }.post .disconnect
  | none => s

def reset (s : IridiumFsm) : IridiumFsm :=
  let exits := s.command.toList.flatMap exitEvents
  ((s.postAll exits).leaveCall).setCommand (make env .configure)

def dial (c : IridiumCommand) (s : IridiumFsm) : IridiumFsm :=
  if c.leaf = .ready ∧ s.onCall = none then s.setLeaf env (.dial 1) c else s

def ring (c : IridiumCommand) (s : IridiumFsm) : IridiumFsm :=
  if c.leaf = .ready then s.setLeaf env .answer c else s

def atEmpty (c : IridiumCommand) (s : IridiumFsm) : IridiumFsm :=
  match c.leaf with
  | .configure => s.setLeaf env .ready c
  | .hangingUp => s.setLeaf env .ready c
  | .postDisconnected => s.setLeaf env .ready c
  | .ready => s
  | .dial _ => s
  | .answer => s

/-- The line reacts before the call does. -/
def noCarrier (s : IridiumFsm) : IridiumFsm :=
  match s.command with
  | none => s.leaveCall
  | some c =>
    match c.leaf with
    | .dial attempts =>
      if attempts < env.dialAttempts then s.setLeaf env (.dial (attempts + 1)) c
      else s.setLeaf env .ready c
    | .answer => s.setLeaf env .ready c
    | .configure => s.leaveCall
    | .ready => s.leaveCall
    | .hangingUp => s.leaveCall
    | .postDisconnected => s.leaveCall

def leaveOnline (leaf : LineLeaf) (s : IridiumFsm) : IridiumFsm :=
  match s.command with
  | some _ => s
  | none => s.setCommand (make env leaf)

def online (c : IridiumCommand) (s : IridiumFsm) : IridiumFsm :=
  { s with command := none }.postAll c.exitEvents

def connect (now : ℚ) (s : IridiumFsm) : IridiumFsm :=
  match s.onCall with
  | some _ => s
  | none =>
    { s with
      onCall := some { lastTxTime := now }
      serialTx := circularPushFront 10 s.serialTx (ascii "goby\r") }.post .online

def sendBye (s : IridiumFsm) : IridiumFsm :=
  match s.onCall with
  | some call =>
    { s with
      onCall := some { call with byeSent := true }
      serialTx := circularPushFront 10 s.serialTx (ascii "bye\r") }
  | none => s

def sbdReact (e : IridiumEvent) (c : IridiumCommand) (s : IridiumFsm) : IridiumFsm :=
  match c.sbd, e with
  | .ready, .sbdBeginData data ring => s.setSbd .clearBuffers (c.setData data ring)
  | .clearBuffers, .sbdSendBufferCleared => s.setSbd .write c
  | .write, .sbdWriteReady => { s with serialTx := circularPush 10 s.serialTx c.data }
  | .write, .sbdWriteComplete => s.setSbd .transmit c
  | .transmit, .sbdTransmitComplete sbdi => s.setSbd (sbdiOutcome sbdi) { c with data := [] }
  | .receive, .sbdReceiveComplete => s.setSbd .ready c
  | _, _ => s

def calmReact (now : ℚ) (e : IridiumEvent) (s : IridiumFsm) : IridiumFsm :=
  match e with
  | .rxSerial line =>
    match s.command with
    | some c => commandRx line c s
    | none => s.post (.rxOnCallSerial line)
  | .txSerial =>
    match s.command with
    | some c => commandTx now c s
    | none => s.post .txOnCallSerial
  | .rxOnCallSerial _ => s
  | .txOnCallSerial => s
  | .ack response => s.onCommand (commandAck response)
  | .atEmpty => s.onCommand (atEmpty env)
  | .reset => s.reset env
  | .dial => s.onCommand (dial env)
  | .ring => s.onCommand (ring env)
  | .online => s.onCommand online
  | .hangup => s.leaveOnline env .hangingUp
  | .connect => s.connect now
  | .noCarrier => s.noCarrier env
  | .disconnect => s.leaveOnline env .postDisconnected
  | .sendBye => s.sendBye
  | .configured => s
  | e => s.onCommand (sbdReact e)

/-- A line while `+SBDRB` is in front, and what is read or sent on a call, may throw. -/
def react (now : ℚ) (e : IridiumEvent) : FsmM Unit := do
  let s ← get
  match e, s.command, s.onCall with
  | .rxSerial line, some c, _ =>
    if c.front? = some sbdRead then handleSbdRx env line c
    else set (s.calmReact env now (.rxSerial line))
  | .rxOnCallSerial line, _, some call => onCallRx env now line call
  | .txOnCallSerial, _, some call => onCallTx env now call
  | e, _, _ => set (s.calmReact env now e)

def drain (env : MobileEnv) (now : ℚ) : ℕ → FsmM Unit
  | 0 => do
      let s ← get
      if s.posted.isEmpty then pure () else throw (.thrown .fuel)
  | fuel + 1 => do
      let s ← get
      match s.posted with
      | [] => pure ()
      | e :: events => do
          set { s with posted := events }
          react env now e
          drain env now fuel

/-- No event leads to more than nine others. -/
def processEvent (now : ℚ) (e : IridiumEvent) : FsmM Unit := do
  react env now e
  drain env now 9

def initiate : IridiumFsm := { command := some (make env .configure) }

end IridiumFsm

end Goby
