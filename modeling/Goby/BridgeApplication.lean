import Goby.ExceptionState
import Goby.RouteManager

/-! `goby_bridge` has a queue manager and a MAC manager for each subnet. Besides routing messages it
carries out two special commands, of each of which it remembers one. For a hardware control command
it takes over a transmission of the MAC and waits for the reply; for a time update it takes over
one to ping the node, and others to send it the time together with the time of flight, and waits
for an ack. The sender of a command is told of the end of it by a network ack.

The queue managers and the route manager are known by what they do to the bridge: the messages
that they deliver during a call, and whether a call of them returns. A log keeps what has been
delivered, received, transmitted and routed. -/

namespace Goby

inductive HardwareControlMode where
  | readLine | setValue | toggleHigh | toggleLow
deriving DecidableEq

structure HardwareControl where
  line : ℕ := 5
  mode : HardwareControlMode := .readLine
  arg : ℕ := 0
deriving DecidableEq

structure HardwareControlCommand where
  commandSrc : ℤ
  commandDest : ℤ
  time : ℕ := 0
  hwCtlDest : Option ℤ := none
  control : HardwareControl := {}
deriving DecidableEq

structure TimeUpdateRequest where
  src : ℤ
  time : ℕ
  updateTimeForId : ℤ
deriving DecidableEq

structure TimeUpdateResponse where
  src : ℤ
  dest : ℤ
  time : ℕ
  timeOfFlightMicrosec : Option ℕ := none
  requestSrc : ℤ
deriving DecidableEq

def hardwareControlCommandId : ℕ := 515

def timeUpdateRequestId : ℕ := 0x0204

inductive QueueMessage where
  | routeCommand (newRoute : List ℤ)
  | hardwareControlCommand (command : HardwareControlCommand)
  | timeUpdateRequest (request : TimeUpdateRequest)
  | other
deriving DecidableEq

inductive MicroModemType where
  | baseType | twoWayPing | remusLblRanging | narrowbandLblRanging | miniData | flexibleData
  | hardwareControl | hardwareControlReply | genericLblRanging | fmSweep | mSequence
deriving DecidableEq

structure RangingReply where
  oneWayTravelTime : List ℚ := []
deriving DecidableEq

/-- A transmission with the extensions of the micromodem. Of the receive statistics only the
number matters. -/
structure MicroModemTransmission extends ModemTransmission where
  microModemType : MicroModemType := .baseType
  rangingReply : Option RangingReply := none
  receiveStat : ℕ := 0
  hwCtl : Option HardwareControl := none
deriving DecidableEq

inductive RoutedMessage where
  | networkAck (ack : NetworkAck)
  | receiveStatistics
  | rangingReply (ranging : RangingReply)
deriving DecidableEq

/-- A message from the modem of a subnet, with the messages that the queue manager delivers, from
any subnet, while it handles it. If it is an ack, it belongs to the transmission of a number. -/
structure BridgeReception where
  inQueue : ℕ
  message : MicroModemTransmission
  delivered : List (ℕ × QueueMessage) := []
  queueFails : Bool := false
  acknowledges : Option ℕ := none
deriving DecidableEq

inductive BridgeEvent where
  | commanded (command : HardwareControlCommand)
  | requested (request : TimeUpdateRequest)
  | received (reception : BridgeReception)
  /-- A response is given the time at which it is to be sent. -/
  | stamped (response : TimeUpdateResponse)
  /-- A transmission on a subnet, with the response that it carries. -/
  | transmitted (subnet : ℕ) (transmission : MicroModemTransmission)
      (response : Option TimeUpdateResponse)
  | routed (inQueue : ℕ) (message : RoutedMessage)
  | looped (now : ℕ)
deriving DecidableEq

structure Bridge where
  routeCfg : RouteManagerConfig := {}
  pendingHwCtl : Option HardwareControlCommand := none
  pendingTimeUpdate : Option TimeUpdateResponse := none
  timeUpdateRequestTime : ℕ := 0
  readings : ℕ := 0
  log : List BridgeEvent := []

inductive BridgeFailure where
  | queue | dccl
deriving DecidableEq

/-- How a message fares that is handed to the route manager: there may be no metadata for it, and
`handle_in` may throw. -/
inductive Routing where
  | noMeta | fails | returns
deriving DecidableEq

structure BridgeEnv where
  modemId : ℕ → ℤ
  routeCfg : RouteManagerConfig := {}
  forwardCacst : Bool := true
  forwardRangingReply : Bool := true
  specialCommandTtl : ℤ := 1800
  clock : ℕ → ℕ
  /-- Encoding by DCCL, unless it throws. -/
  encode : TimeUpdateResponse → Option Bytes
  /-- By the number of the event. -/
  routing : ℕ → ℕ → RoutedMessage → Routing

abbrev BridgeM := EStateM BridgeFailure Bridge

namespace Bridge

variable (env : BridgeEnv)

def record (e : BridgeEvent) (s : Bridge) : Bridge := { s with log := s.log ++ [e] }

def readClock : BridgeM ℕ := do
  let s ← get
  set { s with readings := s.readings + 1 }
  pure (env.clock s.readings)

/-- The destination of the hardware control defaults to that of the command. -/
def withDest (command : HardwareControlCommand) : HardwareControlCommand :=
  { command with hwCtlDest := some (command.hwCtlDest.getD command.commandDest) }

def responseTo (modemId : ℤ) (request : TimeUpdateRequest) : TimeUpdateResponse where
  src := modemId
  dest := request.updateTimeForId
  time := request.time
  requestSrc := request.src

def handleQueueReceive (fromQueue : ℕ) (msg : QueueMessage) (s : Bridge) : Bridge :=
  match msg with
  | .routeCommand newRoute => { s with routeCfg := { env.routeCfg with hop := newRoute } }
  | .hardwareControlCommand command =>
    record (.commanded command) { s with pendingHwCtl := some (withDest command) }
  | .timeUpdateRequest request => record (.requested request)
      { s with
        pendingTimeUpdate := some (responseTo (env.modemId fromQueue) request)
        timeUpdateRequestTime := request.time }
  | .other => s

def handleAll (delivered : List (ℕ × QueueMessage)) (s : Bridge) : Bridge :=
  delivered.foldl (fun s d => handleQueueReceive env d.1 d.2 s) s

/-- `handle_in` of the route manager, with the metadata that the queue manager makes. -/
def routeIn (inQueue : ℕ) (message : RoutedMessage) : BridgeM Unit := do
  let s ← get
  match env.routing s.log.length inQueue message with
  | .noMeta => throw .queue
  | .fails => do
    modify (record (.routed inQueue message))
    throw .queue
  | .returns => modify (record (.routed inQueue message))

def hwCtlNetworkAck (command : HardwareControlCommand) (type : AckType) : NetworkAck where
  ackSrc := command.hwCtlDest.getD 0
  messageDcclId := hardwareControlCommandId
  messageSrc := command.commandSrc
  messageDest := command.commandDest
  messageTime := command.time
  ackType := type

variable (pending : TimeUpdateResponse)

def timeUpdateNetworkAck (requestTime : ℕ) (type : AckType) : NetworkAck where
  ackSrc := pending.dest
  messageDcclId := timeUpdateRequestId
  messageSrc := pending.requestSrc
  messageDest := pending.dest
  messageTime := requestTime
  ackType := type

def endHwCtl (inQueue : ℕ) (command : HardwareControlCommand) (type : AckType) : BridgeM Unit := do
  routeIn env inQueue (.networkAck (hwCtlNetworkAck command type))
  modify fun s => { s with pendingHwCtl := none }

def endTimeUpdate (inQueue : ℕ) (pending : TimeUpdateResponse) (type : AckType) : BridgeM Unit := do
  let s ← get
  routeIn env inQueue (.networkAck (timeUpdateNetworkAck pending s.timeUpdateRequestTime type))
  modify fun s => { s with pendingTimeUpdate := none }

def transmit (subnet : ℕ) (transmission : MicroModemTransmission) : BridgeM Unit :=
  modify (record (.transmitted subnet transmission none))

def pingFor (m : MicroModemTransmission) : MicroModemTransmission :=
  { m with
    dest := some pending.dest
    type := .driverSpecific
    microModemType := .twoWayPing }

def dataFor (m : MicroModemTransmission) (bytes : Bytes) : MicroModemTransmission :=
  { m with
    dest := some pending.dest
    type := .data
    ackRequested := some true
    frame := m.frame ++ [bytes] }

def controlFor (command : HardwareControlCommand) (m : MicroModemTransmission) :
    MicroModemTransmission :=
  { m with
    dest := some (command.hwCtlDest.getD 0)
    type := .driverSpecific
    microModemType := .hardwareControl
    hwCtl := some command.control }

def sendResponse (m : MicroModemTransmission) (subnet : ℕ) : BridgeM Unit := do
  let now ← readClock env
  let response := { pending with time := now }
  modify fun s => record (.stamped response) { s with pendingTimeUpdate := some response }
  match env.encode response with
  | none => throw .dccl
  | some bytes => modify (record (.transmitted subnet (dataFor response m bytes) (some response)))

variable (m : MicroModemTransmission)

/-- The transmission is to the node, or to one that is still to be chosen. -/
def suits (dest : ℤ) : Bool :=
  m.destD = dest || m.destD = queryDestinationId

def initiateOther (subnet : ℕ) : BridgeM Unit := do
  match (← get).pendingHwCtl with
  | none => transmit subnet m
  | some command =>
    if suits m (command.hwCtlDest.getD 0) then transmit subnet (controlFor command m)
    else transmit subnet m

def handleInitiateTransmission (subnet : ℕ) : BridgeM Unit := do
  match (← get).pendingTimeUpdate with
  | none => initiateOther m subnet
  | some pending =>
    if suits m pending.dest then
      if pending.timeOfFlightMicrosec.isSome then sendResponse env pending m subnet
      else transmit subnet (pingFor pending m)
    else initiateOther m subnet

def toUint64 (x : ℚ) : ℕ := (truncate x % 2 ^ 64).toNat

def isPingReply : Bool :=
  m.type = .driverSpecific && m.microModemType = .twoWayPing

def travelTimes : List ℚ := (m.rangingReply.getD {}).oneWayTravelTime

/-- The time of flight is that of the last ping reply. The exact product is truncated; the code rounds
it to a `double` first, which makes 290000 of 0.29 seconds and not 289999. -/
def measured (pending : TimeUpdateResponse) : TimeUpdateResponse :=
  match travelTimes m with
  | [] => pending
  | t :: _ => { pending with timeOfFlightMicrosec := some (toUint64 (t * 1000000)) }

def isFirstFrameAck : Bool :=
  m.type = .ack && m.ackedFrame.head? = some 0

variable (r : BridgeReception)

def checkTimeUpdate : BridgeM Unit := do
  match (← get).pendingTimeUpdate with
  | none => pure ()
  | some pending =>
    if isPingReply r.message then
      modify fun s => { s with pendingTimeUpdate := some (measured r.message pending) }
    else if isFirstFrameAck r.message && pending.timeOfFlightMicrosec.isSome then
      endTimeUpdate env r.inQueue pending .ack
    else pure ()

def isHwCtlReply (command : HardwareControlCommand) : Bool :=
  r.message.type = .driverSpecific && r.message.microModemType = .hardwareControlReply &&
    r.message.src = command.hwCtlDest.getD 0 && r.message.destD = env.modemId r.inQueue

def checkHwCtl : BridgeM Unit := do
  match (← get).pendingHwCtl with
  | none => pure ()
  | some command =>
    if isHwCtlReply env r command then endHwCtl env r.inQueue command .ack else pure ()

def forwardStatistics (inQueue : ℕ) : ℕ → BridgeM Unit
  | 0 => pure ()
  | n + 1 => do
    routeIn env inQueue .receiveStatistics
    forwardStatistics inQueue n

def forwardRanging : BridgeM Unit :=
  match r.message.rangingReply with
  | none => pure ()
  | some ranging =>
    if env.forwardRangingReply then routeIn env r.inQueue (.rangingReply ranging) else pure ()

/-- The queue manager handles the message, and parts of it are forwarded. -/
def passOn : BridgeM Unit := do
  modify (handleAll env r.delivered)
  if r.queueFails then throw .queue
  else do
    forwardStatistics env r.inQueue (if env.forwardCacst then r.message.receiveStat else 0)
    forwardRanging env r

def examine : BridgeM Unit := do
  modify (record (.received r))
  checkTimeUpdate env r
  checkHwCtl env r

def handleModemReceive : BridgeM Unit :=
  tryCatch (do
    passOn env r
    examine env r) fun _ => pure ()

/-- The time to live in microseconds is a product of type `int`, and is added to a `uint64`. -/
def expired (time now : ℕ) : Bool :=
  ((time + toInt (env.specialCommandTtl * 1000000)) % 2 ^ 64).toNat < now

def expireHwCtl (now : ℕ) : BridgeM Unit := do
  match (← get).pendingHwCtl with
  | none => pure ()
  | some command =>
    if expired env command.time now then endHwCtl env 0 command .expire else pure ()

def expireTimeUpdate (now : ℕ) : BridgeM Unit := do
  match (← get).pendingTimeUpdate with
  | none => pure ()
  | some pending =>
    if expired env pending.time now then endTimeUpdate env 0 pending .expire else pure ()

def expireCommands (now : ℕ) : BridgeM Unit := do
  modify (record (.looped now))
  expireHwCtl env now
  expireTimeUpdate env now

inductive Work where
  | receive (fromQueue : ℕ) (msg : QueueMessage)
  | initiate (m : MicroModemTransmission) (subnet : ℕ)
deriving DecidableEq

def doWork : List Work → BridgeM Unit
  | [] => pure ()
  | .receive fromQueue msg :: work => do
    modify (handleQueueReceive env fromQueue msg)
    doWork work
  | .initiate m subnet :: work => do
    handleInitiateTransmission env m subnet
    doWork work

def loop (work : List Work) : BridgeM Unit := do
  doWork env work
  let now ← readClock env
  expireCommands env now

inductive Call where
  | queueReceive (fromQueue : ℕ) (msg : QueueMessage)
  | modemReceive (r : BridgeReception)
  | loop (work : List Work)
deriving DecidableEq

def step : Call → Bridge → Bridge
  | .queueReceive fromQueue msg => handleQueueReceive env fromQueue msg
  | .modemReceive r => finalState (handleModemReceive env r)
  | .loop work => finalState (loop env work)

end Bridge

end Goby
