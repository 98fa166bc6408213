import Goby.CircularBuffers
import Goby.IridiumMessages
import Goby.RudicsReception

/-! The modem is commanded by lines of text until a call is made (`Command`), and takes data while
the call lasts (`Online`). A received packet is read in the state `ReceiveData`, from which the
machine returns to the state it was in, whose objects are made anew. Messages to be sent wait in
a buffer that is common to all states. How messages are framed, and how a received packet is put
together from its lines, are parameters. -/

namespace Goby

def decimal (n : ℤ) : Bytes := ascii (toString n)

/-- The commands pushed by `push_at_command` and `push_clam_command`, and among the latter the
one that sets the address to be called. -/
inductive BenthosCommand where
  | atCommand (cmd : Bytes)
  | clamCommand (cmd : Bytes)
  | remoteAddr (dest : ℤ)
  deriving DecidableEq

def escapeText : Bytes := ascii "+++"

def BenthosCommand.text : BenthosCommand → Bytes
  | .atCommand cmd => if cmd = escapeText then cmd else ascii "AT" ++ cmd
  | .clamCommand cmd => cmd
  | .remoteAddr dest => ascii "@RemoteAddr=" ++ decimal dest

/-- A command in `at_out_` with its `ATSentenceMeta`. -/
structure PendingCommand where
  command : BenthosCommand
  lastSendTime : ℚ := 0
  tries : ℕ := 0
  deriving DecidableEq

inductive SerialLine where
  | command (c : BenthosCommand)
  | packet (msg : DriverTransmission) (bytes : Bytes)
  deriving DecidableEq

def SerialLine.bytes : SerialLine → Bytes
  | .command c => c.text ++ [carriageReturn]
  | .packet _ bytes => bytes

inductive BenthosEvent where
  | rxSerial (line : Bytes)
  | txSerial
  | ack (response : Bytes)
  | atEmpty
  | reset
  | dial (dest rate : ℤ)
  | range (dest : ℤ)
  | requestLowPower
  | lowPower
  | connect
  | noCarrier
  | transmit
  | transmitBegun
  | receive (first : Bytes)
  | receiveComplete
  | shellPrompt
  | rangingComplete

inductive CommandLeaf where
  | configure | setClock | ready | dial | lowPower | range
  deriving DecidableEq

inductive OnlineLeaf where
  | listen | transmitData
  deriving DecidableEq

inductive ActiveLeaf where
  | command (leaf : CommandLeaf)
  | online (leaf : OnlineLeaf)
  deriving DecidableEq

/-- The commands belong to the state `Command`. The packet being read belongs to `ReceiveData`
and is no longer there when it is complete. A machine is terminated when a reaction throws. -/
inductive BenthosState (ρ : Type) where
  | command (leaf : CommandLeaf) (atOut : List PendingCommand)
  | online (leaf : OnlineLeaf)
  | receiveData (r : Option ρ)
  | terminated

/-- A line of a packet leaves more to be read or ends it, with the message received unless the
packet was not valid. -/
inductive Reception (ρ : Type) where
  | more (r : ρ)
  | done (received : Option DriverTransmission)

/-- The configuration of the driver, the command that sets the clock, and the parameters of the
machine. A line that reports a range may not be in the expected format. -/
structure BenthosEnv (ρ : Type) where
  modemId : ℤ := 1
  factoryReset : Bool := false
  configLoad : Option Bytes := none
  config : List Bytes := []
  date : ℚ → Bytes
  serialize : DriverTransmission → Except Failure Bytes
  receiveStart : Bytes → Reception ρ
  receiveLine : ρ → Bytes → Reception ρ
  rangeReply : Bytes → Option DriverTransmission

/-- The machine with the innermost state in which `Active` was last left, its buffers, the
events posted to it, the time, and what has been written to the modem. -/
structure BenthosFsm (ρ : Type) where
  state : BenthosState ρ
  history : Option ActiveLeaf := none
  dataOut : List DriverTransmission := []
  serialTx : List SerialLine := []
  received : List DriverTransmission := []
  posted : List BenthosEvent := []
  now : ℚ := 0
  written : List SerialLine := []

def benthosBroadcastId : ℤ := 255

def benthosAddress (dest : ℤ) : ℤ := if dest = broadcastId then benthosBroadcastId else dest

namespace BenthosFsm

variable {ρ : Type}

variable (m : BenthosFsm ρ)

def post (e : BenthosEvent) : BenthosFsm ρ := { m with posted := m.posted ++ [e] }

def pushCommand (atOut : List PendingCommand) (c : BenthosCommand) : List PendingCommand :=
  circularPush 100 atOut { command := c }

def commandStart : List BenthosCommand := [.atCommand escapeText, .clamCommand (ascii "@OpMode=0")]

variable (env : BenthosEnv ρ)

def configureCommands : List BenthosCommand :=
  List.flatten
    [[.atCommand [], .clamCommand (ascii "@P1EchoChar=Dis")],
      if env.factoryReset then [.clamCommand (ascii "factory_reset")] else [],
      env.configLoad.toList.map fun path => .clamCommand (ascii "cfg load " ++ path),
      env.config.map .clamCommand,
      [.clamCommand (ascii "@Prompt=7"), .clamCommand (ascii "@Verbose=3"),
        .clamCommand (ascii "@DataRetry=0"), .clamCommand (ascii "@FwdDelay=0.05"),
        .clamCommand (ascii "@LocalAddr=" ++ decimal env.modemId),
        .clamCommand (ascii "@PrintHex=Ena"), .clamCommand (ascii "@WakeTones=Ena"),
        .clamCommand (ascii "@RcvAll=Ena"), .clamCommand (ascii "@ShowBadData=Ena"),
        .clamCommand (ascii "@OpMode=0")]]

def dialCommands (dest rate : ℤ) : List BenthosCommand :=
  [.remoteAddr dest, .clamCommand (ascii "@TxRate=" ++ decimal rate), .atCommand (ascii "O")]

/-- The commands pushed when a state is made. The destination of a call is that of the event
that brings the machine into the state, if it is one to dial. -/
def leafCommands (now : ℚ) (trigger : BenthosEvent) : CommandLeaf → List BenthosCommand
  | .configure => configureCommands env
  | .setClock => [.clamCommand (env.date now)]
  | .ready => []
  | .dial =>
    match trigger with
    | .dial dest rate => dialCommands (benthosAddress dest) (if 2 ≤ rate ∧ rate ≤ 13 then rate else 2)
    | _ => dialCommands benthosBroadcastId 2
  | .lowPower => []
  | .range =>
    match trigger with
    | .range dest => [.atCommand (ascii "R" ++ decimal dest)]
    | _ => [.atCommand (ascii "R" ++ decimal 0)]

def enterLeaf (trigger : BenthosEvent) (leaf : CommandLeaf)
    (atOut : List PendingCommand) (m : BenthosFsm ρ) : BenthosFsm ρ :=
  { m with state := .command leaf ((leafCommands env m.now trigger leaf).foldl pushCommand atOut) }

def enterCommand (trigger : BenthosEvent) (leaf : CommandLeaf) (m : BenthosFsm ρ) : BenthosFsm ρ :=
  m.enterLeaf env trigger leaf (commandStart.foldl pushCommand [])

def enterOnline (leaf : OnlineLeaf) (m : BenthosFsm ρ) : BenthosFsm ρ :=
  let m' := { m with state := .online leaf }
  match leaf with
  | .listen => if m.dataOut.isEmpty then m' else m'.post .transmit
  | .transmitData => m'

def exit : BenthosFsm ρ :=
  match m.state with
  | .command leaf _ => { m with history := some (.command leaf) }
  | .online leaf => { m with history := some (.online leaf) }
  | _ => m

/-- `deep_history<Command>`: the innermost state of `Active` that was left last. -/
def enterHistory (trigger : BenthosEvent) (m : BenthosFsm ρ) : BenthosFsm ρ :=
  match m.history with
  | none => m.enterCommand env trigger .configure
  | some (.command leaf) => m.enterCommand env trigger leaf
  | some (.online leaf) => m.enterOnline leaf

def receiveStep : Reception ρ → BenthosFsm ρ
  | .more r => { m with state := .receiveData (some r) }
  | .done received =>
    post { m with
      state := .receiveData none
      received := received.toList.foldl (circularPush 10) m.received } .receiveComplete

def clamResponse (lastCmd response : Bytes) : Bool :=
  let eqPos := lastCmd.findIdx (· = 0x3D)
  if lastCmd.head? = some 0x40 ∧ eqPos < lastCmd.length ∧
      iequals ((lastCmd.drop 1).take (eqPos - 1)) (response.take (eqPos - 1)) then true
  else if response = ascii "Configuration stored." ∧
      iequals (lastCmd.take 9) (ascii "cfg store") then true
  else iequals (lastCmd.take 7) (ascii "date -t") ∧ (lastCmd.drop 7).take 8 <:+: response

/-- Whether a response is valid for the last command, and what is posted in addition. -/
def acknowledge (lastCmd response : Bytes) : Bool × List BenthosEvent :=
  if response = ascii "OK" then (true, if lastCmd = ascii "ATH" then [.noCarrier] else [])
  else if ascii "CONNECT" <+: response ∧ lastCmd.take 3 ≠ escapeText then (true, [])
  else if response = ascii "Command '+++' not found" ∧ lastCmd.take 3 = escapeText then (true, [])
  else if lastCmd.take 3 = escapeText ∧ ascii "user" <+: response then (true, [])
  else if lastCmd.take 3 = ascii "ATL" ∧ ascii "Lowpower" <:+: response then (true, [.lowPower])
  else (clamResponse lastCmd response, [])

variable (leaf : CommandLeaf)

def commandAck (atOut : List PendingCommand) (response : Bytes) (m : BenthosFsm ρ) : BenthosFsm ρ :=
  match atOut with
  | [] => m
  | front :: rest =>
    let (valid, events) := acknowledge front.command.text response
    if valid then
      { m with
        state := .command leaf rest
        posted := m.posted ++ events ++ if rest.isEmpty then [.atEmpty] else [] }
    else { m with posted := m.posted ++ events }

/-- The first command is written unless it was in the last two seconds, at most ten times. -/
def commandTx (atOut : List PendingCommand) (m : BenthosFsm ρ) : BenthosFsm ρ :=
  match atOut with
  | [] => m
  | front :: rest =>
    if front.lastSendTime + 2 < m.now then
      if 10 < front.tries + 1 then
        post { m with state := .command leaf ({ front with tries := front.tries + 1 } :: rest) } .reset
      else
        { m with
          state := .command leaf
            ({ front with tries := front.tries + 1, lastSendTime := m.now } :: rest)
          serialTx := circularPush 10 m.serialTx (.command front.command) }
    else m

/-- A call is not taken while the machine tries to end one. -/
def commandConnect (atOut : List PendingCommand) (m : BenthosFsm ρ) : BenthosFsm ρ :=
  match atOut with
  | [] => m.exit.enterOnline .listen
  | front :: _ => if front.command.text = escapeText then m else m.exit.enterOnline .listen

/-- A line in the state `Range`, in which no other state sees it. -/
def rangeLine (atOut : List PendingCommand) (line : Bytes) (m : BenthosFsm ρ) : BenthosFsm ρ :=
  let text := trimCopy line
  let atOut' :=
    match atOut with
    | [] => []
    | front :: rest =>
      if front.command.text.take 3 = ascii "ATR" ∧ iequals (text.take 7) (ascii "TX time") then rest
      else front :: rest
  let m' := { m with state := .command .range atOut' }
  if ascii "Range" <+: text then
    post { m' with received := (env.rangeReply text).toList.foldl (circularPush 10) m.received }
      .rangingComplete
  else m'

def commandLeafReact (atOut : List PendingCommand)
    (e : BenthosEvent) (m : BenthosFsm ρ) : Option (BenthosFsm ρ) :=
  match leaf, e with
  | .configure, .atEmpty => some (m.exit.enterLeaf env e .setClock atOut)
  | .setClock, .atEmpty => some (m.exit.enterLeaf env e .ready atOut)
  | .ready, .dial _ _ => some (m.exit.enterLeaf env e .dial atOut)
  | .ready, .range _ => some (m.exit.enterLeaf env e .range atOut)
  | .ready, .requestLowPower =>
    some { m with state := .command .ready (pushCommand atOut (.atCommand (ascii "L"))) }
  | .ready, .lowPower => some (m.exit.enterLeaf env e .lowPower atOut)
  | .range, .rangingComplete => some (m.exit.enterLeaf env e .ready atOut)
  | .range, .rxSerial line => some (m.rangeLine env atOut line)
  | _, _ => none

def commandReact (atOut : List PendingCommand) (e : BenthosEvent)
    (m : BenthosFsm ρ) : Option (BenthosFsm ρ) :=
  match e with
  | .connect => some (m.commandConnect atOut)
  | .ack response => some (m.commandAck leaf atOut response)
  | .txSerial => some (m.commandTx leaf atOut)
  | _ => none

/-- The oldest message is framed. The machine does not survive a message that cannot be. -/
def transmitTx : BenthosFsm ρ :=
  match m.dataOut with
  | [] => m
  | msg :: rest =>
    match env.serialize msg with
    | .ok bytes =>
      { m with
        serialTx := circularPush 10 m.serialTx (.packet msg bytes)
        dataOut := rest }
    | .error _ => { m with state := .terminated }

def onlineLeafReact (leaf : OnlineLeaf) (e : BenthosEvent)
    (m : BenthosFsm ρ) : Option (BenthosFsm ρ) :=
  match leaf, e with
  | .listen, .transmit => some (m.exit.enterOnline .transmitData)
  | .transmitData, .transmitBegun => some (m.exit.enterCommand env e .ready)
  | .transmitData, .txSerial => some (m.transmitTx env)
  | .transmitData, .ack response =>
    some (if ascii "Forwarding Delay Up" <+: response then m.post .transmitBegun else m)
  | _, _ => none

def onlineReact (e : BenthosEvent) (m : BenthosFsm ρ) : Option (BenthosFsm ρ) :=
  match e with
  | .shellPrompt => some (m.exit.enterHistory env e)
  | _ => none

def activeLine (line : Bytes) (m : BenthosFsm ρ) : BenthosFsm ρ :=
  let text := trimCopy line
  if ascii "DATA" <+: text then m.post (.receive text)
  else if ascii "user:" <+: text then
    if ascii "Lowpower" <:+: text then (m.post .shellPrompt).post (.ack text)
    else m.post .shellPrompt
  else if ascii "CONNECT" <+: text then (m.post (.ack text)).post .connect
  else m.post (.ack text)

def activeReact (e : BenthosEvent) (m : BenthosFsm ρ) : Option (BenthosFsm ρ) :=
  match e with
  | .reset => some (m.exit.enterCommand env e .configure)
  | .rxSerial line => some (m.activeLine line)
  | .receive first => some (m.exit.receiveStep (env.receiveStart first))
  | _ => none

def receiveReact (r : Option ρ) (e : BenthosEvent) (m : BenthosFsm ρ) : BenthosFsm ρ :=
  match e, r with
  | .rxSerial line, some r => m.receiveStep (env.receiveLine r line)
  | .receiveComplete, _ => m.enterHistory env e
  | _, _ => m

/-- An inner state reacts before an outer one, and an event without a reaction is dropped. -/
def react (e : BenthosEvent) (m : BenthosFsm ρ) : BenthosFsm ρ :=
  match m.state with
  | .command leaf atOut =>
    ((m.commandLeafReact env leaf atOut e).or
      ((m.commandReact leaf atOut e).or (m.activeReact env e))).getD m
  | .online leaf =>
    ((m.onlineLeafReact env leaf e).or ((m.onlineReact env e).or (m.activeReact env e))).getD m
  | .receiveData r => m.receiveReact env r e
  | .terminated => m

def drain (env : BenthosEnv ρ) : ℕ → BenthosFsm ρ → BenthosFsm ρ
  | 0, m => m
  | fuel + 1, m =>
    match m.posted with
    | [] => m
    | e :: events => drain env fuel (react env e { m with posted := events })

def processEvent (env : BenthosEnv ρ) (e : BenthosEvent) (m : BenthosFsm ρ) : BenthosFsm ρ :=
  drain env 5 (m.react env e)

def initiate : BenthosFsm ρ := enterCommand env .reset .configure { state := .terminated }

def send (env : BenthosEnv ρ) (msg : DriverTransmission) (m : BenthosFsm ρ) : BenthosFsm ρ :=
  processEvent env (.dial msg.destD msg.rateD) { m with dataOut := circularPush 5 m.dataOut msg }

def trySerialTx (env : BenthosEnv ρ) (now : ℚ) (m : BenthosFsm ρ) : BenthosFsm ρ :=
  let m' := processEvent env .txSerial { m with now := now }
  { m' with
    serialTx := []
    written := m'.written ++ m'.serialTx }

/-- What the driver does: `send`, `try_serial_tx`, a line read from the modem, and the other
events that it gives to the machine. -/
inductive BenthosCall where
  | send (msg : DriverTransmission)
  | trySerialTx (now : ℚ)
  | line (now : ℚ) (text : Bytes)
  | range (dest : ℤ)
  | reset
  | requestLowPower

def perform (env : BenthosEnv ρ) (m : BenthosFsm ρ) : BenthosCall → BenthosFsm ρ
  | .send msg => m.send env msg
  | .trySerialTx now => m.trySerialTx env now
  | .line now text => processEvent env (.rxSerial text) { m with now := now }
  | .range dest => m.processEvent env (.range dest)
  | .reset => m.processEvent env .reset
  | .requestLowPower => m.processEvent env .requestLowPower

end BenthosFsm

end Goby
