import Goby.BluefinCommands
import Goby.Multimaps
import Mathlib.Data.List.Sort

/-! With the data for the vehicle come reports on the payloads, which are kept in a multimap by the
time at which they expire. Every so often a heartbeat is sent, with a flag and a text in which one
report stands for each payload: the first one that is met in the order of the multimap.

The clock in microseconds is read by the heartbeat alone. A log keeps the reports that have come
in and the heartbeats that have been sent. -/

namespace Goby

structure PayloadStatus where
  id : ℤ
  expireTime : ℕ
  msg : Bytes
  allOk : Bool
deriving DecidableEq

/-- No conductivity if it is not set, and no other value if it is not a number. -/
structure CtdSample where
  conductivity : Option ℚ := none
  temperature : Option ℚ := none
  pressure : Option ℚ := none
  time : ℚ

structure BluefinExtraData where
  microModemRawIn : Option Bytes := none
  payloadStatus : List PayloadStatus := []

structure FrontSeatInterfaceData where
  ctdSample : Option CtdSample := none
  dcclMessage : Option Bytes := none
  bluefinData : Option BluefinExtraData := none

inductive InterfaceState where
  | standby | listen | command | helmError | fsError
deriving DecidableEq

structure HeartbeatConfig extends BluefinConfig where
  heartbeatInterval : ℕ := 1
  sendTmrMessages : Bool := true

/-- `as<std::string>` with ten digits, `b64_encode` without blanks at the ends, and
`goby_time_as_string`. -/
structure DataFormats extends Bluefin.Formats where
  double10 : ℚ → Bytes
  base64 : Bytes → Bytes
  timeString : ℕ → Bytes

structure SeatEnv where
  cfg : HeartbeatConfig := {}
  formats : DataFormats
  clock : ℕ → ℚ
  micros : ℕ → ℕ

/-- A heartbeat: the text begins with a stamp if any reports were stored, and those that had
expired at the moment were erased. -/
structure Heartbeat where
  state : InterfaceState
  sent : ℕ
  stamp : Bytes
  moment : ℕ
  nmea : NmeaSentence
deriving DecidableEq

inductive SeatEvent where
  | reported (status : PayloadStatus)
  | beat (heartbeat : Heartbeat)
deriving DecidableEq

structure BluefinSeat where
  driver : Bluefin := {}
  payloadStatus : Multimap ℕ PayloadStatus := []
  lastHeartbeatTime : ℚ := 0
  readings : ℕ := 0
  log : List SeatEvent := []

abbrev SeatM := EStateM BluefinFailure BluefinSeat

namespace BluefinSeat

variable (env : SeatEnv)

def onDriver {α : Type} (m : BluefinM α) : SeatM α := fun s =>
  match m s.driver with
  | .ok a d => .ok a { s with driver := d }
  | .error e d => .error e { s with driver := d }

def readMicros : SeatM ℕ := do
  let s ← get
  set { s with readings := s.readings + 1 }
  pure (env.micros s.readings)

def seconds (micros : ℕ) : ℚ := micros / 1000000

def append (nmea : NmeaSentence) : SeatM Unit :=
  onDriver (Bluefin.appendToWriteQueue env.cfg.toBluefinConfig env.clock nmea)

def timedSentence (bare : NmeaSentence) (sent : ℕ) (fields : List Bytes) : NmeaSentence :=
  (env.formats.nmeaTime (seconds sent) :: fields).foldl NmeaSentence.pushBack bare

def bpctd : NmeaSentence := ⟨ascii "$BPCTD", [], by decide, by decide⟩

def bpdcl : NmeaSentence := ⟨ascii "$BPDCL", [], by decide, by decide⟩

def bptmr : NmeaSentence := ⟨ascii "$BPTMR", [], by decide, by decide⟩

def bpsts : NmeaSentence := ⟨ascii "$BPSTS", [], by decide, by decide⟩

def numberField (x : Option ℚ) : Bytes := (x.map env.formats.double10).getD []

def ctdFields (ctd : CtdSample) : List Bytes :=
  [numberField env ctd.conductivity, numberField env ctd.temperature,
    numberField env (ctd.pressure.map (· / 1000)), env.formats.nmeaTime ctd.time]

/-- Neither commas nor asterisks nor carriage returns of the modem's sentence are kept. -/
def harmless (b : UInt8) : UInt8 :=
  if b = 0x2C then 0x3A else if b = 0x2A then 0x2F else if b = 0x0D then 0x20 else b

def sendTimed (bare : NmeaSentence) : Option (List Bytes) → SeatM Unit
  | none => pure ()
  | some fields => do
    let sent ← readMicros env
    append env (timedSentence env bare sent fields)

def insertStatus (s : BluefinSeat) (p : PayloadStatus) : BluefinSeat :=
  { s with
    payloadStatus := s.payloadStatus.insert p.expireTime p
    log := s.log ++ [.reported p] }

def sendExtraData : Option BluefinExtraData → SeatM Unit
  | none => pure ()
  | some extra => do
    sendTimed env bptmr (if env.cfg.sendTmrMessages then
      extra.microModemRawIn.map fun raw => [ascii "3", raw.map harmless] else none)
    modify fun s => extra.payloadStatus.foldl insertStatus s

def sendDataToFrontseat (data : FrontSeatInterfaceData) : SeatM Unit := do
  sendTimed env bpctd (data.ctdSample.map (ctdFields env))
  sendTimed env bpdcl (data.dcclMessage.map fun message => [env.formats.base64 message])
  sendExtraData env data.bluefinData

structure Summary where
  ok : Bool
  seenIds : List (ℤ × Bytes) := []
deriving DecidableEq

def Summary.add (m : Summary) (p : PayloadStatus) : Summary :=
  if m.seenIds.any (fun seen => seen.1 = p.id) then m
  else ⟨m.ok && p.allOk, m.seenIds.orderedInsert (fun a b => a.1 ≤ b.1) (p.id, p.msg)⟩

def Summary.text (m : Summary) : Bytes := m.seenIds.flatMap fun seen => ascii "; " ++ seen.2

def stateOk (state : InterfaceState) : Bool := state ≠ .helmError && state ≠ .fsError

def summarize (sent : ℕ) (ok : Bool) : SeatM (Bytes × ℕ × Summary) := do
  let s ← get
  if s.payloadStatus.length = 0 then pure ([], sent, ⟨ok, []⟩)
  else do
    let stamp ← readMicros env
    let moment ← readMicros env
    modify fun s => { s with payloadStatus := s.payloadStatus.eraseUpTo moment }
    let s ← get
    pure (env.formats.timeString stamp, moment, (s.payloadStatus.map Prod.snd).foldl Summary.add ⟨ok, []⟩)

def statusField (status : Bytes) : Bytes := if status = [] then ascii "Deploy" else status

def heartbeatSentence (sent : ℕ) (ok : Bool) (status : Bytes) : NmeaSentence :=
  timedSentence env bpsts sent [if ok then ascii "1" else ascii "0", statusField status]

def checkSendHeartbeat (state : InterfaceState) : SeatM Unit := do
  let now ← readMicros env
  let s ← get
  if s.lastHeartbeatTime + env.cfg.heartbeatInterval < seconds now then do
    let sent ← readMicros env
    let (stamp, moment, m) ← summarize env sent (stateOk state)
    let nmea := heartbeatSentence env sent m.ok (stamp ++ m.text)
    modify fun s => { s with log := s.log ++ [.beat ⟨state, sent, stamp, moment, nmea⟩] }
    append env nmea
    modify fun s => { s with lastHeartbeatTime := seconds now + env.cfg.heartbeatInterval }
  else pure ()

/-- Whatever else the driver does leaves the reports alone. -/
inductive Call where
  | sendData (data : FrontSeatInterfaceData)
  | heartbeat (state : InterfaceState)
  | other (action : BluefinM Unit)

def perform : Call → SeatM Unit
  | .sendData data => sendDataToFrontseat env data
  | .heartbeat state => checkSendHeartbeat env state
  | .other action => onDriver action

def step (c : Call) (s : BluefinSeat) : BluefinSeat := finalState (perform env c) s

end BluefinSeat

end Goby
