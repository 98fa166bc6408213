import Goby.ExceptionState
import Goby.FrontAttempts
import Goby.NmeaSentences

/-! Sentences for the vehicle's main computer wait in a deque whose front is written and,
where acks are in use, written again until an ack names it or it is given up. The
flag `waitingForHuxley` and the counter of failed attempts belong to the driver and not
to a sentence; what they say about the front depends on who resets them. -/

namespace Goby

inductive BluefinRemoval where
  | acked (ackedSentence : Bytes)
  | givenUp
  | ackDisabled
deriving DecidableEq, Repr

abbrev BluefinEvent := FrontEvent NmeaSentence BluefinRemoval

inductive BluefinCommand where
  | unknownCommand
  | desiredCourse
  | trimAdjust
  | buoyancyAdjust
  | silentMode
  | cancelCurrentBehavior
  | abortMission
  | missionStartConfirm
  | missionEndConfirm
deriving DecidableEq, Repr

structure BluefinResponse where
  requestSuccessful : Bool
  requestId : ℤ
  errorCode : Option ℤ := none
  errorString : Option Bytes := none
deriving DecidableEq, Repr

inductive FrontSeatState where
  | notConnected
  | idle
  | acceptingCommands
  | inControl
deriving DecidableEq, Repr

structure BluefinConfig where
  nmeaResendAttempts : ℕ := 3
  nmeaResendInterval : ℕ := 5
  allowedNmeaDemerits : ℕ := 3
  extraBplog : List Bytes := []
  disableAck : Bool := false
  ctlTrigger : Bool := false
  /-- Whether debugging output is made: it reads a field of its own. -/
  debug1 : Bool := false

/-- The driver, with the number of clock readings it has made and the history of `out_`. -/
structure Bluefin where
  readings : ℕ := 0
  frontseatState : FrontSeatState := .notConnected
  lastWriteTime : ℚ := 0
  out : List NmeaSentence := []
  pending : List NmeaSentence := []
  waitingForHuxley : Bool := false
  nmeaDemerits : ℕ := 0
  nmeaPresentFailCount : ℕ := 0
  outstandingRequests : BluefinCommand → Option ℤ := fun _ => none
  responses : List BluefinResponse := []
  log : List BluefinEvent := []

inductive BluefinFailure where
  | ignoringCommands
  | outOfRange
deriving DecidableEq, Repr

abbrev BluefinM := EStateM BluefinFailure Bluefin

namespace Bluefin

def readClock (clock : ℕ → ℚ) : BluefinM ℚ := do
  let s ← get
  set { s with readings := s.readings + 1 }
  pure (clock s.readings)

def popOut (reason : BluefinRemoval) (s : Bluefin) : Bluefin :=
  match s.out with
  | [] => s
  | nmea :: out => { s with out := out, log := s.log ++ [.left nmea reason] }

def removeFromWriteQueue (reason : BluefinRemoval) (s : Bluefin) : Bluefin :=
  { popOut reason s with
    waitingForHuxley := false
    nmeaPresentFailCount := 0 }

variable (cfg : BluefinConfig)

def write (clock : ℕ → ℚ) (nmea : NmeaSentence) : BluefinM Unit := do
  modify fun s => { s with log := s.log ++ [.wrote nmea] }
  if cfg.disableAck then modify (removeFromWriteQueue .ackDisabled)
  else do
    modify fun s => { s with waitingForHuxley := true }
    let now ← readClock clock
    modify fun s => { s with lastWriteTime := now }

def giveUp : BluefinM Unit := do
  modify (removeFromWriteQueue .givenUp)
  modify fun s => { s with nmeaDemerits := s.nmeaDemerits + 1 }
  let s ← get
  if cfg.allowedNmeaDemerits < s.nmeaDemerits then do
    modify fun s => { s with frontseatState := .notConnected }
    throw .ignoringCommands
  else pure ()

def resend (clock : ℕ → ℚ) (nmea : NmeaSentence) : BluefinM Unit := do
  modify fun s => { s with nmeaPresentFailCount := s.nmeaPresentFailCount + 1 }
  let s ← get
  if cfg.nmeaResendAttempts ≤ s.nmeaPresentFailCount then giveUp cfg else write cfg clock nmea

def trySend (clock : ℕ → ℚ) : BluefinM Unit := do
  let s ← get
  match s.out with
  | [] => pure ()
  | nmea :: _ =>
    if s.waitingForHuxley then do
      let now ← readClock clock
      if s.lastWriteTime ≤ now - cfg.nmeaResendInterval then resend cfg clock nmea else pure ()
    else write cfg clock nmea

def appendToWriteQueue (clock : ℕ → ℚ) (nmea : NmeaSentence) : BluefinM Unit := do
  modify fun s => { s with out := s.out ++ [nmea], log := s.log ++ [.queued nmea] }
  trySend cfg clock

def appendAll (cfg : BluefinConfig) (clock : ℕ → ℚ) : List NmeaSentence → BluefinM Unit
  | [] => pure ()
  | nmea :: sentences => do
    appendToWriteQueue cfg clock nmea
    appendAll cfg clock sentences

def bplog (name : Bytes) : NmeaSentence :=
  ⟨ascii "$BPLOG", [name, ascii "ON"], by decide, by decide⟩

def logRequests : List Bytes :=
  (if cfg.disableAck then [] else [ascii "ACK"]) ++
    ["NVG", "MIS", "MSC", "NVR", "SVS", "RVL", "SHT", "TOP", "MBS", "MBE", "CTD", "DVL", "BOY",
      "TRM"].map ascii ++
    (if cfg.ctlTrigger then [ascii "CTL"] else []) ++ cfg.extraBplog.map (List.map toUpper)

def clearQueues (s : Bluefin) : Bluefin :=
  { s with
    out := []
    pending := []
    log := s.log ++ [.cleared s.out] }

def initializeHuxley (clock : ℕ → ℚ) : BluefinM Unit := do
  modify fun s => { clearQueues s with nmeaDemerits := 0, waitingForHuxley := false }
  appendAll cfg clock ((logRequests cfg).map bplog)

def sentenceIds : List Bytes :=
  ["MSC", "SHT", "BDL", "SDL", "TOP", "DVT", "VER", "NVG", "SVS", "RCM", "RDP", "RVL", "RBS", "MBS",
    "MBE", "MIS", "ERC", "DVL", "DV2", "IMU", "CTD", "RNV", "PIT", "CNV", "PLN", "ACK", "TRM", "LOG",
    "STS", "DVR", "CPS", "CPR", "TRK", "RTC", "RGP", "RCN", "RCA", "RCB", "RMB", "EMB", "TMR", "ABT",
    "KIL", "MSG", "RMP", "SEM", "NPU", "CPD", "SIL", "BOY", "SUS", "CON", "RES", "SPD", "SAN", "GHP",
    "GBP", "RNS", "RBO", "CMA", "NVR", "TEL", "CTL", "DCL"].map ascii

def commandOf (sentenceId : Bytes) : BluefinCommand :=
  if sentenceId = ascii "RMB" then .desiredCourse
  else if sentenceId = ascii "BOY" then .buoyancyAdjust
  else if sentenceId = ascii "TRM" then .trimAdjust
  else if sentenceId = ascii "SIL" then .silentMode
  else if sentenceId = ascii "RCB" then .cancelCurrentBehavior
  else .unknownCommand

def commandNameField : ℕ := 2

def ackStatusField : ℕ := 5

def descriptionField : ℕ := 7

def requestUnsuccessfullyProcessed : ℤ := 1

def requestSuccessfullyProcessed : ℤ := 2

def requestPending : ℤ := 3

variable (nmea : NmeaSentence)

def fieldAt (i : ℕ) : BluefinM Bytes :=
  match nmea.at? i with
  | some field => pure field
  | none => throw .outOfRange

/-- The debugging output of a request that was not successful has its description. -/
def debugAck (nmea : NmeaSentence) (status : ℤ) : BluefinM Unit :=
  if status = requestUnsuccessfullyProcessed ∧ cfg.debug1 = true then
    discard (fieldAt nmea descriptionField)
  else pure ()

/-- The front is pushed as a new sentence, and stays in `out_` until the ack is matched. -/
def pushPending (s : Bluefin) : Bluefin :=
  match s.out with
  | [] => s
  | nmea :: _ => { s with pending := s.pending ++ [nmea.reparsed] }

variable (status : ℤ)

def notePending (s : Bluefin) : Bluefin :=
  if status = requestPending then pushPending s else s

def respond (type : BluefinCommand) : BluefinM Unit := do
  let s ← get
  match s.outstandingRequests type with
  | none => pure ()
  | some requestId =>
    if status = requestSuccessfullyProcessed then
      modify fun s => { s with
        outstandingRequests := Function.update s.outstandingRequests type none
        responses := s.responses ++ [{ requestSuccessful := true, requestId := requestId }] }
    else do
      let description ← fieldAt nmea descriptionField
      modify fun s => { s with
        outstandingRequests := Function.update s.outstandingRequests type none
        responses := s.responses ++
          [{ requestSuccessful := false
             requestId := requestId
             errorCode := some status
             errorString := some description }] }

/-- A final ack answers the request it belongs to; its id has to be one of the map. -/
def answerRequest (ackedSentence : Bytes) : BluefinM Unit :=
  if status = requestPending then pure ()
  else if ackedSentence ∈ sentenceIds then respond nmea status (commandOf ackedSentence)
  else throw .outOfRange

/-- What follows once the ack has been matched with the front of one of the deques. -/
def finishAck (ackedSentence : Bytes) : BluefinM Unit := do
  answerRequest nmea status ackedSentence
  modify fun s => { s with waitingForHuxley := false }

def frontIs (queue : List NmeaSentence) (ackedSentence : Bytes) : Bool :=
  match queue with
  | [] => false
  | nmea :: _ => iequals nmea.sentenceId ackedSentence

theorem head_of_frontIs {queue : List NmeaSentence} {ackedSentence : Bytes}
    (h : frontIs queue ackedSentence = true) :
    ∃ nmea rest, queue = nmea :: rest ∧ iequals nmea.sentenceId ackedSentence = true := by
  cases queue with
  | nil => cases h
  | cons nmea rest => exact ⟨nmea, rest, rfl, h⟩

/-- The ack belongs to the front of `out_`, to that of `pending_`, or to neither. -/
def matchAck (ackedSentence : Bytes) : BluefinM Unit := do
  let s ← get
  if frontIs s.out ackedSentence then do
    modify (popOut (.acked ackedSentence))
    finishAck nmea status ackedSentence
  else if frontIs s.pending ackedSentence then do
    modify fun s => { s with pending := s.pending.tail }
    finishAck nmea status ackedSentence
  else modify clearQueues

def bfack (nmea : NmeaSentence) : BluefinM Unit := do
  let status ← fieldAt nmea ackStatusField
  let ackedSentence ← fieldAt nmea commandNameField
  debugAck cfg nmea (asInt status)
  modify (notePending (asInt status))
  matchAck nmea (asInt status) (ackedSentence.map toUpper)

/-- No sentence but an ack touches the deques. -/
def processReceive (nmea : NmeaSentence) : BluefinM Unit := do
  modify fun s => { s with nmeaDemerits := 0 }
  if nmea.sentenceId ∈ sentenceIds then
    if nmea.sentenceId = ascii "ACK" then bfack cfg nmea else pure ()
  else throw .outOfRange

end Bluefin

end Goby
