import Goby.ExceptionState
import Goby.FrontAttempts
import Goby.NmeaSentences

/-! Commands to the modem wait in a deque; the front is written when the driver is not
waiting for the modem, and again when the modem does not answer. Any sentence from the
modem that looks like an answer to the front takes it away, and the next command becomes
the front without being written until something calls `trySend`. -/

namespace Goby

inductive MicroModemRemoval where
  | answered (nmea : NmeaSentence)
  | retriesExceeded
deriving DecidableEq

abbrev MicroModemEvent := FrontEvent NmeaSentence MicroModemRemoval

/-- The driver, with the number of clock readings it has made and the history of `out_`. -/
structure MicroModem where
  readings : ℕ := 0
  out : List NmeaSentence := []
  lastWriteTime : ℚ := 0
  waitingForModem : Bool := false
  startupDone : Bool := false
  globalFailCount : ℕ := 0
  presentFailCount : ℕ := 0
  log : List MicroModemEvent := []

inductive MicroModemFailure where
  | modemNotResponding
  /-- Anything else that a handler throws. -/
  | handlerFailed
deriving DecidableEq

abbrev MicroModemM := EStateM MicroModemFailure MicroModem

namespace MicroModem

def maxFailsBeforeDead : ℕ := 5

def retries : ℕ := 3

/-- In seconds. -/
def modemWait : ℚ := 5

variable (clock : ℕ → ℚ)

def readClock : MicroModemM ℚ := do
  let s ← get
  set { s with readings := s.readings + 1 }
  pure (clock s.readings)

variable (nmea : NmeaSentence)

def mmWrite : MicroModemM Unit := do
  modify fun s => { s with waitingForModem := true, log := s.log ++ [.wrote nmea] }
  let now ← readClock clock
  modify fun s => { s with lastWriteTime := now }

def popOut (reason : MicroModemRemoval) (s : MicroModem) : MicroModem :=
  match s.out with
  | [] => { s with waitingForModem := false, presentFailCount := 0 }
  | nmea :: out =>
    { s with
      out := out
      waitingForModem := false
      presentFailCount := 0
      log := s.log ++ [.left nmea reason] }

/-- `shutdown`, as far as it concerns the deque: the flag and the counters stay. -/
def shutdown (s : MicroModem) : MicroModem :=
  { s with
    out := []
    startupDone := false
    log := s.log ++ [.cleared s.out] }

/-- `increment_present_fail`, and `present_fail_exceeds_retries` where it throws. -/
def incrementPresentFail (s : MicroModem) : MicroModem :=
  if retries ≤ s.presentFailCount + 1 then
    popOut .retriesExceeded { s with presentFailCount := s.presentFailCount + 1 }
  else { s with presentFailCount := s.presentFailCount + 1 }

def resend : MicroModemM Unit := do
  let s ← get
  if s.globalFailCount + 1 = maxFailsBeforeDead then do
    set { shutdown s with globalFailCount := 0 }
    throw .modemNotResponding
  else do
    set (incrementPresentFail { s with globalFailCount := s.globalFailCount + 1 })
    if retries ≤ s.presentFailCount + 1 then pure () else mmWrite clock nmea

def trySend : MicroModemM Unit := do
  let s ← get
  match s.out with
  | [] => pure ()
  | nmea :: _ =>
    if s.waitingForModem then do
      let now ← readClock clock
      if s.lastWriteTime ≤ now - modemWait then resend clock nmea else pure ()
    else mmWrite clock nmea

def appendToWriteQueue : MicroModemM Unit := do
  modify fun s => { s with out := s.out ++ [nmea], log := s.log ++ [.queued nmea] }
  trySend clock

/-- An error report, which shortens the wait where it complains of a sentence. -/
def caerr : MicroModemM Unit :=
  match nmea.at? 2 with
  | none => throw .handlerFailed
  | some field =>
    if field = ascii "NMEA" then
      modify fun s => incrementPresentFail { s with waitingForModem := false }
    else pure ()

def cctxd (data : List Bytes) : NmeaSentence := ⟨ascii "$CCTXD", data, by decide, by decide⟩

/-- The handler of the sentence. Of those not written out, only the one for data requests
touches the deque: `data` has the fields it answers with, and is `none` where the handler
of the sentence throws. -/
def handle (data : Option (List Bytes)) : MicroModemM Unit :=
  if nmea.sentenceId = ascii "ERR" then caerr nmea
  else match data with
    | none => throw .handlerFailed
    | some fields =>
      if nmea.sentenceId = ascii "DRQ" then appendToWriteQueue clock (cctxd fields) else pure ()

def answers (command nmea : NmeaSentence) : Bool :=
  if command.sentenceId = ascii "CFG" then
    -- all three parts have to match; the id of the answer is not looked at
    nmea.size = 3 ∧ command.at? 1 = nmea.at? 1 ∧ command.at? 2 = nmea.at? 2
  else if command.sentenceId = ascii "CFQ" ∧ nmea.sentenceId = ascii "CFG" then true
  else if command.sentenceId = ascii "MSC" ∧
      (nmea.sentenceId = ascii "REV" ∨ nmea.sentenceId = ascii "MSC") then true
  else command.sentenceId = nmea.sentenceId

def clearLastSend (s : MicroModem) : MicroModem :=
  match s.out with
  | [] => s
  | command :: _ => if answers command nmea then popOut (.answered nmea) s else s

def processReceive (data : Option (List Bytes)) : MicroModemM Unit :=
  -- the description of a configuration sentence reads a field
  if nmea.sentenceId = ascii "CFG" ∧ nmea.size < 2 then throw .handlerFailed
  else do
    modify fun s => { s with globalFailCount := 0 }
    handle clock nmea data
    modify (clearLastSend nmea)

end MicroModem

end Goby
