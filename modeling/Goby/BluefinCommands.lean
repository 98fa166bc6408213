import Goby.BluefinFrontSeat
import Goby.CallRuns

/-! A command becomes a sentence of its kind in the deque. If it asks for a response, it is filed
under its type, of which there can be one request at a time; the ack of a sentence answers the
request of the type that its id stands for. -/

namespace Goby

/-- `push_back` splits a string that holds commas. -/
def NmeaSentence.pushBack (nmea : NmeaSentence) (field : Bytes) : NmeaSentence :=
  { nmea with rest := nmea.rest ++ field.splitOn comma }

structure DesiredCourse where
  heading : ℚ := 0
  speed : ℚ := 0
  depth : ℚ := 0

inductive SilentMode where
  | normal | silent

inductive AbortReason where
  | successfulMission | abortWithErrors

structure BluefinExtraCommands where
  command : BluefinCommand := .unknownCommand
  silentMode : SilentMode := .normal
  abortReason : AbortReason := .abortWithErrors

structure CommandRequest where
  desiredCourse : Option DesiredCourse := none
  responseRequested : Bool := false
  requestId : ℤ := 0
  cancelRequestId : Option ℤ := none
  bluefinCommand : Option BluefinExtraCommands := none

namespace Bluefin

inductive SentenceKind where
  | trm | boy | sil | rce | abt | smc | rmb
deriving DecidableEq

namespace SentenceKind

def sentenceId : SentenceKind → Bytes
  | .trm => ascii "TRM"
  | .boy => ascii "BOY"
  | .sil => ascii "SIL"
  | .rce => ascii "RCE"
  | .abt => ascii "ABT"
  | .smc => ascii "SMC"
  | .rmb => ascii "RMB"

def sentence (kind : SentenceKind) : NmeaSentence where
  front := ascii "$BP" ++ kind.sentenceId
  rest := []
  front_length := by cases kind <;> decide
  front_comma := by cases kind <;> decide

end SentenceKind

/-- `unix_time2nmea_time`, and `as<std::string>` of a double. -/
structure Formats where
  nmeaTime : ℚ → Bytes
  double : ℚ → Bytes

def SilentMode.number : SilentMode → Bytes
  | .normal => ascii "0"
  | .silent => ascii "1"

def AbortReason.number : AbortReason → Bytes
  | .successfulMission => ascii "0"
  | .abortWithErrors => ascii "1"

def extraSentence (x : BluefinExtraCommands) : Option (SentenceKind × List Bytes) :=
  match x.command with
  | .unknownCommand | .desiredCourse => none
  | .trimAdjust => some (.trm, [])
  | .buoyancyAdjust => some (.boy, [])
  | .silentMode => some (.sil, [SilentMode.number x.silentMode])
  | .cancelCurrentBehavior => some (.rce, [ascii "0"])
  | .abortMission => some (.abt, [ascii "backseat abort", AbortReason.number x.abortReason])
  | .missionStartConfirm => some (.smc, [ascii "1"])
  | .missionEndConfirm => some (.rce, [ascii "0"])

/-- Zero rudder, pitch and revolutions. -/
def zeroCourse : List Bytes := ["0", "0", "2", "0", "0", "1"].map ascii

/-- `static_cast<int>` gives zero. -/
def truncatesToZero (x : ℚ) : Bool := -1 < x ∧ x < 1

def courseFields (formats : Formats) (course : DesiredCourse) : List Bytes :=
  if truncatesToZero course.depth ∧ truncatesToZero course.speed then zeroCourse
  else if course.speed < 1 / 100 then zeroCourse
  else [formats.double course.heading, formats.double course.depth, ascii "0",
    formats.double course.speed, ascii "1", ascii "0"]

def extraType (c : CommandRequest) : BluefinCommand :=
  match c.bluefinCommand with
  | none => .unknownCommand
  | some x => x.command

/-- Beside an extra command a desired course is ignored. -/
def hasExtraCommand (c : CommandRequest) : Bool :=
  extraType c ≠ .unknownCommand ∧ extraType c ≠ .desiredCourse

def commandType (c : CommandRequest) : BluefinCommand :=
  if c.desiredCourse.isSome ∧ ¬ hasExtraCommand c then .desiredCourse else extraType c

variable (cfg : BluefinConfig) (clock : ℕ → ℚ) (formats : Formats)

def commandSentence (kind : SentenceKind) (now : ℚ) (fields : List Bytes) : NmeaSentence :=
  (formats.nmeaTime now :: fields).foldl NmeaSentence.pushBack kind.sentence

def queueSentence : Option (SentenceKind × List Bytes) → BluefinM Unit
  | none => pure ()
  | some (kind, fields) => do
    let now ← readClock clock
    appendToWriteQueue cfg clock (commandSentence formats kind now fields)

def commandTypes : List BluefinCommand :=
  [.unknownCommand, .desiredCourse, .trimAdjust, .buoyancyAdjust, .silentMode, .cancelCurrentBehavior,
    .abortMission, .missionStartConfirm, .missionEndConfirm]

/-- The first request of the id is the one to cancel. -/
def cancelledType (cancelRequestId : ℤ) (s : Bluefin) : Option BluefinCommand :=
  commandTypes.find? fun type => s.outstandingRequests type = some cancelRequestId

def cancelRequest (cancelRequestId : ℤ) (s : Bluefin) : Bluefin :=
  match cancelledType cancelRequestId s with
  | none => s
  | some type => { s with outstandingRequests := Function.update s.outstandingRequests type none }

def fileRequest (c : CommandRequest) (s : Bluefin) : Bluefin :=
  if cfg.disableAck = false ∧ c.responseRequested = true then
    { s with outstandingRequests :=
        Function.update s.outstandingRequests (commandType c) (some c.requestId) }
  else s

def sendCommandToFrontseat (c : CommandRequest) : BluefinM Unit :=
  match c.cancelRequestId with
  | some cancelRequestId => modify (cancelRequest cancelRequestId)
  | none => do
    queueSentence cfg clock formats (c.bluefinCommand.bind extraSentence)
    queueSentence cfg clock formats (if hasExtraCommand c then none
      else c.desiredCourse.map fun course => (.rmb, courseFields formats course))
    modify (fileRequest cfg c)

def content (c : CommandRequest) : Option (SentenceKind × List Bytes) :=
  if hasExtraCommand c then c.bluefinCommand.bind extraSentence
  else c.desiredCourse.map fun course => (.rmb, courseFields formats course)

theorem extraSentence_eq_none_iff (c : CommandRequest) :
    c.bluefinCommand.bind extraSentence = none ↔ hasExtraCommand c = false := by
  unfold hasExtraCommand extraType
  cases c.bluefinCommand with
  | none => simp
  | some x => cases hx : x.command <;> simp [extraSentence, hx]

theorem sendCommandToFrontseat_eq {c : CommandRequest} (hc : c.cancelRequestId = none) :
    sendCommandToFrontseat cfg clock formats c =
      (queueSentence cfg clock formats (content formats c) >>= fun _ => modify (fileRequest cfg c)) := by
  unfold sendCommandToFrontseat content
  rw [hc]
  have hnone := extraSentence_eq_none_iff c
  cases hcourse : hasExtraCommand c with
  | true => simp [queueSentence]
  | false =>
    rw [hnone.mpr hcourse]
    simp [queueSentence]

end Bluefin

end Goby
