import Goby.StableLists
import Goby.TransmissionMessages
import Mathlib.Data.Rat.Floor

/-! A queue holds the messages of one DCCL type. Messages sent with an acknowledgment
requested stay in the list and are entered, under their frame number, in
`waitingForAck`, whose values are iterators into the list. Each function here follows
the member function of `Queue` with its name. A clock is read by its successive
readings: a function that calls `goby_time` takes the number of readings made so far
and returns the new number. The result `none` stands for a step that C++ leaves
undefined, such as dereferencing an iterator whose message was erased. -/

namespace Goby

/-- A point in time in microseconds; `none` is `not_a_date_time`. -/
abbrev Ptime := Option ℤ

def unixMicrosec2ptime (t : ℕ) : Ptime := if t = 2 ^ 64 - 1 then none else some t

namespace Ptime

def addMicroseconds (t : Ptime) (d : ℤ) : Ptime := t.map (· + d)

/-- No comparison with `not_a_date_time` holds. -/
def lt : Ptime → Ptime → Bool
  | some a, some b => a < b
  | _, _ => false

end Ptime

/-- A double in exact arithmetic, with the special values of division by zero. -/
inductive Double where
  | finite (x : ℚ)
  | infinity (negative : Bool)
  | nan
  deriving DecidableEq

namespace Double

def div (a : Double) (d : ℤ) : Double :=
  match a with
  | finite x => if d = 0 then (if x = 0 then nan else infinity (x < 0)) else finite (x / d)
  | infinity s => infinity (xor s (d < 0))
  | nan => nan

def mul (a : Double) (y : ℚ) : Double :=
  match a with
  | finite x => finite (x * y)
  | infinity s => if y = 0 then nan else infinity (xor s (y < 0))
  | nan => nan

def lt : Double → Double → Bool
  | finite x, finite y => x < y
  | finite _, infinity s => !s
  | infinity s, finite _ => s
  | infinity s, infinity t => s && !t
  | _, _ => false

def eq : Double → Double → Bool
  | finite x, finite y => x = y
  | infinity s, infinity t => s == t
  | _, _ => false

end Double

/-- `time_duration2double`: seconds, unless the hours do not fit. -/
def timeDuration2double : Option ℤ → Double
  | none => .infinity false
  | some us => if us / 3600000000 > 0x7FFFFFFF / 3600 then .infinity false
      else .finite (us / 1000000)

structure QueuedMessage (Msg : Type) where
  dcclMsg : Msg
  msgMeta : QueuedMessageMeta

structure Queue (Desc Msg : Type) where
  desc : Desc
  cfg : QueuedMessageEntry
  roles : RoleType → Option String := fun _ => none
  lastSendTime : Ptime
  messages : StableList (QueuedMessage Msg) := StableList.empty
  waitingForAck : Multimap ℕ ℕ := []
  staticMeta : QueuedMessageMeta := {}

/-- What happens to a message of a queue, by its address; where the queue takes or hands
over the message itself, with that message. -/
inductive QueueEvent (Msg : Type) where
  | stored (it : ℕ) (msg : Msg)
  | evicted (it : ℕ)
  | gave (it frame : ℕ) (msg : Msg)
  | popped (it frame : ℕ)
  | ackPopped (it frame : ℕ) (msg : Msg)
  | expired (it : ℕ) (msg : Msg)
  | flushed (it : ℕ)
  | ackCleared (it frame : ℕ)
  deriving DecidableEq

section Metadata

variable {Desc Msg : Type} (lib : Library Desc Msg)

def splitDots (fieldName : String) : List String :=
  (fieldName.toList.splitOn '.').map String.ofList

def findQueueFieldIn (fieldName : String) :
    List String → Msg → Except Failure (Option (FieldValue Msg))
  | [], _ => .ok none
  | name :: rest, msg =>
    match lib.findFieldByName (lib.descriptor msg) name with
    | none => .error (.queue ("No such field called " ++ fieldName ++ " in msg " ++
        lib.fullName (lib.descriptor msg)))
    | some field =>
      if field.isRepeated then .error (.queue "Cannot assign a Queue role to a repeated field")
      else if rest.isEmpty then .ok (lib.getValue field msg)
      else if !field.isMessage then
        .error (.queue ("Cannot access child fields of a non-message field: " ++ name))
      else match lib.getValue field msg with
        | some (.message m) => findQueueFieldIn fieldName rest m
        -- no submessage in this message
        | _ => .ok none

def findQueueField (fieldName : String) (msg : Msg) : Except Failure (Option (FieldValue Msg)) :=
  findQueueFieldIn lib fieldName (splitDots fieldName) msg

/-- The value of an address role, or `BROADCAST_ID` if the field is empty. -/
def addressRole (option : String) : Option (FieldValue Msg) → Except Failure ℤ
  | none => .ok broadcastId
  | some (.int32 v) => .ok v
  | some (.int64 v) => .ok (toInt v)
  | some (.uint32 v) => .ok (toInt v)
  | some (.uint64 v) => .ok (toInt v)
  | some v => .error (.queue ("Invalid type " ++ lib.typeName v ++ " given for (queue_field)." ++
      option ++ ". Expected integer type"))

def timeRole : Option (FieldValue Msg) → Except Failure (Option ℕ)
  | none => .ok none
  | some (.uint64 v) => .ok (some v)
  -- the fraction of a second is cut off before scaling
  | some (.double v) => .ok (some (⌊v⌋.toNat * 1000000))
  | some (.string v) => .ok (some (lib.timeFromString v))
  | some v => .error (.queue ("Invalid type " ++ lib.typeName v ++
      " given for (goby.field).queue.is_time. Expected uint64 contained " ++
      "microseconds since UNIX, double containing seconds since UNIX or " ++
      "std::string containing as<std::string>(boost::posix_time::ptime)"))

def Queue.roleField (q : Queue Desc Msg) (role : RoleType) : Option String :=
  (q.roles role).filter (fun field => !field.isEmpty)

def Queue.metaFromMsg (q : Queue Desc Msg) (settings : CodecSettings) (msg : Msg) :
    Except Failure QueuedMessageMeta := do
  let size ← (lib.size settings msg).mapError Failure.dccl
  let sized := { q.staticMeta with nonRepeatedSize := some size }
  let withDest ← match q.roleField .destinationId with
    | none => pure sized
    | some field => do
        let dest ← addressRole lib "is_dest" (← findQueueField lib field msg)
        pure { sized with dest := some dest }
  let withSrc ← match q.roleField .sourceId with
    | none => pure withDest
    | some field => do
        let src ← addressRole lib "is_src" (← findQueueField lib field msg)
        pure { withDest with src := some src }
  match q.roleField .timestamp with
    | none => pure withSrc
    | some field => do
        match ← timeRole lib (← findQueueField lib field msg) with
        | none => pure withSrc
        | some time => pure { withSrc with time := some time }

/-- The field that a role is read from, empty for a static role, whose value is kept. -/
def Queue.settleRole (role : Role) : EStateM Failure (Queue Desc Msg) String :=
  match role.setting with
  | .static =>
    match role.staticValue, role.type with
    | none, _ => throw (.queue ("Role " ++ role.type.name ++
        " is set to STATIC but has no `static_value`"))
    | some value, .destinationId => do
        modify (fun q => { q with staticMeta := { q.staticMeta with dest := some value } })
        pure ""
    | some value, .sourceId => do
        modify (fun q => { q with staticMeta := { q.staticMeta with src := some value } })
        pure ""
    | some _, .timestamp => throw (.queue "TIMESTAMP role cannot be static")
  | .fieldValue => do
      let q ← get
      match findQueueField lib role.field (lib.newMessage q.desc) with
      | .error e => throw e
      | .ok _ => pure role.field

/-- One role of the configuration; what was set before a failure stays set. -/
def Queue.processRole (role : Role) : EStateM Failure (Queue Desc Msg) Unit := do
  let field ← Queue.settleRole lib role
  let q ← get
  if (q.roles role.type).isSome then
    throw (.queue ("Role " ++ role.type.name ++ " was assigned more than once. Each role must " ++
      "have at most one field or static value per message."))
  else set { q with roles := Function.update q.roles role.type (some field) }

def Queue.processRoles : List Role → EStateM Failure (Queue Desc Msg) Unit
  | [] => pure ()
  | role :: rest => do
      Queue.processRole lib role
      Queue.processRoles rest

def Queue.processCfg : EStateM Failure (Queue Desc Msg) Unit := do
  let q ← get
  set { q with roles := fun _ => none, staticMeta := {} }
  Queue.processRoles lib q.cfg.role

def Queue.setCfg (cfg : QueuedMessageEntry) : EStateM Failure (Queue Desc Msg) Unit := do
  modify (fun q => { q with cfg := cfg })
  Queue.processCfg lib

end Metadata

namespace Queue

variable {Desc Msg : Type}

variable (q : Queue Desc Msg)

def size : ℕ := q.messages.size

def newestMsgTime : Ptime :=
  match q.messages.back? with
  | some (_, m) => unixMicrosec2ptime m.msgMeta.timeD
  | none => none

def findAckValue (it : ℕ) : Option (ℕ × ℕ) :=
  List.find? (fun e => e.2 = it) q.waitingForAck

def eraseAck (it : ℕ) : Multimap ℕ ℕ :=
  List.eraseP (fun e => e.2 = it) q.waitingForAck

/-- What `push_message` uses of the manager that owns the queue. -/
structure Parent (Msg : Type) where
  loopback : Bool
  noQueue : Bool
  modemId : ℤ
  cfgModemId : ℤ
  /-- The subscriber of `signal_out_route`, by the number of clock readings so far. -/
  outRoute : ℕ → QueuedMessageMeta → Msg → ℤ → QueuedMessageMeta

structure PushResult (Desc Msg : Type) where
  returned : Bool
  queue : Queue Desc Msg
  readings : ℕ
  received : List Msg
  acked : Option ModemTransmission
  events : List (QueueEvent Msg)

/-- The message to pop from a queue that is too long: the oldest if the newest are sent
first, otherwise the one at the back, which was just added. -/
def overflowIt : Option (ℕ × QueuedMessage Msg) :=
  if q.cfg.newestFirst then q.messages.front? else q.messages.back?

variable (m : QueuedMessage Msg)

def store : Queue Desc Msg × List (QueueEvent Msg) :=
  let pushed := { q with messages := q.messages.pushBack m }
  if q.cfg.maxQueue ≠ 0 ∧ pushed.size > q.cfg.maxQueue then
    match pushed.overflowIt with
    | none => (pushed, [.stored q.messages.next m.dcclMsg])
    | some (it, _) =>
        ({ pushed with waitingForAck := pushed.eraseAck it, messages := pushed.messages.erase it },
          [.stored q.messages.next m.dcclMsg, .evicted it])
  else (pushed, [.stored q.messages.next m.dcclMsg])

/-- The acknowledgment a node gives itself for a message that is to it. -/
def loopbackAck (routed : QueuedMessageMeta) (now : ℕ) : ModemTransmission :=
  { time := some now, src := routed.destD, dest := some routed.destD, type := .ack }

def pushMessage (parent : Parent Msg) (clock : ℕ → ℕ) (n : ℕ)
    (dcclMsg : Msg) (given : QueuedMessageMeta) : PushResult Desc Msg :=
  let looped := if parent.loopback && given.encodedMessage.isNone then [dcclMsg] else []
  let routed := parent.outRoute n given dcclMsg parent.cfgModemId
  if parent.noQueue then ⟨true, q, n + 1, looped, none, []⟩
  else if routed.destD = parent.modemId then
    -- message is to us, auto-loopback
    if routed.ackRequestedD || q.cfg.ack then
      ⟨true, q, n + 2, looped ++ [dcclMsg], some (loopbackAck routed (clock (n + 1))), []⟩
    else ⟨true, q, n + 1, looped ++ [dcclMsg], none, []⟩
  else
    let timed := if routed.time.isSome then routed
      else { routed with time := some (clock (n + 1)) }
    let n := if routed.time.isSome then n + 1 else n + 2
    if timed.sizeD = 0 then ⟨false, q, n, looped, none, []⟩
    else
      let acked := if timed.ackRequested.isSome then timed
        else { timed with ackRequested := some q.cfg.ack }
      let (queue, events) := q.store ⟨dcclMsg, acked⟩
      ⟨true, queue, n, looped, none, events⟩

def searchOrder : List (ℕ × QueuedMessage Msg) :=
  if q.cfg.newestFirst then q.messages.nodes.reverse else q.messages.nodes

/-- Steps on while the message is waiting to be acknowledged. -/
def skipWaiting (q : Queue Desc Msg) :
    List (ℕ × QueuedMessage Msg) → Option (ℕ × QueuedMessage Msg)
  -- the iterator has run past an end of the list
  | [] => none
  | m :: rest => if (q.findAckValue m.1).isSome then skipWaiting q rest else some m

def nextMessageIt : Option (ℕ × QueuedMessage Msg) :=
  q.skipWaiting q.searchOrder

def givenMessage (now : ℕ) : QueuedMessage Msg :=
  { m with msgMeta := { m.msgMeta with
      ackRequested := some (m.msgMeta.ackRequestedD && m.msgMeta.destD ≠ broadcastId)
      lastSentTime := some now } }

@[simp] theorem givenMessage_ackRequestedD (now : ℕ) :
    (givenMessage m now).msgMeta.ackRequestedD =
      (m.msgMeta.ackRequestedD && decide (m.msgMeta.destD ≠ broadcastId)) := rfl

@[simp] theorem givenMessage_destD (now : ℕ) :
    (givenMessage m now).msgMeta.destD = m.msgMeta.destD := rfl

def giveData (frame now : ℕ) : Option (ℕ × QueuedMessage Msg × Queue Desc Msg) :=
  match q.nextMessageIt with
  | none => none
  | some (it, m) =>
    let given := givenMessage m now
    some (it, given, { q with
      messages := q.messages.modify it (fun _ => given)
      waitingForAck :=
        if given.msgMeta.ackRequestedD then q.waitingForAck.insert frame it else q.waitingForAck
      lastSendTime := unixMicrosec2ptime now })

structure PriorityValues where
  available : Bool
  priority : Double
  lastSendTime : Ptime
  readings : ℕ

def getPriorityValues (clock : ℕ → ℕ) (n : ℕ)
    (request : ModemTransmission) (data : Bytes) : Option PriorityValues :=
  let elapsed := do
    let now ← unixMicrosec2ptime (clock n)
    let last ← q.lastSendTime
    pure (now - last)
  let priority := ((timeDuration2double elapsed).div q.cfg.ttl).mul q.cfg.valueBase
  -- no messages left to send
  if q.size ≤ q.waitingForAck.length then some ⟨false, priority, q.lastSendTime, n + 1⟩
  else match q.nextMessageIt with
    | none => none
    | some (_, next) =>
      let blackout := (unixMicrosec2ptime (clock (n + 1))).lt
        (q.lastSendTime.addMicroseconds (q.cfg.blackoutTime * 1000000))
      let tooLarge := request.maxFrameBytes.isSome ∧
        next.msgMeta.sizeD > sizeSub request.maxFrameBytesD data.length
      let wrongDest := request.dest.isSome ∧ ¬ (request.destD = queryDestinationId ∨
        next.msgMeta.destD = broadcastId ∨ request.destD = next.msgMeta.destD)
      let wrongAck := request.ackRequested = some false ∧ next.msgMeta.ackRequestedD = true ∧
        request.destD ≠ broadcastId
      some ⟨!(blackout || tooLarge || wrongDest || wrongAck), priority, q.lastSendTime, n + 2⟩

def findUnacked : List (ℕ × QueuedMessage Msg) → Option ℕ
  | [] => none
  | m :: rest => if m.2.msgMeta.ackRequestedD then findUnacked rest else some m.1

def popMessage : Option (Option ℕ × Queue Desc Msg) :=
  if q.messages.nodes.isEmpty then none
  else match findUnacked q.searchOrder with
    | none => some (none, q)
    | some it => some (some it, { q with messages := q.messages.erase it })

def popMessageAck (frame : ℕ) : Option (Option (ℕ × Msg) × Queue Desc Msg) :=
  match q.waitingForAck.find frame with
  | none => some (none, q)
  | some (_, it) =>
    match q.messages.get? it with
    | none => none
    | some m => some (some (it, m.dcclMsg), { q with
        messages := q.messages.erase it
        waitingForAck := q.waitingForAck.eraseFound frame })

def isExpired (now : ℕ) : Bool :=
  ((unixMicrosec2ptime m.msgMeta.timeD).addMicroseconds (q.cfg.ttl * 1000000)).lt
    (unixMicrosec2ptime now)

def expireLoop (clock : ℕ → ℕ) :
    ℕ → ℕ → Queue Desc Msg → List (ℕ × Msg) × Queue Desc Msg × ℕ
  | 0, n, q => ([], q, n)
  | fuel + 1, n, q =>
    match q.messages.front? with
    | none => ([], q, n)
    | some (it, m) =>
      if q.isExpired m (clock n) then
        let (expired, rest) := expireLoop clock fuel (n + 1)
          { q with waitingForAck := q.eraseAck it, messages := q.messages.erase it }
        ((it, m.dcclMsg) :: expired, rest)
      else ([], q, n + 1)

/-- Pops expired messages from the front; every round pops one, so the length of the
list bounds the rounds. -/
def expire (clock : ℕ → ℕ) (n : ℕ) : List (ℕ × Msg) × Queue Desc Msg × ℕ :=
  expireLoop clock q.size n q

def flush : Queue Desc Msg :=
  { q with messages := q.messages.clear, waitingForAck := [] }

/-- The entries that `clear_ack_queue` keeps, and those it erases. -/
def clearAckEntries (messages : StableList (QueuedMessage Msg)) (clock : ℕ → ℕ)
    (minimumAckWaitSeconds : ℚ) (startFrame : ℕ) :
    Multimap ℕ ℕ → ℕ → Option (Multimap ℕ ℕ × Multimap ℕ ℕ × ℕ)
  | [], n => some ([], [], n)
  | e :: rest, n =>
    if startFrame ≤ e.1 then
      (clearAckEntries messages clock minimumAckWaitSeconds startFrame rest n).map
        (fun r => (r.1, e :: r.2.1, r.2.2))
    else match messages.get? e.2 with
      | none => none
      | some m =>
        (clearAckEntries messages clock minimumAckWaitSeconds startFrame rest (n + 1)).map
          (fun r =>
            if m.msgMeta.lastSentTimeD + minimumAckWaitSeconds * 1000000 < (clock n : ℚ) then
              (r.1, e :: r.2.1, r.2.2)
            else (e :: r.1, r.2.1, r.2.2))

/-- Gives back the queue, the erased entries and the number of clock readings. The C++
function returns whether no entry is left. -/
def clearAckQueue (clock : ℕ → ℕ) (n : ℕ) (minimumAckWaitSeconds : ℚ)
    (startFrame : ℕ) : Option (Queue Desc Msg × Multimap ℕ ℕ × ℕ) :=
  (clearAckEntries q.messages clock minimumAckWaitSeconds startFrame q.waitingForAck n).map
    (fun r => ({ q with waitingForAck := r.1 }, r.2))

end Queue
end Goby
