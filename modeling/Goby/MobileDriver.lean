import Goby.SbdLines

/-! The driver asks its machine for something to send, gives it every line that the modem has sent,
and hands over the messages that the machine has received, acknowledging those that ask for it.
While there is a call, it also pushes data at the rate of the call, and ends it. An event without
a line does not make it throw; whether a line does depends on what the machine was waiting for. -/

namespace Goby

/-- The driver with its machine, what it has written to the modem, and the messages that it has
handed over. -/
structure MobileDriver where
  fsm : IridiumFsm
  nextFrame : ℕ := 0
  lastTriplePlusTime : ℚ := 0
  written : List Bytes := []
  delivered : List DriverTransmission := []

abbrev MobileM := EStateM MobileFailure MobileDriver

namespace MobileDriver

open IridiumFsm

def withFsm (f : IridiumFsm → IridiumFsm) (d : MobileDriver) : MobileDriver := { d with fsm := f d.fsm }

/-- Boost.Statechart terminates the machine on an exception. It is left as it is here, as no result
is about a driver that has thrown one. -/
def process (env : MobileEnv) (now : ℚ) (e : IridiumEvent) : MobileM Unit := fun d =>
  match processEvent env now e d.fsm with
  | .ok _ s => .ok () { d with fsm := s }
  | .error failure s => .error failure { d with fsm := s }

def bufferDataOut (msg : DriverTransmission) (s : IridiumFsm) : IridiumFsm :=
  { s with dataOut := circularPush 5 s.dataOut msg }

def sendSbd (env : MobileEnv) (now : ℚ) (msg : DriverTransmission) : MobileM Unit :=
  match serializeIridiumModemMessage env.codec msg with
  | .error e => throw (.thrown e)
  | .ok bytes => process env now (.sbdBeginData (serializeRudicsPacket env.crc bytes) false)

/-- On a call, everything is sent on it. -/
def send (env : MobileEnv) (now : ℚ) (msg : DriverTransmission) : MobileM Unit := do
  let d ← get
  if msg.rateD = rateRudics then modify (withFsm (bufferDataOut msg))
  else if msg.rateD = rateSbd then
    if d.fsm.onCall = none then sendSbd env now msg else modify (withFsm (bufferDataOut msg))
  else pure ()

def perform (env : MobileEnv) (now : ℚ) : List IridiumAction → MobileM Unit
  | [] => pure ()
  | .dial :: actions => do
      process env now .dial
      perform env now actions
  | .send msg :: actions => do
      send env now msg
      perform env now actions
  | .mailboxCheck :: actions => do
      process env now (.sbdBeginData [] false)
      perform env now actions

def processTransmission (env : MobileEnv) (now : ℚ) (signals : DriverSignals)
    (msg : DriverTransmission) (dial : Bool) : MobileM Unit := do
  let d ← get
  let r := IridiumDriver.processTransmission env.maxFrameSize signals d.nextFrame msg dial
  set { d with nextFrame := r.1 }
  perform env now r.2

def handleInitiateTransmission (env : MobileEnv) (now : ℚ) (signals : DriverSignals)
    (msg : DriverTransmission) : MobileM Unit := processTransmission env now signals msg true

def rudicsMacMsg (env : MobileEnv) : DriverTransmission where
  src := env.modemId
  type := .data
  rate := some rateRudics

/-- After a hangup by the data terminal line, the modem does not say that the carrier is gone. -/
def hangup (env : MobileEnv) (now : ℚ) : MobileM Unit :=
  process env now (if env.useDtr then .noCarrier else .hangup)

def dataDue (env : MobileEnv) (now : ℚ) (call : OnCall) (s : IridiumFsm) : Prop :=
  s.dataOut = [] ∧ now > call.lastTxTime + call.lastBytesSent / (env.targetBitRate / 8) ∧
    call.byeSent = false

instance (env : MobileEnv) (now : ℚ) (call : OnCall) (s : IridiumFsm) :
    Decidable (dataDue env now call s) := inferInstanceAs (Decidable (_ ∧ _))

def byeDue (env : MobileEnv) (now : ℚ) (call : OnCall) : Prop :=
  call.byeSent = false ∧ now > call.lastTxTime + env.handshakeHangupSeconds

instance (env : MobileEnv) (now : ℚ) (call : OnCall) : Decidable (byeDue env now call) :=
  inferInstanceAs (Decidable (_ ∧ _))

def hangupDue (env : MobileEnv) (now : ℚ) (call : OnCall) : Prop :=
  (call.byeReceived = true ∧ call.byeSent = true) ∨ now > call.lastRxTxTime + env.hangupSecondsAfterEmpty

instance (env : MobileEnv) (now : ℚ) (call : OnCall) : Decidable (hangupDue env now call) :=
  inferInstanceAs (Decidable (_ ∨ _))

def whenDue (due : OnCall → IridiumFsm → Prop) [∀ call s, Decidable (due call s)] (m : MobileM Unit) :
    MobileM Unit := do
  let d ← get
  match d.fsm.onCall with
  | some call => if due call d.fsm then m else pure ()
  | none => pure ()

def callWork (env : MobileEnv) (now : ℚ) (signals : DriverSignals) : MobileM Unit := do
  whenDue (dataDue env now) (processTransmission env now signals (rudicsMacMsg env) false)
  whenDue (fun call _ => byeDue env now call) (process env now .sendBye)
  whenDue (fun call _ => hangupDue env now call) (hangup env now)

/-- After `+++`, nothing is written for two seconds. -/
def writeLines (now : ℚ) : List Bytes → MobileDriver → MobileDriver
  | [], d => d.withFsm fun s => { s with serialTx := [] }
  | line :: rest, d =>
    if d.lastTriplePlusTime + 2 > now then d.withFsm fun s => { s with serialTx := line :: rest }
    else
      writeLines now rest { d with
        written := d.written ++ [line]
        lastTriplePlusTime := if line = triplePlus then now else d.lastTriplePlusTime }

def trySerialTx (env : MobileEnv) (now : ℚ) : MobileM Unit := do
  process env now .txSerial
  modify fun d => writeLines now d.fsm.serialTx d

def readLines (env : MobileEnv) (now : ℚ) : List Bytes → MobileM Unit
  | [] => pure ()
  | line :: lines => do
      process env now (.rxSerial line)
      readLines env now lines

def acknowledge (env : MobileEnv) (now : ℚ) (msg : DriverTransmission) : MobileM Unit :=
  match receiveAck env.modemId msg with
  | some ack => send env now ack
  | none => pure ()

def receive (env : MobileEnv) (now : ℚ) (msg : DriverTransmission) : MobileM Unit := do
  acknowledge env now msg
  modify fun d => { d with delivered := d.delivered ++ [msg] }

/-- A message is removed once it has been handed over. -/
def receiveEach (env : MobileEnv) (now : ℚ) : List DriverTransmission → MobileM Unit
  | [] => pure ()
  | msg :: msgs => do
      receive env now msg
      modify (withFsm fun s => { s with received := s.received.tail })
      receiveEach env now msgs

def beforeReading (env : MobileEnv) (now : ℚ) (signals : DriverSignals) : MobileM Unit := do
  callWork env now signals
  trySerialTx env now

def afterReading (env : MobileEnv) (now : ℚ) : MobileM Unit := do
  let d ← get
  receiveEach env now d.fsm.received
  trySerialTx env now

def doWork (env : MobileEnv) (now : ℚ) (signals : DriverSignals) (lines : List Bytes) : MobileM Unit := do
  beforeReading env now signals
  readLines env now lines
  afterReading env now

section Works

variable {env : MobileEnv} {now : ℚ} {d : MobileDriver} {msg : DriverTransmission}
  {signals : DriverSignals} {m : MobileM Unit} {e : IridiumEvent}

def Works (env : MobileEnv) (m : MobileM Unit) (d : MobileDriver) : Prop :=
  ∃ d', m d = .ok () d' ∧ Idle env d'.fsm

theorem Works.pure (h : Idle env d.fsm) : Works env (pure ()) d := ⟨d, rfl, h⟩

theorem Works.bind {f : Unit → MobileM Unit} (h : Works env m d)
    (hf : ∀ d', Idle env d'.fsm → Works env (f ()) d') : Works env (m >>= f) d := by
  obtain ⟨d', hrun, hd'⟩ := h
  obtain ⟨d'', hrun', hd''⟩ := hf d' hd'
  refine ⟨d'', ?_, hd''⟩
  rw [run_bind, hrun]
  exact hrun'

theorem Works.of_modify {f : MobileDriver → MobileDriver} (h : Idle env (f d).fsm) :
    Works env (modify f) d := ⟨f d, rfl, h⟩

theorem process_run {s' : IridiumFsm}
    (h : processEvent env now e d.fsm = .ok () s') :
    process env now e d = .ok () { d with fsm := s' } := by
  simp only [process, h]

theorem process_works (h : Idle env d.fsm) (he : e.Internal) : Works env (process env now e) d := by
  obtain ⟨s', hrun, hs', -⟩ := processEvent_internal now h he
  exact ⟨_, process_run hrun, hs'⟩

theorem bufferDataOut_idle {s : IridiumFsm} (h : Idle env s)
    (hmsg : Encodes env msg) : Idle env (bufferDataOut msg s) := by
  refine ⟨⟨fun m hm => ?_, h.received⟩, h.posted⟩
  rcases mem_circularPush hm with hm | rfl
  · exact h.dataOut m hm
  · exact hmsg

theorem send_works (h : Idle env d.fsm) (hmsg : Encodes env msg) :
    Works env (send env now msg) d := by
  obtain ⟨bytes, hbytes⟩ := hmsg
  have hbuffer : Works env (modify (withFsm (bufferDataOut msg))) d :=
    .of_modify (bufferDataOut_idle h ⟨bytes, hbytes⟩)
  change Works env (if _ then _ else if _ then if _ then _ else _ else _) d
  split
  · exact hbuffer
  · split
    · split
      · rw [sendSbd, hbytes]
        exact process_works h trivial
      · exact hbuffer
    · exact .pure h

theorem perform_works (h : Idle env d.fsm) {actions : List IridiumAction}
    (hsend : ∀ msg, .send msg ∈ actions → Encodes env msg) : Works env (perform env now actions) d := by
  induction actions generalizing d with
  | nil => exact .pure h
  | cons a actions ih =>
    have hrest : ∀ msg, .send msg ∈ actions → Encodes env msg :=
      fun msg hmem => hsend msg (List.mem_cons_of_mem _ hmem)
    cases a with
    | dial => exact (process_works (e := .dial) h trivial).bind fun d' hd' => ih hd' hrest
    | mailboxCheck => exact (process_works (e := .sbdBeginData _ _) h trivial).bind fun d' hd' => ih hd' hrest
    | send msg => exact (send_works h (hsend msg List.mem_cons_self)).bind fun d' hd' => ih hd' hrest

/-- Whatever the number of its first frame, what is sent for a transmission can be encoded. -/
def SendsEncode (env : MobileEnv) (signals : DriverSignals) (msg : DriverTransmission) (dial : Bool) : Prop :=
  ∀ n m, .send m ∈ (IridiumDriver.processTransmission env.maxFrameSize signals n msg dial).2 → Encodes env m

theorem processTransmission_works (h : Idle env d.fsm) {dial : Bool}
    (hsend : SendsEncode env signals msg dial) :
    Works env (processTransmission env now signals msg dial) d :=
  perform_works
    (d := { d with nextFrame := (IridiumDriver.processTransmission _ signals d.nextFrame msg dial).1 }) h
    (hsend d.nextFrame)

theorem whenDue_works (h : Idle env d.fsm) {due : OnCall → IridiumFsm → Prop}
    [∀ call s, Decidable (due call s)] (hm : Works env m d) :
    Works env (whenDue due m) d := by
  unfold whenDue
  change Works env (match d.fsm.onCall with
    | some call => if due call d.fsm then m else Pure.pure ()
    | none => Pure.pure ()) d
  split
  · split
    · exact hm
    · exact .pure h
  · exact .pure h

theorem callWork_works (h : Idle env d.fsm)
    (hsend : SendsEncode env signals (rudicsMacMsg env) false) : Works env (callWork env now signals) d := by
  refine (whenDue_works h (processTransmission_works h hsend)).bind fun d₁ h₁ => ?_
  refine (whenDue_works h₁ (process_works (e := .sendBye) h₁ trivial)).bind fun d₂ h₂ => ?_
  refine whenDue_works h₂ (process_works h₂ ?_)
  split <;> trivial

theorem writeLines_idle (h : Idle env d.fsm)
    (lines : List Bytes) : Idle env (writeLines now lines d).fsm := by
  induction lines generalizing d with
  | nil => exact ⟨⟨h.dataOut, h.received⟩, h.posted⟩
  | cons line lines ih =>
    unfold writeLines
    split
    · exact ⟨⟨h.dataOut, h.received⟩, h.posted⟩
    · exact ih h

theorem trySerialTx_works (h : Idle env d.fsm) : Works env (trySerialTx env now) d :=
  (process_works (e := .txSerial) h trivial).bind fun _ h' => .of_modify (writeLines_idle h' _)

theorem beforeReading_works (h : Idle env d.fsm)
    (hsend : SendsEncode env signals (rudicsMacMsg env) false) :
    Works env (beforeReading env now signals) d :=
  (callWork_works h hsend).bind fun _ h' => trySerialTx_works h'

theorem receive_works (h : Idle env d.fsm)
    (hack : ∀ ack, receiveAck env.modemId msg = some ack → Encodes env ack) :
    Works env (receive env now msg) d := by
  have hacknowledge : Works env (acknowledge env now msg) d := by
    unfold acknowledge
    split
    next ack heq => exact send_works h (hack ack heq)
    next => exact .pure h
  exact hacknowledge.bind fun d' h' => .of_modify h'

theorem receiveEach_works (h : Idle env d.fsm) {msgs : List DriverTransmission}
    (hacks : ∀ msg ∈ msgs, ∀ ack, receiveAck env.modemId msg = some ack → Encodes env ack) :
    Works env (receiveEach env now msgs) d := by
  induction msgs generalizing d with
  | nil => exact .pure h
  | cons msg msgs ih =>
    obtain ⟨hfirst, hrest⟩ := List.forall_mem_cons.mp hacks
    refine (receive_works h hfirst).bind fun d₁ h₁ => ?_
    refine Works.bind (.of_modify ⟨⟨h₁.dataOut, fun m hm => ?_⟩, h₁.posted⟩) fun d₂ h₂ => ih h₂ hrest
    exact h₁.received m (List.mem_of_mem_tail hm)

theorem afterReading_works (h : Idle env d.fsm) : Works env (afterReading env now) d :=
  (receiveEach_works h h.received).bind fun _ h' => trySerialTx_works h'

end Works

end MobileDriver

end Goby
