import Goby.FramePacking
import Goby.ReceptionRefinement
import Mathlib.Data.List.Induction

/-! A run is a list of calls made on a new manager, with any arguments, any clock and any
subscribers. A call that throws leaves the state it reached, from which the run goes on.
Each call is recorded with its outcome and the events it raised. -/

namespace Goby

inductive Call (Msg : Type) where
  | pushMessage (msg : Msg) (given : Option QueuedMessageMeta)
  | flushQueue (dcclId : ℕ)
  | doWork
  | handleModemDataRequest (fuel : ℕ) (msg : ModemTransmission)
  | handleModemReceive (transmission : ModemTransmission)
  | setCfg (cfg : QueueManagerConfig)
  | mergeCfg (cfg : QueueManagerConfig)

namespace QueueManager

variable {Desc Msg : Type} {s : QueueManager Desc Msg}

/-- The transmission that a request fills, with the messages in each of its frames. -/
abbrev Filled (Msg : Type) := ModemTransmission × List (List (Packed Msg))

/-- A new manager; its modem id is not set before it is configured. -/
def initial (modemId : ℤ) (codec : DcclCodec Desc) : QueueManager Desc Msg :=
  { modemId := modemId, codec := codec }

section Calls

variable [DecidableEq Desc] (env : Environment Desc Msg)

def code : Call Msg → Code Desc Msg (Option (Filled Msg))
  | .pushMessage msg given => do pushMessage env msg given; pure none
  | .flushQueue dcclId => do flushQueue env dcclId; pure none
  | .doWork => do doWork env; pure none
  | .handleModemDataRequest fuel msg => do pure (some (← handleModemDataRequest env fuel msg))
  | .handleModemReceive transmission => do handleModemReceive env transmission; pure none
  | .setCfg cfg => do setCfg env cfg; pure none
  | .mergeCfg cfg => do mergeCfg env cfg; pure none

end Calls

/-- A call, how it ended, and the state after it, whose log holds the events of the call. -/
structure Record (Desc Msg : Type) where
  call : Call Msg
  outcome : Except Failure (Option (Filled Msg))
  after : QueueManager Desc Msg

abbrev Record.events (r : Record Desc Msg) : List (Event Msg) := r.after.log

structure Run (Desc Msg : Type) where
  records : List (Record Desc Msg)
  state : QueueManager Desc Msg

section Runs

variable [DecidableEq Desc] (env : Environment Desc Msg)

/-- The state in which a call starts, with nothing logged yet. -/
def begin (s : QueueManager Desc Msg) : QueueManager Desc Msg := { s with log := [] }

def record (s : QueueManager Desc Msg) (c : Call Msg) : Record Desc Msg :=
  match code env c s.begin with
  | .ok r s' => ⟨c, .ok r, s'⟩
  | .error e s' => ⟨c, .error e, s'⟩

def Run.extend (t : Run Desc Msg) (c : Call Msg) : Run Desc Msg :=
  ⟨t.records ++ [record env t.state c], (record env t.state c).after⟩

def run (s : QueueManager Desc Msg) (calls : List (Call Msg)) : Run Desc Msg :=
  calls.foldl (Run.extend env) ⟨[], s⟩

def stateAfter (modemId : ℤ) (codec : DcclCodec Desc) (calls : List (Call Msg)) :
    QueueManager Desc Msg :=
  (run env (initial modemId codec) calls).state

def Run.events (t : Run Desc Msg) : List (Event Msg) := t.records.flatMap (·.events)

end Runs

def Allows : Call Msg → Event Msg → Prop
  | .pushMessage _ _ => IsPush
  | .flushQueue _ => IsFlush
  | .doWork => IsExpiry
  | .handleModemDataRequest _ msg => IsRequest msg.frameStart msg.maxNumFrames
  | .handleModemReceive transmission => IsAck transmission
  | .setCfg _ | .mergeCfg _ => IsConfigure

variable {env : Environment Desc Msg}

theorem Requested.reaches {start count : ℕ} {s s' : QueueManager Desc Msg}
    (h : Requested env start count s s') : Reaches env (IsRequest start count) s s' := by
  intro hs
  obtain ⟨es, hsteps, hlog, hes, -⟩ := h hs
  exact ⟨es, hsteps, hlog, hes⟩

theorem Inv.begin (hs : Inv env s) : Inv env s.begin :=
  ⟨hs.ids, hs.wf, hs.agreement, hs.known⟩

theorem inv_initial (modemId : ℤ) (codec : DcclCodec Desc) :
    Inv env (initial modemId codec : QueueManager Desc Msg) := by
  have hc : ∀ k, (initial modemId codec : QueueManager Desc Msg).contents k = {} := by
    intro k
    simp [contents, initial]
  refine ⟨by simp [initial], fun k => hc k ▸ Contents.wf_empty, ?_, by simp [initial]⟩
  intro k frame
  simp [hc, Multimap.count]

variable [DecidableEq Desc]

theorem handleModemDataRequest_requested (fuel : ℕ) (msg : ModemTransmission) :
    Guarantees (Requested env msg.frameStart msg.maxNumFrames) (handleModemDataRequest env fuel msg) :=
  fun _ hs => ((handleModemDataRequest_ensures fuel msg hs).mono (fun _ _ h => h.1.1)
    fun _ _ h => h).finalState hs

theorem code_reaches (c : Call Msg) : Guarantees (Reaches env (Allows c)) (code env c) := by
  cases c with
  | pushMessage msg given => exact .bind (pushMessage_reaches msg given) fun _ => .pure _
  | flushQueue dcclId => exact .bind (flushQueue_reaches dcclId) fun _ => .pure _
  | doWork => exact .bind doWork_reaches fun _ => .pure _
  | handleModemDataRequest fuel msg =>
    exact .bind ((handleModemDataRequest_requested fuel msg).mono fun _ _ h => h.reaches) fun _ => .pure _
  | handleModemReceive transmission =>
    exact .bind (handleModemReceive_reaches transmission) fun _ => .pure _
  | setCfg cfg => exact .bind (setCfg_reaches cfg) fun _ => .pure _
  | mergeCfg cfg => exact .bind (mergeCfg_reaches cfg) fun _ => .pure _

theorem record_call (s : QueueManager Desc Msg) (c : Call Msg) : (record env s c).call = c := by
  unfold record
  split <;> rfl

theorem record_after (s : QueueManager Desc Msg) (c : Call Msg) :
    (record env s c).after = finalState (code env c) s.begin := by
  unfold record finalState
  cases code env c s.begin <;> rfl

/-- A call takes the manager along steps whose events are the events of the record. -/
theorem record_steps (hs : Inv env s) (c : Call Msg) :
    Steps env s.begin (record env s c).events (record env s c).after ∧
      ∀ e ∈ (record env s c).events, Allows c e := by
  have hreach : Reaches env (Allows c) s.begin (finalState (code env c) s.begin) :=
    code_reaches c s.begin
  obtain ⟨es, hsteps, hlog, hes⟩ := hreach hs.begin
  rw [← record_after] at hsteps hlog
  have he : (record env s c).events = es := by simpa [begin] using hlog
  rw [he]
  exact ⟨hsteps, hes⟩

theorem record_inv (hs : Inv env s) (c : Call Msg) :
    Inv env (record env s c).after := (record_steps hs c).1.inv hs.begin

@[simp] theorem run_nil (s : QueueManager Desc Msg) : run env s [] = ⟨[], s⟩ := rfl

theorem run_append_singleton (s : QueueManager Desc Msg) (calls : List (Call Msg)) (c : Call Msg) :
    run env s (calls ++ [c]) = (run env s calls).extend env c := by simp [run]

section

variable (t : Run Desc Msg) (c : Call Msg)

@[simp] theorem extend_records :
    (t.extend env c).records = t.records ++ [record env t.state c] := rfl

@[simp] theorem extend_state : (t.extend env c).state = (record env t.state c).after := rfl

@[simp] theorem extend_events :
    (t.extend env c).events = t.events ++ (record env t.state c).events := by
  simp [Run.events]

end

theorem run_induction {P : Run Desc Msg → Prop} (h₀ : P ⟨[], s⟩)
    (hs : Inv env s) (hcall : ∀ t c, Inv env t.state → P t → P (t.extend env c))
    (calls : List (Call Msg)) : Inv env (run env s calls).state ∧ P (run env s calls) := by
  induction calls using List.reverseRecOn with
  | nil => exact ⟨hs, h₀⟩
  | append_singleton calls c ih =>
    rw [run_append_singleton]
    exact ⟨record_inv ih.1 c, hcall _ c ih.1 ih.2⟩

theorem inv_stateAfter (modemId : ℤ) (codec : DcclCodec Desc) (calls : List (Call Msg)) :
    Inv env (stateAfter env modemId codec calls) :=
  (run_induction (P := fun _ => True) trivial (inv_initial modemId codec)
    (fun _ _ _ _ => trivial) calls).1

/-! A run of the sample application: node 1 sends a message to node 3 in frame 5 and
receives the acknowledgment. -/

def sampleEnvironment : Environment SampleDesc SampleMsg :=
  { sampleLibrary with
    clock := fun n => n
    onDemand := fun _ _ msg => msg
    outRoute := fun _ given _ _ => given
    inRouteConnected := fun _ => false }

def sampleCodec : DcclCodec SampleDesc := DcclCodec.initial ""

def sampleEntry : QueuedMessageEntry :=
  { protobufName := "Status"
    role := [{ type := .destinationId, field := "dest" }, { type := .sourceId, field := "src" }] }

def sampleRequest : ModemTransmission :=
  { dest := some queryDestinationId, maxNumFrames := 2, maxFrameBytes := some 32, frameStart := 5 }

def sampleAck : ModemTransmission :=
  { type := .ack, src := 3, dest := some 1, ackedFrame := [5] }

def sampleCalls : List (Call SampleMsg) :=
  [.setCfg { modemId := some 1, messageEntry := [sampleEntry] },
    .pushMessage { src := 1, dest := 3, body := 7 } none,
    .handleModemDataRequest 9 sampleRequest]

def sampleState : QueueManager SampleDesc SampleMsg :=
  stateAfter sampleEnvironment 0 sampleCodec (sampleCalls.take 2)

end QueueManager
end Goby
