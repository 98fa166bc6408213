import Goby.CallRuns
import Goby.MobileDriver

/-! A packet is taken apart in two steps. A bad packet is an exception of its own, which is caught on
a call; a header that cannot be decoded is another, which is not. For a short burst neither is
caught, and the command that asked for it is given up only after both steps. So the driver returns
from its work if and only if no packet with a good checksum has a bad header on a call, and the
answer to `+SBDRB` is a good packet. -/

namespace Goby

namespace IridiumFsm

open IridiumCommand

variable {env : MobileEnv} {now : ℚ} {s : IridiumFsm} {line : Bytes} {call : OnCall} {s' : IridiumFsm}
  {msg : DriverTransmission}

def AcksEncode (env : MobileEnv) : Prop :=
  ∀ data msg, DecodesTo env data msg → ∀ ack, receiveAck env.modemId msg = some ack → Encodes env ack

/-- A line that the machine can take. While `+SBDRB` is in front it is not empty, unless something
has been read before, and if it completes the reply, the data is a packet with a message. On a
call, a packet has a message unless it is a bad packet. -/
def Contained (env : MobileEnv) (line : Bytes) (s : IridiumFsm) : Prop :=
  match s.command, s.onCall with
  | some c, _ => c.front? = some sbdRead → ¬(c.sbdRxBuffer = [] ∧ line = []) ∧
      ∀ data, announced (accumulate c.sbdRxBuffer line) = some data → ∃ msg, DecodesTo env data msg
  | none, some _ => ¬IsText line → ∀ bytes, parseRudicsPacket env.crc line = .ok bytes →
      ∃ msg, parseIridiumModemMessage env.codec bytes = .ok msg
  | none, none => True

theorem Sound.receive (hs : Sound env s) (hacks : AcksEncode env) {data : Bytes}
    (hmsg : DecodesTo env data msg) (hr : s'.received = circularPush 10 s.received msg)
    (hd : s'.dataOut = s.dataOut) : Sound env s' := by
  refine ⟨hd ▸ hs.dataOut, fun m hm => ?_⟩
  rw [hr] at hm
  rcases mem_circularPush hm with hm | rfl
  · exact hs.received m hm
  · exact hacks data m hmsg

theorem parsePacket_error {data : Bytes} (h : ¬∃ msg, DecodesTo env data msg) :
    ∃ e, ∀ s, parsePacket env data s = .error e s := by
  unfold parsePacket
  cases hbytes : parseRudicsPacket env.crc data with
  | error e => exact ⟨_, fun _ => rfl⟩
  | ok bytes =>
    cases hmsg : parseIridiumModemMessage env.codec bytes with
    | error e => exact ⟨.thrown e, fun _ => by simp [hmsg]⟩
    | ok msg => exact absurd ⟨msg, bytes, hbytes, hmsg⟩ h

theorem processEvent_error {e : IridiumEvent} {failure : MobileFailure}
    (h : react env now e s = .error failure s') : processEvent env now e s = .error failure s' := by
  rw [processEvent, run_bind, h]

/-- A line of a reply is taken if and only if it is good. -/
theorem sbd_line_iff {c : IridiumCommand} (hs : Idle env s) (hacks : AcksEncode env)
    (hc : s.command = some c) (hfront : c.front? = some sbdRead) :
    ReturnsIff (processEvent env now (.rxSerial line)) s (Contained env line s) (Idle env) := by
  have hreact : react env now (.rxSerial line) s = handleSbdRx env line c s := by
    simp only [react, run_bind, run_get, hc, hfront, if_true]
  have hcontained : Contained env line s ↔ ¬(c.sbdRxBuffer = [] ∧ line = []) ∧
      ∀ data, announced (accumulate c.sbdRxBuffer line) = some data → ∃ msg, DecodesTo env data msg := by
    simp only [Contained, hc, hfront, forall_const]
  by_cases hempty : c.sbdRxBuffer = [] ∧ line = []
  · rw [handleSbdRx, if_pos hempty, run_throw] at hreact
    exact .throws (processEvent_error hreact) fun h => (hcontained.mp h).1 hempty
  · rw [handleSbdRx_run hempty] at hreact
    cases hdata : announced (accumulate c.sbdRxBuffer line) with
    | none =>
      rw [hdata] at hreact
      obtain ⟨t, hrun, ht, -⟩ := drain_of_reacts (n := 9) hs.posted (.none hreact rfl)
        ⟨hs.dataOut, hs.received⟩
      exact .returns hrun ht (hcontained.mpr ⟨hempty, by simp [hdata]⟩)
    | some data =>
      rw [hdata] at hreact
      by_cases hmsg : ∃ msg, DecodesTo env data msg
      · obtain ⟨msg, hmsg⟩ := hmsg
        simp only [run_bind, parsePacket_run hmsg, run_modify] at hreact
        obtain ⟨t, hrun, ht, -⟩ := drain_of_reacts (n := 9) hs.posted
          ⟨hreact, [.sbdReceiveComplete], rfl, .single (by decide) trivial⟩
          (hs.toSound.receive hacks hmsg rfl rfl)
        refine .returns hrun ht (hcontained.mpr ⟨hempty, fun data' hdata' => ⟨msg, ?_⟩⟩)
        rwa [← Option.some.inj (hdata.symm.trans hdata')]
      · obtain ⟨e, he⟩ := parsePacket_error hmsg
        simp only [run_bind, he] at hreact
        exact .throws (processEvent_error hreact) fun h => hmsg ((hcontained.mp h).2 data hdata)

theorem processEvent_online (h : s.command = none) (hposted : s.posted = []) :
    processEvent env now (.rxSerial line) s =
      (react env now (.rxOnCallSerial line) >>= fun _ => drain env now 8) s := by
  have hreact : react env now (.rxSerial line) s = .ok () (s.post (.rxOnCallSerial line)) := by
    simp only [react, run_bind, run_get, h, run_set, calmReact]
  have hpost : (s.post (.rxOnCallSerial line)).posted = [.rxOnCallSerial line] := by
    rw [post, hposted, List.nil_append]
  have hback : { s.post (.rxOnCallSerial line) with posted := [] } = s := by
    rw [← hposted]
    rfl
  rw [processEvent, run_bind, hreact]
  dsimp only
  rw [drain_cons hpost, hback]

theorem isText_iff_of_not (h : ¬IsText line) : ¬ascii "NO CARRIER" <:+: line ∧
    trimCopy line ≠ ascii "goby" ∧ trimCopy line ≠ ascii "bye" := by
  unfold IsText at h
  exact ⟨fun h' => h (.inl h'), fun h' => h (.inr (.inl h')), fun h' => h (.inr (.inr h'))⟩

theorem onCallRx_text (now : ℚ) (hs : Idle env s) (call : OnCall) (h : IsText line) :
    ∃ s', Reacts 2 (onCallRx env now line call) s s' ∧ Sound env s' := by
  by_cases hcarrier : ascii "NO CARRIER" <:+: line
  · refine ⟨s.post .noCarrier, ⟨by rw [onCallRx, if_pos hcarrier, run_modify], [.noCarrier], rfl, ?_⟩, ?_⟩
    · exact .single le_rfl trivial
    · exact ⟨hs.dataOut, hs.received⟩
  · by_cases hgoby : trimCopy line = ascii "goby"
    · exact ⟨s, .none (by rw [onCallRx, if_neg hcarrier, if_pos hgoby, run_pure]) rfl, hs.toSound⟩
    · have hbye : trimCopy line = ascii "bye" := (h.resolve_left hcarrier).resolve_left hgoby
      refine ⟨s.setOnCall { call with byeReceived := true }, .none ?_ rfl, ⟨hs.dataOut, hs.received⟩⟩
      rw [onCallRx, if_neg hcarrier, if_neg hgoby, if_pos hbye, run_modify]

theorem onCallRx_packet (h : ¬IsText line) (call : OnCall) :
    onCallRx env now line call s = onCallPacket env now line call s := by
  obtain ⟨hcarrier, hgoby, hbye⟩ := isText_iff_of_not h
  rw [onCallRx, if_neg hcarrier, if_neg hgoby, if_neg hbye]

theorem online_of_reacts (h : s.command = none) (hposted : s.posted = [])
    (hr : Reacts 8 (react env now (.rxOnCallSerial line)) s s') (hs' : Sound env s') :
    ∃ t, processEvent env now (.rxSerial line) s = .ok () t ∧ Idle env t ∧ t.received = s'.received := by
  rw [processEvent_online h hposted]
  exact drain_of_reacts hposted hr hs'

theorem react_onCall (hcall : s.onCall = some call) :
    react env now (.rxOnCallSerial line) s = onCallRx env now line call s := by
  simp only [react, run_bind, run_get, hcall]

theorem call_bad_packet (h : s.command = none) (hposted : s.posted = [])
    (hcall : s.onCall = some call) (htext : ¬IsText line) {e : RudicsPacketException}
    (hbad : parseRudicsPacket env.crc line = .error e) :
    processEvent env now (.rxSerial line) s = .ok () s := by
  rw [processEvent_online h hposted, run_bind, react_onCall hcall, onCallRx_packet htext, onCallPacket, hbad]
  exact drain_nil hposted 8

theorem call_good_packet (now : ℚ) (hs : Idle env s) (hacks : AcksEncode env)
    (h : s.command = none) (hcall : s.onCall = some call) (htext : ¬IsText line)
    (hmsg : DecodesTo env line msg) :
    ∃ t, processEvent env now (.rxSerial line) s = .ok () t ∧ Idle env t ∧
      t.received = circularPush 10 s.received msg := by
  obtain ⟨bytes, hbytes, hparse⟩ := hmsg
  have hrun : react env now (.rxOnCallSerial line) s = .ok () { s with
      received := circularPush 10 s.received msg
      onCall := some { call with lastRxTime := now } } := by
    rw [react_onCall hcall, onCallRx_packet htext, onCallPacket]
    simp only [hbytes, hparse, run_modify]
  exact online_of_reacts h hs.posted (.none hrun rfl)
    (hs.toSound.receive hacks ⟨bytes, hbytes, hparse⟩ rfl rfl)

theorem call_line_iff (hs : Idle env s) (hacks : AcksEncode env) (h : s.command = none)
    (hcall : s.onCall = some call) :
    ReturnsIff (processEvent env now (.rxSerial line)) s (Contained env line s) (Idle env) := by
  have hcontained : Contained env line s ↔ (¬IsText line → ∀ bytes,
      parseRudicsPacket env.crc line = .ok bytes →
        ∃ msg, parseIridiumModemMessage env.codec bytes = .ok msg) := by
    simp only [Contained, h, hcall]
  by_cases htext : IsText line
  · obtain ⟨s', ⟨hrun, es, hes, hlight⟩, hs'⟩ := onCallRx_text now hs call htext
    obtain ⟨t, hprocess, ht, -⟩ := online_of_reacts h hs.posted
      ⟨(react_onCall hcall).trans hrun, es, hes, hlight.mono (by decide)⟩ hs'
    exact .returns hprocess ht (hcontained.mpr fun hnot => absurd htext hnot)
  · cases hbytes : parseRudicsPacket env.crc line with
    | error e =>
      refine .returns (call_bad_packet h hs.posted hcall htext hbytes) hs (hcontained.mpr ?_)
      simp [hbytes]
    | ok bytes =>
      cases hmsg : parseIridiumModemMessage env.codec bytes with
      | ok msg =>
        obtain ⟨t, hprocess, ht, -⟩ :=
          call_good_packet now hs hacks h hcall htext ⟨bytes, hbytes, hmsg⟩
        refine .returns hprocess ht (hcontained.mpr fun _ bytes' hbytes' => ⟨msg, ?_⟩)
        rw [hbytes] at hbytes'
        rwa [← Except.ok.inj hbytes']
      | error e =>
        have hrun : processEvent env now (.rxSerial line) s = .error (.thrown e) s := by
          rw [processEvent_online h hs.posted, run_bind, react_onCall hcall, onCallRx_packet htext,
            onCallPacket]
          simp only [hbytes, hmsg, run_throw]
        refine .throws hrun fun hc => ?_
        obtain ⟨msg, hmsg'⟩ := hcontained.mp hc htext bytes hbytes
        rw [hmsg] at hmsg'
        cases hmsg'

/-- Whatever the state, the machine takes a line if and only if it is good. -/
theorem line_iff (hs : Idle env s) (hacks : AcksEncode env) (now : ℚ) (line : Bytes) :
    ReturnsIff (processEvent env now (.rxSerial line)) s (Contained env line s) (Idle env) := by
  cases hc : s.command with
  | some c =>
    by_cases hfront : c.front? = some sbdRead
    · exact sbd_line_iff hs hacks hc hfront
    · have hreact : react env now (.rxSerial line) s = .ok () (s.calmReact env now (.rxSerial line)) := by
        simp only [react, run_bind, run_get, hc, if_neg hfront, run_set]
      obtain ⟨s', hreacts, hs', -⟩ := react_calm hreact hs.toSound (.inr (by simp [hc]))
      obtain ⟨t, hprocess, ht, -⟩ := drain_of_reacts hs.posted hreacts hs'
      refine .returns hprocess ht ?_
      simp only [Contained, hc]
      exact fun h => absurd h hfront
  | none =>
    cases hcall : s.onCall with
    | some call => exact call_line_iff hs hacks hc hcall
    | none =>
      have hrun : react env now (.rxOnCallSerial line) s = .ok () s := by
        simp only [react, run_bind, run_get, hcall, run_set, calmReact]
      obtain ⟨t, hprocess, ht, -⟩ := online_of_reacts hc hs.posted (.none hrun rfl) hs.toSound
      refine .returns hprocess ht ?_
      simp only [Contained, hc, hcall]

end IridiumFsm

namespace MobileDriver

open IridiumFsm

variable {env : MobileEnv} {now : ℚ} {d : MobileDriver}

def LinesContained (env : MobileEnv) (now : ℚ) : List Bytes → IridiumFsm → Prop
  | [], _ => True
  | line :: lines, s => Contained env line s ∧
      ∀ s', processEvent env now (.rxSerial line) s = .ok () s' → LinesContained env now lines s'

theorem Works.returnsIff {m : MobileM Unit} (h : Works env m d) :
    ReturnsIff m d True fun d' => Idle env d'.fsm := by
  obtain ⟨d', hrun, hd'⟩ := h
  exact .returns hrun hd' trivial

theorem process_ok_iff {e : IridiumEvent} {d' : MobileDriver} :
    process env now e d = .ok () d' ↔
      ∃ s', processEvent env now e d.fsm = .ok () s' ∧ d' = { d with fsm := s' } := by
  unfold process
  cases processEvent env now e d.fsm with
  | ok _ s' => simp [eq_comm]
  | error failure s' => simp

section

variable (h : Idle env d.fsm) (hacks : AcksEncode env)
include h hacks

theorem process_line_iff (now : ℚ) (line : Bytes) :
    ReturnsIff (process env now (.rxSerial line)) d (Contained env line d.fsm)
      fun d' => Idle env d'.fsm := by
  have hline := line_iff h hacks now line
  refine ⟨⟨?_, fun hc => ?_⟩, ?_⟩
  · rintro ⟨_, d', hrun⟩
    obtain ⟨s', hs', -⟩ := process_ok_iff.mp hrun
    exact hline.iff.mp ⟨(), s', hs'⟩
  · obtain ⟨_, s', hs'⟩ := hline.iff.mpr hc
    exact ⟨(), _, process_run hs'⟩
  · intro _ d' hrun
    obtain ⟨s', hs', rfl⟩ := process_ok_iff.mp hrun
    exact hline.after () s' hs'

theorem readLines_iff (now : ℚ) (lines : List Bytes) :
    ReturnsIff (readLines env now lines) d (LinesContained env now lines d.fsm)
      fun d' => Idle env d'.fsm := by
  induction lines generalizing d with
  | nil => exact .returns rfl h trivial
  | cons line lines ih =>
    have hbind := (process_line_iff h hacks now line).bind
      (f := fun _ => readLines env now lines) fun _ d' hd' => ih hd'
    refine hbind.congr (and_congr_right fun _ => ⟨fun hrest s' hs' => ?_, fun hrest _ d' hrun => ?_⟩)
    · exact hrest () _ (process_run hs')
    · obtain ⟨s', hs', rfl⟩ := process_ok_iff.mp hrun
      exact hrest s' hs'

/-- The driver returns from its work if and only if it can take the lines that it reads. -/
theorem doWork_iff {signals : DriverSignals}
    (hsend : SendsEncode env signals (rudicsMacMsg env) false) (lines : List Bytes) :
    ReturnsIff (doWork env now signals lines) d
      (∀ d', beforeReading env now signals d = .ok () d' → LinesContained env now lines d'.fsm)
      fun d' => Idle env d'.fsm := by
  have hread : ∀ d' : MobileDriver, Idle env d'.fsm → ReturnsIff
      (readLines env now lines >>= fun _ => afterReading env now) d'
      (LinesContained env now lines d'.fsm) fun d'' => Idle env d''.fsm := by
    intro d' hd'
    have hafter := (readLines_iff hd' hacks now lines).bind (f := fun _ => afterReading env now)
      fun _ d'' hd'' => (afterReading_works hd'').returnsIff
    exact hafter.congr ⟨And.left, fun hc => ⟨hc, fun _ _ _ => trivial⟩⟩
  have hbefore : Works env (beforeReading env now signals) d := beforeReading_works h hsend
  have hwork := hbefore.returnsIff.bind
    (f := fun _ => readLines env now lines >>= fun _ => afterReading env now) fun _ d' hd' => hread d' hd'
  exact hwork.congr ⟨fun hc d' hrun => hc.2 () d' hrun, fun hc => ⟨trivial, fun _ d' hrun => hc d' hrun⟩⟩

end

inductive MobileCall where
  | doWork (now : ℚ) (signals : DriverSignals) (lines : List Bytes)
  | initiate (now : ℚ) (signals : DriverSignals) (msg : DriverTransmission)

namespace MobileCall

def run (env : MobileEnv) : MobileCall → MobileM Unit
  | .doWork now signals lines => MobileDriver.doWork env now signals lines
  | .initiate now signals msg => handleInitiateTransmission env now signals msg

def Regular (env : MobileEnv) : MobileCall → Prop
  | .doWork _ signals _ => SendsEncode env signals (rudicsMacMsg env) false
  | .initiate _ signals msg => SendsEncode env signals msg true

def Contained (env : MobileEnv) (d : MobileDriver) : MobileCall → Prop
  | .doWork now signals lines =>
    ∀ d', beforeReading env now signals d = .ok () d' → LinesContained env now lines d'.fsm
  | .initiate _ _ _ => True

theorem run_iff (h : Idle env d.fsm) (hacks : AcksEncode env) {c : MobileCall} (hc : c.Regular env) :
    ReturnsIff (c.run env) d (c.Contained env d) fun d' => Idle env d'.fsm := by
  cases c with
  | doWork now signals lines => exact doWork_iff h hacks hc lines
  | initiate now signals msg =>
    have hworks : Works env (handleInitiateTransmission env now signals msg) d :=
      processTransmission_works h hc
    exact hworks.returnsIff

end MobileCall

abbrev MobileRuns (env : MobileEnv) : MobileDriver → Prop :=
  Reached (fun c : MobileCall => finalState (c.run env)) (fun d c => c.Regular env ∧ c.Contained env d)
    { fsm := initiate env }

theorem idle_of_runs {d : MobileDriver} (hacks : AcksEncode env) (h : MobileRuns env d) :
    Idle env d.fsm := by
  refine h.invariant (P := fun d => Idle env d.fsm)
    ⟨⟨(fun _ hm => nomatch hm), (fun _ hm => nomatch hm)⟩, rfl⟩ fun d c hd hc => ?_
  have hiff := MobileCall.run_iff hd hacks hc.1
  obtain ⟨_, d', hrun⟩ := hiff.iff.mpr hc.2
  rw [finalState, hrun]
  exact hiff.after _ d' hrun

end MobileDriver

end Goby
