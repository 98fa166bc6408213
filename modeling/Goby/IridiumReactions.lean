import Goby.IridiumFsm

/-! What a reaction posts weighs less than the event it reacts to, so that no event keeps the machine
busy for ever. Messages are received from the lines of a reply and of a call only, nothing else adds
to what has been read of a reply, and no other reaction throws as long as the messages that wait to
be sent can be encoded. -/

namespace Goby

namespace IridiumEvent

def weight : IridiumEvent → ℕ
  | .rxSerial _ => 10
  | .txSerial => 4
  | .rxOnCallSerial _ => 3
  | .txOnCallSerial => 1
  | .ack _ => 6
  | .atEmpty => 2
  | .reset => 3
  | .dial => 1
  | .ring => 1
  | .online => 2
  | .hangup => 1
  | .connect => 3
  | .noCarrier => 2
  | .disconnect => 1
  | .sendBye => 1
  | .configured => 1
  | .sbdBeginData _ _ => 1
  | .sbdSendBufferCleared => 2
  | .sbdWriteReady => 1
  | .sbdWriteComplete => 1
  | .sbdTransmitComplete _ => 1
  | .sbdReceiveComplete => 1

def total (es : List IridiumEvent) : ℕ := (es.map weight).sum

def Internal : IridiumEvent → Prop
  | .rxSerial _ => False
  | .rxOnCallSerial _ => False
  | _ => True

end IridiumEvent

namespace IridiumFsm

open IridiumCommand IridiumEvent

variable {env : MobileEnv} {now : ℚ} {s s' : IridiumFsm} {n : ℕ} {e : IridiumEvent}
  {es : List IridiumEvent}

structure Light (n : ℕ) (es : List IridiumEvent) : Prop where
  total_le : total es ≤ n
  internal : ∀ e ∈ es, e.Internal

theorem Light.nil : Light n [] := ⟨Nat.zero_le n, fun _ h => nomatch h⟩

theorem Light.single (hn : e.weight ≤ n) (hi : e.Internal) : Light n [e] := by
  refine ⟨?_, fun e' he' => ?_⟩
  · rwa [total, List.map_singleton, List.sum_singleton]
  · rwa [List.mem_singleton.mp he']

theorem Light.append {m : ℕ} {es es' : List IridiumEvent} (h : Light m es) (h' : Light n es') :
    Light (m + n) (es ++ es') := by
  refine ⟨?_, fun e he => (List.mem_append.mp he).elim (h.internal e) (h'.internal e)⟩
  rw [total, List.map_append, List.sum_append]
  exact Nat.add_le_add h.total_le h'.total_le

theorem Light.ite {p : Prop} [Decidable p] {es es' : List IridiumEvent} (h : Light n es)
    (h' : Light n es') : Light n (if p then es else es') := by
  split
  · exact h
  · exact h'

theorem Light.mono {m : ℕ} (h : Light m es) (hmn : m ≤ n) : Light n es :=
  ⟨h.total_le.trans hmn, h.internal⟩

theorem Light.total_lt (h : Light (n - 1) es) (hn : 0 < n) : total es < n :=
  Nat.lt_of_le_sub_one hn h.total_le

theorem enterLeaf_buffer (leaf : LineLeaf) (c : IridiumCommand) :
    (c.enterLeaf env leaf).sbdRxBuffer = c.sbdRxBuffer := by
  unfold enterLeaf
  generalize leafCommands env leaf = cmds
  suffices h : ∀ c' : IridiumCommand, (cmds.foldl pushAtCommand c').sbdRxBuffer = c'.sbdRxBuffer from h _
  intro c'
  induction cmds generalizing c' with
  | nil => rfl
  | cons cmd cmds ih => exact ih _

theorem enterSbd_buffer (sbd : SbdLeaf) (c : IridiumCommand) :
    (c.enterSbd sbd).sbdRxBuffer = c.sbdRxBuffer ∨ (c.enterSbd sbd).sbdRxBuffer = [] := by
  cases sbd with
  | ready => exact .inl rfl
  | clearBuffers => exact .inr rfl
  | write =>
    unfold enterSbd
    dsimp only
    split <;> exact .inl rfl
  | transmit => exact .inl rfl
  | receive => exact .inl rfl

/-- What has been read of the reply to `+SBDRB`. -/
def replyBuffer (s : IridiumFsm) : Bytes := s.command.elim [] sbdRxBuffer

/-- Light events are posted, and what has been read of a reply is kept or discarded. -/
structure Posts (n : ℕ) (s s' : IridiumFsm) : Prop where
  posted : ∃ es, s'.posted = s.posted ++ es ∧ Light n es
  received : s'.received = s.received
  dataOut : s'.dataOut = s.dataOut
  buffer : s'.replyBuffer = s.replyBuffer ∨ s'.replyBuffer = []

theorem Posts.none (hposted : s'.posted = s.posted) (hr : s'.received = s.received)
    (hd : s'.dataOut = s.dataOut) (hb : s'.replyBuffer = s.replyBuffer ∨ s'.replyBuffer = []) :
    Posts n s s' :=
  ⟨⟨[], by rw [hposted, List.append_nil], .nil⟩, hr, hd, hb⟩

theorem Posts.refl (s : IridiumFsm) : Posts n s s := .none rfl rfl rfl (.inl rfl)

theorem exitEvents_light (c : IridiumCommand) : Light 1 c.exitEvents := .ite (.single le_rfl trivial) .nil

theorem leaveCall_posts (hn : 1 ≤ n) : Posts n s s.leaveCall := by
  unfold leaveCall
  split
  · exact ⟨⟨[.disconnect], rfl, .single hn trivial⟩, rfl, rfl, .inl rfl⟩
  · exact .refl s

theorem onCommand_posts {f : IridiumCommand → IridiumFsm → IridiumFsm}
    (h : ∀ c, s.command = some c → Posts n s (f c s)) : Posts n s (s.onCommand f) := by
  unfold onCommand
  split
  next c hc => exact h c hc
  next => exact .refl s

theorem lineEvents_light (text : Bytes) : Light 9 (lineEvents text) := by
  have hack : Light 6 [.ack text] := .single le_rfl trivial
  have hcarrier : Light 2 [.noCarrier] := .single le_rfl trivial
  have hconnect : Light 3 [.connect] := .single le_rfl trivial
  have hsbdi : Light 1 [.sbdTransmitComplete text] := .single le_rfl trivial
  have hlost : Light 9 [.ack text, .noCarrier] := (hack.append hcarrier).mono (by decide)
  have hfound : Light 9 [.ack text, .connect] := hack.append hconnect
  unfold lineEvents
  refine .ite (hack.mono (by decide)) (.ite (.single (by decide) trivial) (.ite hlost (.ite hfound ?_)))
  refine .ite hlost (.ite hlost (.ite (.single (by decide) trivial) (.ite (hack.mono (by decide)) ?_)))
  refine .ite (hack.mono (by decide)) (.ite (hsbdi.mono (by decide)) ?_)
  exact .ite (.single (by decide) trivial) .nil

section Command

variable {c : IridiumCommand} (hc : s.command = some c)
include hc

theorem replyBuffer_eq : c.sbdRxBuffer = s.replyBuffer := by
  rw [replyBuffer, hc]
  rfl

theorem setLeaf_posts (leaf : LineLeaf) (hn : 1 ≤ n) : Posts n s (s.setLeaf env leaf c) :=
  ⟨⟨c.exitEvents, rfl, (exitEvents_light c).mono hn⟩, rfl, rfl,
    .inl ((enterLeaf_buffer leaf c).trans (replyBuffer_eq hc))⟩

theorem setLeaf_posts_none (leaf : LineLeaf) (h : c.leaf ≠ .configure) :
    Posts n s (s.setLeaf env leaf c) := by
  refine .none ?_ rfl rfl (.inl ((enterLeaf_buffer leaf c).trans (replyBuffer_eq hc)))
  simp only [setLeaf, exitEvents, if_neg h, postAll, setCommand, List.append_nil]

theorem setSbd_posts (c' : IridiumCommand) (hsame : c'.sbdRxBuffer = c.sbdRxBuffer) {sbd : SbdLeaf}
    (hn : sbd = .write → 1 ≤ n) : Posts n s (s.setSbd sbd c') := by
  have hbuffer := enterSbd_buffer sbd c'
  rw [hsame, replyBuffer_eq hc] at hbuffer
  unfold setSbd
  dsimp only
  split
  next h => exact ⟨⟨[.sbdWriteComplete], rfl, .single (hn h.1) trivial⟩, rfl, rfl, hbuffer⟩
  next => exact .none rfl rfl rfl hbuffer

theorem commandRx_posts (line : Bytes) : Posts 9 s (commandRx line c s) := by
  have hsame := replyBuffer_eq hc
  unfold commandRx
  split
  · exact .none rfl rfl rfl (.inl hsame)
  · exact ⟨⟨_, rfl, lineEvents_light _⟩, rfl, rfl, .inl rfl⟩

theorem commandTx_posts : Posts 3 s (commandTx now c s) := by
  unfold commandTx
  split
  · exact .refl s
  next front rest _ =>
    have hbuffer : (if front.command = sbdRead then { c with sbdRxBuffer := [] } else c).sbdRxBuffer =
        s.replyBuffer ∨
        (if front.command = sbdRead then { c with sbdRxBuffer := [] } else c).sbdRxBuffer = [] := by
      split
      · exact .inr rfl
      · exact .inl (replyBuffer_eq hc)
    dsimp only
    split
    · split
      · exact ⟨⟨[.reset], rfl, .single le_rfl trivial⟩, rfl, rfl, hbuffer⟩
      · exact .none rfl rfl rfl hbuffer
    · exact .none rfl rfl rfl hbuffer

theorem commandAnswered_posts (response : Bytes) : Posts 5 s (commandAnswered response c s) := by
  have hsame := replyBuffer_eq hc
  unfold commandAnswered
  split
  · exact .refl s
  · have hcarrier : Light 2 [.noCarrier] := .single le_rfl trivial
    have hready : Light 1 [.sbdWriteReady] := .single le_rfl trivial
    have hempty : Light 2 [.atEmpty] := .single le_rfl trivial
    refine ⟨⟨_, rfl, Light.append (m := 3) (n := 2) ?_ (hempty.ite .nil)⟩, rfl, rfl, .inl hsame⟩
    exact Light.append (m := 2) (n := 1) (hcarrier.ite .nil) (hready.ite .nil)

theorem commandAck_posts (response : Bytes) : Posts 5 s (commandAck response c s) := by
  have hsame := replyBuffer_eq hc
  unfold commandAck
  split
  · split
    · exact ⟨⟨[.sbdSendBufferCleared], rfl, .single (by decide) trivial⟩, rfl, rfl, .inl rfl⟩
    · split
      · exact ⟨⟨[.sbdWriteComplete], rfl, .single (by decide) trivial⟩, rfl, rfl, .inl hsame⟩
      · exact .refl s
  · exact .refl s
  · exact .refl s
  · exact .refl s
  · exact commandAnswered_posts hc response

theorem atEmpty_posts : Posts 1 s (atEmpty env c s) := by
  unfold atEmpty
  split
  · exact setLeaf_posts hc _ le_rfl
  · exact setLeaf_posts hc _ le_rfl
  · exact setLeaf_posts hc _ le_rfl
  · exact .refl s
  · exact .refl s
  · exact .refl s

theorem sbdReact_posts (e : IridiumEvent) : Posts (e.weight - 1) s (sbdReact e c s) := by
  have houtcome : ∀ sbdi, sbdiOutcome sbdi ≠ .write := by
    intro sbdi
    unfold sbdiOutcome
    split
    · split <;> exact SbdLeaf.noConfusion
    · exact SbdLeaf.noConfusion
  unfold sbdReact
  split
  · exact setSbd_posts hc (c.setData _ _) rfl SbdLeaf.noConfusion
  · exact setSbd_posts hc c rfl fun _ => le_rfl
  · exact .none rfl rfl rfl (.inl rfl)
  · exact setSbd_posts hc c rfl SbdLeaf.noConfusion
  · exact setSbd_posts hc { c with data := [] } rfl fun h => absurd h (houtcome _)
  · exact setSbd_posts hc c rfl SbdLeaf.noConfusion
  · exact .refl s

theorem dial_posts : Posts n s (dial env c s) := by
  unfold dial
  split
  next h => exact setLeaf_posts_none hc _ (by simp [h.1])
  next => exact .refl s

theorem ring_posts : Posts n s (ring env c s) := by
  unfold ring
  split
  next h => exact setLeaf_posts_none hc _ (by simp [h])
  next => exact .refl s

end Command

def resetEvents (s : IridiumFsm) : List IridiumEvent :=
  s.command.toList.flatMap exitEvents ++ if s.onCall = none then [] else [.disconnect]

theorem reset_posted (env : MobileEnv) (s : IridiumFsm) :
    (s.reset env).posted = s.posted ++ s.resetEvents := by
  cases hcall : s.onCall <;> simp [reset, resetEvents, leaveCall, postAll, post, setCommand, hcall]

theorem reset_messages (env : MobileEnv) (s : IridiumFsm) :
    (s.reset env).received = s.received ∧ (s.reset env).dataOut = s.dataOut := by
  cases hcall : s.onCall <;> simp [reset, leaveCall, postAll, post, setCommand, hcall]

theorem reset_posts : Posts 2 s (s.reset env) := by
  have hexits : Light 1 (s.command.toList.flatMap exitEvents) := by
    cases s.command with
    | none => exact .nil
    | some c => simpa using exitEvents_light c
  have hcall : Light 1 (if s.onCall = none then [] else [.disconnect]) :=
    .ite .nil (.single le_rfl trivial)
  exact ⟨⟨_, reset_posted env s, hexits.append hcall⟩, (reset_messages env s).1, (reset_messages env s).2,
    .inr (enterLeaf_buffer _ _)⟩

theorem noCarrier_posts : Posts 1 s (s.noCarrier env) := by
  unfold noCarrier
  split
  · exact leaveCall_posts le_rfl
  next c hc =>
    split
    · split <;> exact setLeaf_posts hc _ le_rfl
    · exact setLeaf_posts hc _ le_rfl
    · exact leaveCall_posts le_rfl
    · exact leaveCall_posts le_rfl
    · exact leaveCall_posts le_rfl
    · exact leaveCall_posts le_rfl

theorem leaveOnline_posts (leaf : LineLeaf) : Posts n s (s.leaveOnline env leaf) := by
  unfold leaveOnline
  split
  · exact .refl s
  · exact .none rfl rfl rfl (.inr (enterLeaf_buffer leaf _))

theorem connect_posts : Posts 2 s (s.connect now) := by
  unfold connect
  split
  · exact .refl s
  · exact ⟨⟨[.online], rfl, .single le_rfl trivial⟩, rfl, rfl, .inl rfl⟩

theorem sendBye_posts : Posts n s s.sendBye := by
  unfold sendBye
  split
  · exact .none rfl rfl rfl (.inl rfl)
  · exact .refl s

/-- A reaction that does not throw posts events that weigh less than the one it reacts to, and no
lines unless the modem is online. -/
theorem calmReact_posts (env : MobileEnv) (now : ℚ) (h : e.Internal ∨ s.command ≠ none) :
    Posts (e.weight - 1) s (s.calmReact env now e) := by
  cases e with
  | rxSerial line =>
    have hcommand : s.command ≠ none := h.resolve_left fun h => h
    obtain ⟨c, hc⟩ := Option.ne_none_iff_exists'.mp hcommand
    simp only [calmReact, hc]
    exact commandRx_posts hc line
  | txSerial =>
    unfold calmReact
    cases hc : s.command with
    | none => exact ⟨⟨[.txOnCallSerial], rfl, .single (by decide) trivial⟩, rfl, rfl, .inl rfl⟩
    | some c => exact commandTx_posts hc
  | rxOnCallSerial line => exact .refl s
  | txOnCallSerial => exact .refl s
  | ack response => exact onCommand_posts fun c hc => commandAck_posts hc response
  | atEmpty => exact onCommand_posts fun c hc => atEmpty_posts hc
  | reset => exact reset_posts
  | dial => exact onCommand_posts fun c hc => dial_posts hc
  | ring => exact onCommand_posts fun c hc => ring_posts hc
  | online =>
    refine onCommand_posts fun c _ => ?_
    exact ⟨⟨c.exitEvents, rfl, exitEvents_light c⟩, rfl, rfl, .inr rfl⟩
  | hangup => exact leaveOnline_posts _
  | connect => exact connect_posts
  | noCarrier => exact noCarrier_posts
  | disconnect => exact leaveOnline_posts _
  | sendBye => exact sendBye_posts
  | configured => exact .refl s
  | sbdBeginData data ring => exact onCommand_posts fun c hc => sbdReact_posts hc _
  | sbdSendBufferCleared => exact onCommand_posts fun c hc => sbdReact_posts hc _
  | sbdWriteReady => exact onCommand_posts fun c hc => sbdReact_posts hc _
  | sbdWriteComplete => exact onCommand_posts fun c hc => sbdReact_posts hc _
  | sbdTransmitComplete sbdi => exact onCommand_posts fun c hc => sbdReact_posts hc _
  | sbdReceiveComplete => exact onCommand_posts fun c hc => sbdReact_posts hc _

def Encodes (env : MobileEnv) (m : DriverTransmission) : Prop :=
  ∃ bytes, serializeIridiumModemMessage env.codec m = .ok bytes

/-- The messages that wait can be sent, and so can acknowledgments for those received. -/
structure Sound (env : MobileEnv) (s : IridiumFsm) : Prop where
  dataOut : ∀ m ∈ s.dataOut, Encodes env m
  received : ∀ m ∈ s.received, ∀ ack, receiveAck env.modemId m = some ack → Encodes env ack

theorem Sound.of_posts (h : Sound env s) (hp : Posts n s s') : Sound env s' :=
  ⟨hp.dataOut ▸ h.dataOut, hp.received ▸ h.received⟩

/-- A reaction that returns, having posted light events. -/
structure Reacts (n : ℕ) (m : FsmM Unit) (s s' : IridiumFsm) : Prop where
  run : m s = .ok () s'
  posted : ∃ es, s'.posted = s.posted ++ es ∧ Light n es

theorem Reacts.none {m : FsmM Unit} (hrun : m s = .ok () s') (hposted : s'.posted = s.posted) :
    Reacts n m s s' := ⟨hrun, [], by rw [hposted, List.append_nil], .nil⟩

theorem onCallTx_reacts (now : ℚ) (hs : Sound env s) (call : OnCall) :
    ∃ s', Reacts 0 (onCallTx env now call) s s' ∧ Sound env s' ∧ s'.received = s.received := by
  cases hd : s.dataOut with
  | nil => exact ⟨s, .none (by simp [onCallTx, hd]) rfl, hs, rfl⟩
  | cons msg rest =>
    by_cases hdue : now > call.lastTxTime + call.lastBytesSent / (env.targetBitRate / 8)
    · obtain ⟨bytes, hbytes⟩ := hs.dataOut msg (by simp [hd])
      have hrun : onCallTx env now call s = .ok () { s with
          serialTx := circularPush 10 s.serialTx (serializeRudicsPacket env.crc bytes)
          dataOut := rest
          onCall := some (call.sent now (serializeRudicsPacket env.crc bytes).length) } := by
        simp only [onCallTx, run_bind, run_get, hd, if_pos hdue, hbytes, run_set]
      refine ⟨_, .none hrun rfl, ⟨fun m hm => hs.dataOut m ?_, hs.received⟩, rfl⟩
      rw [hd]
      exact List.mem_cons_of_mem _ hm
    · exact ⟨s, .none (by simp only [onCallTx, run_bind, run_get, hd, if_neg hdue, run_pure]) rfl, hs, rfl⟩

theorem react_calm (h : react env now e s = .ok () (s.calmReact env now e))
    (hs : Sound env s) (hc : e.Internal ∨ s.command ≠ none) :
    ∃ s', Reacts (e.weight - 1) (react env now e) s s' ∧ Sound env s' ∧ s'.received = s.received := by
  have hposts := calmReact_posts env now hc
  exact ⟨_, ⟨h, hposts.posted⟩, hs.of_posts hposts, hposts.received⟩

theorem react_internal (now : ℚ) (hs : Sound env s) (he : e.Internal) :
    ∃ s', Reacts (e.weight - 1) (react env now e) s s' ∧ Sound env s' ∧ s'.received = s.received := by
  cases e with
  | rxSerial line => exact he.elim
  | rxOnCallSerial line => exact he.elim
  | txOnCallSerial =>
    cases hcall : s.onCall with
    | none => exact react_calm (by simp [react, hcall]) hs (.inl he)
    | some call =>
      obtain ⟨s', ⟨hrun, hposted⟩, hs', hr⟩ := onCallTx_reacts now hs call
      exact ⟨s', ⟨by simpa [react, hcall] using hrun, hposted⟩, hs', hr⟩
  | _ => exact react_calm rfl hs (.inl he)

theorem drain_nil (h : s.posted = []) (fuel : ℕ) : drain env now fuel s = .ok () s := by
  cases fuel <;> simp [drain, h]

theorem drain_cons (h : s.posted = e :: es) (fuel : ℕ) :
    drain env now (fuel + 1) s =
      (react env now e >>= fun _ => drain env now fuel) { s with posted := es } := by
  simp only [drain, run_bind, run_get, h, run_set]

theorem processEvent_eq_drain (h : s.posted = []) :
    processEvent env now e s = drain env now 10 { s with posted := [e] } := by
  have hs : { s with posted := [] } = s := by rw [← h]
  refine Eq.trans ?_ (drain_cons rfl 9).symm
  exact congrArg (processEvent env now e) hs.symm

/-- The events posted are all processed if there is fuel for their weight. A property that holds
of the machine whatever has been posted, and is kept by the reactions to a kind of event that
post only such events, holds at the end. -/
theorem drain_run {P : IridiumFsm → Prop} {K : IridiumEvent → Prop}
    (hposted : ∀ s es, P s → P { s with posted := es })
    (hreact : ∀ e s, K e → P s → ∃ s', react env now e s = .ok () s' ∧ P s' ∧
      ∃ es, s'.posted = s.posted ++ es ∧ total es < e.weight ∧ ∀ e' ∈ es, K e')
    {fuel : ℕ} (hs : P s) (hk : ∀ e ∈ s.posted, K e) (hfuel : total s.posted ≤ fuel) :
    ∃ s', drain env now fuel s = .ok () s' ∧ P s' ∧ s'.posted = [] := by
  induction fuel generalizing s with
  | zero =>
    cases hes : s.posted with
    | nil => exact ⟨s, drain_nil hes 0, hs, hes⟩
    | cons e es =>
      obtain ⟨s', -, -, es', -, hlt, -⟩ := hreact e s (hk e (by simp [hes])) hs
      simp only [hes, total, List.map_cons, List.sum_cons] at hfuel
      omega
  | succ fuel ih =>
    cases hes : s.posted with
    | nil => exact ⟨s, drain_nil hes _, hs, hes⟩
    | cons e es =>
      obtain ⟨s', hrun, hs', es', hes', hlt, hk'⟩ :=
        hreact e { s with posted := es } (hk e (by simp [hes])) (hposted s es hs)
      have hrest : total s'.posted ≤ fuel := by
        simp only [hes, hes', total, List.map_cons, List.sum_cons, List.map_append,
          List.sum_append] at hfuel hlt ⊢
        omega
      have hkinds : ∀ e' ∈ s'.posted, K e' := by
        intro e' he'
        rw [hes'] at he'
        refine (List.mem_append.mp he').elim (fun h => hk e' ?_) (hk' e')
        rw [hes]
        exact List.mem_cons_of_mem _ h
      obtain ⟨t, hdrain, ht⟩ := ih hs' hkinds hrest
      refine ⟨t, ?_, ht⟩
      rw [drain_cons hes, run_bind, hrun]
      exact hdrain

theorem weight_bounds (e : IridiumEvent) : 0 < e.weight ∧ e.weight ≤ 10 := by cases e <;> simp [weight]

theorem drain_internal (now : ℚ) {fuel : ℕ} (hs : Sound env s) (h : Light fuel s.posted) :
    ∃ s', drain env now fuel s = .ok () s' ∧ Sound env s' ∧ s'.received = s.received ∧
      s'.posted = [] := by
  have hreact : ∀ e t, e.Internal → Sound env t ∧ t.received = s.received →
      ∃ t', react env now e t = .ok () t' ∧ (Sound env t' ∧ t'.received = s.received) ∧
        ∃ es, t'.posted = t.posted ++ es ∧ total es < e.weight ∧ ∀ e' ∈ es, e'.Internal := by
    intro e t he ht
    obtain ⟨t', ⟨hreact, es, hes, hlight⟩, ht', hr⟩ := react_internal now ht.1 he
    exact ⟨t', hreact, ⟨ht', hr.trans ht.2⟩, es, hes, hlight.total_lt (weight_bounds e).1, hlight.internal⟩
  have hforget : ∀ (t : IridiumFsm) es, Sound env t ∧ t.received = s.received →
      Sound env { t with posted := es } ∧ t.received = s.received :=
    fun _ _ ht => ⟨⟨ht.1.dataOut, ht.1.received⟩, ht.2⟩
  obtain ⟨s', hrun, ⟨hs', hr⟩, hposted⟩ := drain_run hforget hreact ⟨hs, rfl⟩ h.internal h.total_le
  exact ⟨s', hrun, hs', hr, hposted⟩

structure Idle (env : MobileEnv) (s : IridiumFsm) : Prop extends Sound env s where
  posted : s.posted = []

theorem drain_of_reacts {n : ℕ} {m : FsmM Unit} (hidle : s.posted = []) (h : Reacts n m s s')
    (hs' : Sound env s') :
    ∃ t, (m >>= fun _ => drain env now n) s = .ok () t ∧ Idle env t ∧ t.received = s'.received := by
  obtain ⟨hrun, es, hes, hlight⟩ := h
  rw [hidle, List.nil_append] at hes
  obtain ⟨t, hdrain, ht, hr, hnil⟩ := @drain_internal env s' now n hs' (hes ▸ hlight)
  rw [run_bind, hrun]
  exact ⟨t, hdrain, ⟨ht, hnil⟩, hr⟩

theorem processEvent_internal (now : ℚ) (hs : Idle env s) (he : e.Internal) :
    ∃ t, processEvent env now e s = .ok () t ∧ Idle env t ∧ t.received = s.received := by
  have hs' : Sound env { s with posted := [e] } := ⟨hs.dataOut, hs.received⟩
  obtain ⟨t, hrun, ht, hr, hnil⟩ := drain_internal now hs' (.single (weight_bounds e).2 he)
  rw [processEvent_eq_drain hs.posted]
  exact ⟨t, hrun, ⟨ht, hnil⟩, hr⟩

end IridiumFsm
end Goby
