import Goby.IridiumReactions

/-! While `+SBDRB` is in front, a line adds to what has been read of the reply, and completes it or
not, and a tick discards what has been read. After that, ticks and lines of a single character do
nothing to the messages received. -/

namespace Goby.IridiumFsm

open IridiumCommand

variable {env : MobileEnv} {now : ℚ} {s : IridiumFsm} {c : IridiumCommand} {e : IridiumEvent}
  {line : Bytes} {msg : DriverTransmission}

def DecodesTo (env : MobileEnv) (data : Bytes) (msg : DriverTransmission) : Prop :=
  ∃ bytes, parseRudicsPacket env.crc data = .ok bytes ∧ parseIridiumModemMessage env.codec bytes = .ok msg

theorem parsePacket_run {data : Bytes} (h : DecodesTo env data msg) :
    parsePacket env data s = .ok msg s := by
  obtain ⟨bytes, hbytes, hmsg⟩ := h
  simp only [parsePacket, hbytes, hmsg, run_pure]

/-- `+SBDRB` is in front, and the machine is at rest. -/
structure Awaits (c : IridiumCommand) (s : IridiumFsm) : Prop where
  command : s.command = some c
  front : c.front? = some sbdRead
  sbd : c.sbd = .receive
  posted : s.posted = []

theorem Awaits.react_line (h : Awaits c s) (line : Bytes) :
    react env now (.rxSerial line) s = handleSbdRx env line c s := by
  simp only [react, run_bind, run_get, h.command, h.front, if_true]

theorem handleSbdRx_run (hline : ¬(c.sbdRxBuffer = [] ∧ line = [])) :
    handleSbdRx env line c s =
      (match announced (accumulate c.sbdRxBuffer line) with
        | none => pure ()
        | some data => do
            let msg ← parsePacket env data
            modify (sbdReceived msg) : FsmM Unit)
        (s.setCommand { c with sbdRxBuffer := accumulate c.sbdRxBuffer line }) := by
  rw [handleSbdRx, if_neg hline]
  rfl

theorem Awaits.line_more (h : Awaits c s) (hline : ¬(c.sbdRxBuffer = [] ∧ line = []))
    (hnone : announced (accumulate c.sbdRxBuffer line) = none) :
    processEvent env now (.rxSerial line) s =
      .ok () (s.setCommand { c with sbdRxBuffer := accumulate c.sbdRxBuffer line }) := by
  rw [processEvent, run_bind, h.react_line, handleSbdRx_run hline, hnone]
  exact drain_nil (s := s.setCommand _) h.posted 9

def completed (c : IridiumCommand) (line : Bytes) (msg : DriverTransmission) (s : IridiumFsm) : IridiumFsm :=
  { s with
    received := circularPush 10 s.received msg
    command := some { c with
      sbd := .ready
      sbdRxBuffer := accumulate c.sbdRxBuffer line
      atOut := circularPush 100 c.atOut.tail { command := [] } } }

theorem Awaits.line_complete (h : Awaits c s) {line data : Bytes}
    (hline : ¬(c.sbdRxBuffer = [] ∧ line = []))
    (hdata : announced (accumulate c.sbdRxBuffer line) = some data) (hmsg : DecodesTo env data msg) :
    processEvent env now (.rxSerial line) s = .ok () (completed c line msg s) := by
  rw [processEvent, run_bind, h.react_line, handleSbdRx_run hline, hdata]
  simp only [run_bind, parsePacket_run hmsg, run_modify]
  have hposted : (sbdReceived msg (s.setCommand { c with
      sbdRxBuffer := accumulate c.sbdRxBuffer line })).posted = [.sbdReceiveComplete] := by
    simp only [sbdReceived, onCommand, setCommand, post, h.posted, List.nil_append]
  rw [drain_cons hposted]
  simp only [run_bind, react, run_get, calmReact, run_set, onCommand, sbdReceived, setCommand, post,
    sbdReact, pushAtCommand, h.sbd, setSbd, enterSbd]
  rw [drain_nil]
  · simp only [completed, h.posted, reduceCtorEq, false_and, if_false]
  · rfl

/-- A tick that does not send the command again discards what has been read. -/
theorem Awaits.tick (h : Awaits c s) {sent : AtSentence} (hsent : c.atOut.head? = some sent)
    (hnow : now ≤ sent.lastSendTime + 2) :
    processEvent env now .txSerial s = .ok () (s.setCommand { c with sbdRxBuffer := [] }) := by
  obtain ⟨rest, hout⟩ : ∃ rest, c.atOut = sent :: rest := List.head?_eq_some_iff.mp hsent
  have hcommand : sent.command = sbdRead := by
    have hfront := h.front
    rw [front?, hsent] at hfront
    exact Option.some.inj hfront
  have htimeout : timeout sbdRead = 2 := by decide +kernel
  have hwait : ¬sent.lastSendTime + timeout sbdRead < now := by
    rw [htimeout]
    exact not_lt.mpr hnow
  have hreact : react env now .txSerial s = .ok () (s.setCommand { c with sbdRxBuffer := [] }) := by
    simp only [react, run_bind, run_get, run_set, calmReact, h.command, commandTx, hout, hcommand,
      if_true, if_neg hwait]
  rw [processEvent, run_bind, hreact]
  exact drain_nil (s := s.setCommand _) h.posted 9

/-- No message is asked for, and no short burst is under way. -/
structure Quiet (received : List DriverTransmission) (s : IridiumFsm) : Prop where
  command : ∃ c, s.command = some c ∧ c.sbd = .ready ∧ ∀ a ∈ c.atOut, a.command ≠ sbdRead
  received : s.received = received

/-- Ticks and lines of a single character, and what follows from them. -/
def Minor : IridiumEvent → Prop
  | .rxSerial line => line.length ≤ 1
  | .ack response => ∃ b ∈ ([0x30, 0x31, 0x32, 0x33] : Bytes), response = [b]
  | .txSerial => True
  | .reset => True
  | .configured => True
  | .disconnect => True
  | .sbdSendBufferCleared => True
  | .sbdWriteComplete => True
  | _ => False

/-- A quiet machine stays quiet, having posted minor events. -/
structure StaysQuiet (received : List DriverTransmission) (s s' : IridiumFsm) : Prop where
  quiet : Quiet received s'
  posted : ∃ es, s'.posted = s.posted ++ es ∧ ∀ e ∈ es, Minor e

section Quiet

variable {received : List DriverTransmission}

theorem StaysQuiet.none {s' : IridiumFsm} (h : Quiet received s') (hposted : s'.posted = s.posted) :
    StaysQuiet received s s' := ⟨h, [], by rw [hposted, List.append_nil], by simp⟩

theorem StaysQuiet.single {s' : IridiumFsm} (h : Quiet received s')
    (hposted : s'.posted = s.posted ++ [e]) (he : Minor e) : StaysQuiet received s s' :=
  ⟨h, [e], hposted, by simpa⟩

theorem Quiet.commandTx (h : Quiet received s) (now : ℚ) (hsbd : c.sbd = .ready)
    (hout : ∀ a ∈ c.atOut, a.command ≠ sbdRead) : StaysQuiet received s (commandTx now c s) := by
  unfold IridiumFsm.commandTx
  split
  · exact .none h rfl
  next front rest heq =>
    rw [heq] at hout
    obtain ⟨hfront, hrest⟩ := List.forall_mem_cons.mp hout
    simp only [if_neg hfront]
    split
    · split
      · refine .single (e := .reset) ⟨⟨_, rfl, hsbd, ?_⟩, h.received⟩ rfl trivial
        exact List.forall_mem_cons.mpr ⟨hfront, hrest⟩
      · exact .none ⟨⟨_, rfl, hsbd, List.forall_mem_cons.mpr ⟨hfront, hrest⟩⟩, h.received⟩ rfl
    · exact .none ⟨⟨_, rfl, hsbd, heq ▸ hout⟩, h.received⟩ rfl

theorem foldl_pushAtCommand (cmds : List Bytes) (c : IridiumCommand) :
    (cmds.foldl pushAtCommand c).sbd = c.sbd ∧
      ∀ a ∈ (cmds.foldl pushAtCommand c).atOut, a ∈ c.atOut ∨ a.command ∈ cmds := by
  induction cmds generalizing c with
  | nil => exact ⟨rfl, fun a ha => .inl ha⟩
  | cons cmd cmds ih =>
    obtain ⟨hsbd, hout⟩ := ih (c.pushAtCommand cmd)
    refine ⟨hsbd, fun a ha => ?_⟩
    rcases hout a ha with hmem | hmem
    · rcases mem_circularPush hmem with hmem | rfl
      · exact .inl hmem
      · exact .inr List.mem_cons_self
    · exact .inr (List.mem_cons_of_mem _ hmem)

theorem minor_resetEvents (s : IridiumFsm) : ∀ e ∈ s.resetEvents, Minor e := by
  intro e he
  unfold resetEvents exitEvents at he
  rcases List.mem_append.mp he with he | he
  · obtain ⟨c, -, he⟩ := List.mem_flatMap.mp he
    split at he
    · rw [List.mem_singleton.mp he]
      trivial
    · cases he
  · split at he
    · cases he
    · rw [List.mem_singleton.mp he]
      trivial

theorem Quiet.reset (h : Quiet received s) (hconfig : sbdRead ∉ env.config) :
    StaysQuiet received s (s.reset env) := by
  refine ⟨⟨⟨_, rfl, (foldl_pushAtCommand _ _).1, fun a ha => ?_⟩, ?_⟩, _, reset_posted env s,
    minor_resetEvents s⟩
  · rcases (foldl_pushAtCommand _ _).2 a ha with hmem | hmem
    · cases hmem
    · rintro heq
      rcases List.mem_cons.mp (heq ▸ hmem) with hnil | hmem
      · exact absurd hnil (by decide)
      · exact hconfig hmem
  · exact (reset_messages env s).1.trans h.received

theorem Quiet.commandAck (h : Quiet received s) (hsbd : c.sbd = .ready)
    (hout : ∀ a ∈ c.atOut, a.command ≠ sbdRead) {b : UInt8}
    (hb : b ∈ ([0x30, 0x31, 0x32, 0x33] : Bytes)) :
    StaysQuiet received s (commandAck [b] c s) := by
  simp only [List.mem_cons, List.not_mem_nil, or_false] at hb
  rcases hb with rfl | rfl | rfl | rfl
  · change StaysQuiet received s (if _ then _ else _)
    split
    · exact .single (e := .sbdSendBufferCleared) ⟨h.command, h.received⟩ rfl trivial
    · split
      next hnil =>
        refine .single (e := .sbdWriteComplete) ⟨⟨_, rfl, hsbd, ?_⟩, h.received⟩ rfl trivial
        intro a ha
        rcases mem_circularPush ha with ha | rfl
        · exact hout a ha
        · decide
      next => exact .none h rfl
  · exact .none h rfl
  · exact .none h rfl
  · exact .none h rfl

theorem lineEvents_short {text : Bytes} (h : text.length ≤ 1) :
    lineEvents text = [] ∨
      ∃ b ∈ ([0x30, 0x31, 0x32, 0x33] : Bytes), text = [b] ∧ lineEvents text = [.ack text] := by
  have hlong : ∀ t : Bytes, 1 < t.length → text ≠ t := by
    rintro t ht rfl
    omega
  have hprefix : ∀ t : Bytes, 1 < t.length → ¬t <+: text := by
    intro t ht hpre
    have := hpre.length_le
    omega
  unfold lineEvents
  simp only [hlong (ascii "OK") (by decide), hlong (ascii "RING") (by decide),
    hlong (ascii "NO CARRIER") (by decide), hprefix (ascii "CONNECT") (by decide),
    hlong (ascii "NO DIALTONE") (by decide), hlong (ascii "BUSY") (by decide),
    hlong (ascii "ERROR") (by decide), hlong (ascii "READY") (by decide),
    hprefix (ascii "+SBDI") (by decide), hlong (ascii "SBDRING") (by decide), if_false]
  split
  next hcode =>
    refine .inr ?_
    rcases hcode with rfl | rfl | rfl | rfl
    · exact ⟨0x30, by decide, by decide, rfl⟩
    · exact ⟨0x31, by decide, by decide, rfl⟩
    · exact ⟨0x32, by decide, by decide, rfl⟩
    · exact ⟨0x33, by decide, by decide, rfl⟩
  next => exact .inl rfl

theorem length_trimCopy_le (t : Bytes) : (trimCopy t).length ≤ t.length := by
  rw [trimCopy, List.length_reverse]
  refine (List.dropWhile_sublist _).length_le.trans ?_
  rw [List.length_reverse]
  exact (List.dropWhile_sublist _).length_le

theorem Quiet.commandRx (h : Quiet received s) (c : IridiumCommand)
    (hline : line.length ≤ 1) :
    StaysQuiet received s (commandRx line c s) := by
  have hshort : (trimCopy line).length ≤ 1 := (length_trimCopy_le line).trans hline
  have hecho : ¬isEcho c (trimCopy line) := by
    rintro ⟨cmd, -, -, heq⟩
    have hlen := congrArg List.length heq
    rw [List.length_append, show (ascii "AT").length = 2 by decide] at hlen
    omega
  rw [IridiumFsm.commandRx, if_neg hecho]
  rcases lineEvents_short hshort with hnil | ⟨b, hb, htext, hack⟩
  · rw [hnil]
    exact .none ⟨h.command, h.received⟩ (List.append_nil _)
  · rw [hack]
    exact .single (e := .ack _) ⟨h.command, h.received⟩ rfl ⟨b, hb, htext⟩

theorem Quiet.calmReact (h : Quiet received s) (now : ℚ) (hconfig : sbdRead ∉ env.config) (he : Minor e) :
    StaysQuiet received s (s.calmReact env now e) := by
  obtain ⟨c, hc, hsbd, hout⟩ := h.command
  cases e with
  | rxSerial line =>
    simp only [IridiumFsm.calmReact, hc]
    exact h.commandRx c he
  | txSerial =>
    simp only [IridiumFsm.calmReact, hc]
    exact h.commandTx now hsbd hout
  | ack response =>
    obtain ⟨b, hb, rfl⟩ := he
    simp only [IridiumFsm.calmReact, onCommand, hc]
    exact h.commandAck hsbd hout hb
  | reset => exact h.reset hconfig
  | configured => exact .none h rfl
  | disconnect =>
    simp only [IridiumFsm.calmReact, leaveOnline, hc]
    exact .none h rfl
  | sbdSendBufferCleared =>
    simp only [IridiumFsm.calmReact, onCommand, hc, sbdReact, hsbd]
    exact .none h rfl
  | sbdWriteComplete =>
    simp only [IridiumFsm.calmReact, onCommand, hc, sbdReact, hsbd]
    exact .none h rfl
  | _ => exact he.elim

theorem Quiet.react (h : Quiet received s) (he : Minor e) :
    react env now e s = .ok () (s.calmReact env now e) := by
  obtain ⟨c, hc, -, hout⟩ := h.command
  have hfront : c.front? ≠ some sbdRead := by
    intro hfront
    obtain ⟨a, ha, hcommand⟩ := Option.map_eq_some_iff.mp hfront
    exact hout a (List.mem_of_mem_head? ha) hcommand
  cases e with
  | rxSerial line => simp only [IridiumFsm.react, run_bind, run_get, hc, if_neg hfront, run_set]
  | rxOnCallSerial line => exact he.elim
  | txOnCallSerial => exact he.elim
  | _ => rfl

theorem Quiet.processEvent (h : Quiet received s) (hposted : s.posted = [])
    (hconfig : sbdRead ∉ env.config) (now : ℚ) (he : Minor e) :
    ∃ s', processEvent env now e s = .ok () s' ∧ Quiet received s' ∧ s'.posted = [] := by
  rw [processEvent_eq_drain hposted]
  refine drain_run (fun _ _ ht => ⟨ht.command, ht.received⟩) ?_ (K := Minor) ⟨h.command, h.received⟩
    (List.forall_mem_singleton.mpr he) (weight_bounds e).2
  intro e t he ht
  obtain ⟨hquiet, es, hes, hminor⟩ := ht.calmReact now hconfig he
  obtain ⟨c, hc, -⟩ := ht.command
  have hcommand : t.command ≠ none := by simp [hc]
  obtain ⟨es', hes', hlight⟩ := (calmReact_posts env now (.inr hcommand)).posted
  obtain rfl := List.append_cancel_left (hes'.symm.trans hes)
  exact ⟨_, ht.react he, hquiet, _, hes, hlight.total_lt (weight_bounds e).1, hminor⟩

end Quiet

end Goby.IridiumFsm
