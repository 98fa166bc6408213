import Goby.BenthosAddress
import Goby.CallRuns

/-! The calls of the driver, from its start on. Messages go to their own destinations as long as
those that wait are for the address that is dialed, and the modem answers no command before it
was given. -/

namespace Goby

namespace BenthosFsm

variable {ρ : Type} {env : BenthosEnv ρ} {m : BenthosFsm ρ} {atOut : List PendingCommand}
  {leaf : CommandLeaf} {msg : DriverTransmission} {e : BenthosEvent} {text : Bytes}

instance (m : BenthosFsm ρ) (address : Option ℤ) : Decidable (m.Matched address) :=
  inferInstanceAs (Decidable (∀ msg ∈ m.dataOut, address = some (benthosAddress msg.destD)))

/-- A message is given to the driver while it is ready and all messages that wait are for the
same address, or when its own address is dialed or was dialed for the call that lasts. In other
states it only waits. -/
def SendOrderly (m : BenthosFsm ρ) (msg : DriverTransmission) : Prop :=
  match m.state with
  | .command .ready _ => m.Matched (some (benthosAddress msg.destD))
  | .command .dial atOut =>
    lastAddress (m.log ++ pendingLines atOut) = some (benthosAddress msg.destD)
  | .command _ _ => True
  | .online _ => lastAddress m.log = some (benthosAddress msg.destD)
  | .receiveData _ =>
    match m.history with
    | some (.online _) => lastAddress m.log = some (benthosAddress msg.destD)
    | some (.command .dial) => some benthosBroadcastId = some (benthosAddress msg.destD)
    | _ => True
  | .terminated => True

def withData (m : BenthosFsm ρ) (msg : DriverTransmission) : BenthosFsm ρ :=
  { m with dataOut := circularPush 5 m.dataOut msg }

theorem Matched.withData {address : Option ℤ} (h : m.Matched address)
    (hmsg : address = some (benthosAddress msg.destD)) : (m.withData msg).Matched address := by
  intro msg' hmem
  rcases List.mem_append.mp (List.mem_of_mem_drop hmem) with hmem | hmem
  · exact h msg' hmem
  · rw [List.mem_singleton.mp hmem]
    exact hmsg

theorem Sound.withData (h : Sound m) (hmsg : m.SendOrderly msg) : Sound (m.withData msg) := by
  refine ⟨h.own, ?_⟩
  have haddr := h.addressed
  have hstate : (m.withData msg).state = m.state := rfl
  unfold SendOrderly at hmsg
  unfold Addressed at haddr ⊢
  rw [hstate]
  cases hs : m.state with
  | command leaf atOut =>
    rw [hs] at haddr hmsg
    refine ⟨haddr.1, ?_⟩
    rintro rfl
    exact (haddr.2 rfl).withData hmsg
  | online leaf =>
    rw [hs] at haddr hmsg
    exact Matched.withData haddr hmsg
  | receiveData r =>
    have hhistory : (m.withData msg).history = m.history := rfl
    rw [hs] at haddr hmsg
    unfold Restorable at haddr ⊢
    dsimp only at haddr hmsg ⊢
    rw [hhistory]
    split
    next leaf hhist =>
      rw [hhist] at haddr hmsg
      exact Matched.withData haddr hmsg
    next hhist =>
      rw [hhist] at haddr hmsg
      exact Matched.withData haddr hmsg
    next => trivial
  | terminated => trivial

theorem Sound.send (h : Sound m) (hposted : m.posted = [])
    (hmsg : m.SendOrderly msg) : Sound (m.send env msg) := by
  refine (h.withData hmsg).processEvent hposted ?_ (by simp)
  intro atOut hs
  have hready : m.state = .command .ready atOut := hs
  rw [SendOrderly, hready] at hmsg
  exact hmsg.withData rfl

def IsResponse (text : Bytes) : Prop :=
  ¬ascii "DATA" <+: text ∧ (ascii "user:" <+: text → ascii "Lowpower" <:+: text)

instance (text : Bytes) : Decidable (IsResponse text) := inferInstanceAs (Decidable (_ ∧ _))

/-- No data comes while a call to a single modem is dialed, no response is taken for a command
that was not yet written, and a call begins when nothing waits or in answer to the last command
of the dialing. -/
def LineOrderly (m : BenthosFsm ρ) (text : Bytes) : Prop :=
  match m.state with
  | .command .range _ => True
  | .command leaf atOut =>
    (ascii "DATA" <+: text → leaf = .dial → m.Matched (some benthosBroadcastId)) ∧
    (IsResponse text → ∀ front ∈ atOut.head?, (acknowledge front.command.text text).1 →
      0 < front.tries) ∧
    (ascii "CONNECT" <+: text → m.dataOut = [] ∨
      (leaf = .dial ∧ (atOut.map fun c => c.command.text) = [ascii "ATO"]) ∨
      (atOut.head?.map fun c => c.command.text) = some escapeText)
  | _ => True

section

variable (h : Sound m) (hposted : m.posted = [])
include h hposted

theorem Sound.drain_post (he : m.Allowed e) (hline : ∀ line, e ≠ .rxSerial line) (fuel : ℕ) :
    Sound (drain env (fuel + 1) (m.post e)) := by
  have hpost : (m.post e).posted = [e] := by rw [posted_post, hposted, List.nil_append]
  rw [drain_cons fuel hpost]
  exact (h.posted []).react_drain (he.posted []) hline (by simp) fuel

theorem Sound.drain_post_post {e e' : BenthosEvent}
    (he : m.Allowed e) (he' : (BenthosFsm.react env e { m with posted := [e'] }).Allowed e')
    (hline : ∀ line, e ≠ .rxSerial line) (hline' : ∀ line, e' ≠ .rxSerial line) (fuel : ℕ) :
    Sound (drain env (fuel + 2) ((m.post e).post e')) := by
  have hpost : ((m.post e).post e').posted = [e, e'] := by simp [hposted]
  obtain ⟨new, hnew, -, hkind⟩ := react_posts env { m with posted := [e'] } hline
  have hsound : Sound (BenthosFsm.react env e { m with posted := [e'] }) :=
    (h.posted [e']).react (he.posted [e'])
  rw [drain_cons (fuel + 1) hpost]
  change Sound (drain env (fuel + 1) (BenthosFsm.react env e { m with posted := [e'] }))
  rw [drain_cons fuel hnew]
  exact (hsound.posted new).react_drain (he'.posted new) hline' hkind fuel

/-- The text of a line is given to the states as the events that it posts. -/
theorem Sound.activeLine {line : Bytes}
    (hreceive : ascii "DATA" <+: trimCopy line → m.Allowed (.receive (trimCopy line)))
    (hack : IsResponse (trimCopy line) → m.Allowed (.ack (trimCopy line)))
    (hprompt : IsResponse (trimCopy line) →
      (BenthosFsm.react env .shellPrompt { m with posted := [.ack (trimCopy line)] }).Allowed
        (.ack (trimCopy line)))
    (hconnect : ascii "CONNECT" <+: trimCopy line →
      (BenthosFsm.react env (.ack (trimCopy line)) { m with posted := [.connect] }).Allowed .connect) :
    Sound (drain env 5 (m.activeLine line)) := by
  have hshell : m.Allowed .shellPrompt := trivial
  unfold BenthosFsm.activeLine
  dsimp only
  generalize trimCopy line = text at *
  split_ifs with hdata huser hlow hconn
  · exact h.drain_post hposted (hreceive hdata) (by simp) 4
  · exact h.drain_post_post hposted hshell (hprompt ⟨hdata, fun _ => hlow⟩) (by simp) (by simp) 3
  · exact h.drain_post hposted hshell (by simp) 4
  · exact h.drain_post_post hposted (hack ⟨hdata, fun hu => absurd hu huser⟩) (hconnect hconn)
      (by simp) (by simp) 3
  · exact h.drain_post hposted (hack ⟨hdata, fun hu => absurd hu huser⟩) (by simp) 4

end

theorem allowed_of_online {leaf : OnlineLeaf} (hs : m.state = .online leaf)
    (he : e ≠ .txSerial) : m.Allowed e := by
  cases e with
  | txSerial => exact absurd rfl he
  | dial dest rate | ack response | connect | receive first => simp [Allowed, hs]
  | _ => trivial

theorem state_enterOnline (leaf : OnlineLeaf) (m : BenthosFsm ρ) :
    (m.enterOnline leaf).state = .online leaf := by
  cases leaf with
  | listen =>
    unfold enterOnline
    dsimp only
    split <;> rfl
  | transmitData => rfl

theorem react_shellPrompt_online {leaf : OnlineLeaf} (hs : m.state = .online leaf) :
    (m.react env .shellPrompt).state = .online leaf := by
  have hreact : m.react env .shellPrompt = m.exit.enterHistory env .shellPrompt := by
    unfold BenthosFsm.react
    rw [hs]
    cases leaf <;> rfl
  have hhist : m.exit.history = some (.online leaf) := by rw [exit, hs]
  rw [hreact, enterHistory, hhist]
  exact state_enterOnline leaf m.exit

theorem react_ack_online {leaf : OnlineLeaf} (hs : m.state = .online leaf) (response : Bytes) :
    (m.react env (.ack response)).state = .online leaf := by
  unfold BenthosFsm.react
  rw [hs]
  cases leaf with
  | listen => exact hs
  | transmitData =>
    simp only [BenthosFsm.onlineLeafReact, Option.some_or, Option.getD_some]
    split
    · exact hs
    · exact hs

theorem Sound.line_online (h : Sound m) (hposted : m.posted = []) {leaf : OnlineLeaf}
    (hs : m.state = .online leaf) (line : Bytes) : Sound (m.processEvent env (.rxSerial line)) := by
  have hreact : m.react env (.rxSerial line) = m.activeLine line := by
    unfold BenthosFsm.react
    rw [hs]
    cases leaf <;> rfl
  have hs' (events : List BenthosEvent) :
      BenthosFsm.state { m with posted := events } = .online leaf := hs
  rw [BenthosFsm.processEvent, hreact]
  refine h.activeLine hposted ?_ ?_ ?_ ?_
  · exact fun _ => allowed_of_online hs (by simp)
  · exact fun _ => allowed_of_online hs (by simp)
  · exact fun _ => allowed_of_online (react_shellPrompt_online (hs' _)) (by simp)
  · exact fun _ => allowed_of_online (react_ack_online (hs' _) _) (by simp)

section

variable (hs : m.state = .command leaf atOut)
include hs

theorem react_rxSerial_command (hleaf : leaf ≠ .range) (line : Bytes) :
    m.react env (.rxSerial line) = m.activeLine line := by
  unfold BenthosFsm.react
  rw [hs]
  cases leaf with
  | range => exact absurd rfl hleaf
  | _ => rfl

theorem react_shellPrompt_command : m.react env .shellPrompt = m := by
  unfold BenthosFsm.react
  rw [hs]
  cases leaf <;> rfl

theorem react_ack_command (response : Bytes) :
    m.react env (.ack response) = m.commandAck leaf atOut response := by
  unfold BenthosFsm.react
  rw [hs]
  cases leaf <;> rfl

end

theorem dataOut_commandAck (leaf : CommandLeaf) (atOut : List PendingCommand) (response : Bytes) :
    (m.commandAck leaf atOut response).dataOut = m.dataOut := by
  unfold commandAck
  split
  · rfl
  · dsimp only
    split <;> rfl

theorem acknowledge_escape (h : ascii "CONNECT" <+: text) :
    (acknowledge escapeText text).1 = false := by
  have hne (s : Bytes) (hs : ¬ascii "CONNECT" <+: s) : text ≠ s := by
    rintro rfl
    exact hs h
  have htake : escapeText.take 3 = escapeText := by decide
  have huser : ¬ascii "user" <+: text := fun huser =>
    absurd (List.prefix_of_prefix_length_le huser h (by decide)) (by decide)
  have hclam : clamResponse escapeText text = false := by
    have hstored := hne (ascii "Configuration stored.") (by decide)
    simp [clamResponse, hstored, show escapeText.head? ≠ some 0x40 by decide,
      show iequals (escapeText.take 7) (ascii "date -t") = false by decide]
  unfold acknowledge
  split_ifs with hok hconnect hcommand hprompt hlow
  · exact absurd hok (hne _ (by decide))
  · exact absurd htake hconnect.2
  · exact absurd hcommand.1 (hne _ (by decide))
  · exact absurd hprompt.2 huser
  · exact absurd hlow.1 (by decide)
  · exact hclam

theorem acknowledge_online (h : ascii "CONNECT" <+: text) :
    (acknowledge (ascii "ATO") text).1 = true := by
  have hanswer : ascii "CONNECT" <+: text ∧ (ascii "ATO").take 3 ≠ escapeText := ⟨h, by decide⟩
  unfold acknowledge
  rw [if_pos hanswer]
  split <;> rfl

/-- The call begins when nothing waits, or with the address dialed and nothing left to command. -/
theorem Sound.allowed_connect (h : Sound m)
    (hs : m.state = .command leaf atOut) (hconnect : ascii "CONNECT" <+: text)
    (hack : m.Allowed (.ack text)) (horderly : m.dataOut = [] ∨
      (leaf = .dial ∧ (atOut.map fun c => c.command.text) = [ascii "ATO"]) ∨
      (atOut.head?.map fun c => c.command.text) = some escapeText) :
    (m.commandAck leaf atOut text).Allowed .connect := by
  intro leaf' atOut' hs'
  rcases horderly with hdata | ⟨rfl, hato⟩ | hescape
  · refine .inr fun msg hmsg => ?_
    rw [dataOut_commandAck, hdata] at hmsg
    cases hmsg
  · obtain ⟨front, rfl, hfront⟩ := List.map_eq_singleton_iff.mp hato
    have hsound := h.commandAck hs hack
    have hstate : (m.commandAck .dial [front] text).state = .command .dial [] := by
      simp [BenthosFsm.commandAck, hfront, acknowledge_online hconnect]
    refine .inr ?_
    have hmatched := hsound.matched_dial hstate
    rwa [pendingLines, List.map_nil, List.append_nil] at hmatched
  · obtain ⟨front, hfront, htext⟩ := Option.map_eq_some_iff.mp hescape
    cases atOut with
    | nil => cases hfront
    | cons c rest =>
      obtain rfl : c = front := Option.some.inj hfront
      have hstate : (m.commandAck leaf (c :: rest) text).state = m.state := by
        simp [BenthosFsm.commandAck, htext, acknowledge_escape hconnect]
      rw [hstate, hs] at hs'
      obtain ⟨rfl, rfl⟩ : leaf = leaf' ∧ c :: rest = atOut' := by simpa using hs'
      exact .inl hescape

theorem Sound.line_command (h : Sound m) (hposted : m.posted = [])
    (hs : m.state = .command leaf atOut) (hleaf : leaf ≠ .range)
    {line : Bytes} (hline : m.LineOrderly (trimCopy line)) :
    Sound (m.processEvent env (.rxSerial line)) := by
  rw [LineOrderly, hs] at hline
  obtain ⟨hdata, hresponse, hconnect⟩ :
      (ascii "DATA" <+: trimCopy line → leaf = .dial → m.Matched (some benthosBroadcastId)) ∧
      (IsResponse (trimCopy line) → ∀ front ∈ atOut.head?,
        (acknowledge front.command.text (trimCopy line)).1 → 0 < front.tries) ∧
      (ascii "CONNECT" <+: trimCopy line → m.dataOut = [] ∨
        (leaf = .dial ∧ (atOut.map fun c => c.command.text) = [ascii "ATO"]) ∨
        (atOut.head?.map fun c => c.command.text) = some escapeText) := by
    cases leaf with
    | range => exact absurd rfl hleaf
    | _ => exact hline
  have hreceive (htext : ascii "DATA" <+: trimCopy line) : m.Allowed (.receive (trimCopy line)) := by
    intro atOut' hs'
    rw [hs] at hs'
    cases hs'
    exact hdata htext rfl
  have hack (htext : IsResponse (trimCopy line)) : m.Allowed (.ack (trimCopy line)) := by
    intro leaf' front rest hs' hvalid
    rw [hs] at hs'
    cases hs'
    exact hresponse htext front rfl hvalid
  have hs' (events : List BenthosEvent) :
      BenthosFsm.state { m with posted := events } = .command leaf atOut := hs
  rw [BenthosFsm.processEvent, react_rxSerial_command hs hleaf]
  refine h.activeLine hposted hreceive hack (fun htext => ?_) fun htext => ?_
  · rw [react_shellPrompt_command (hs' _)]
    exact (hack htext).posted _
  · rw [react_ack_command (hs' _)]
    have hresp : IsResponse (trimCopy line) := by
      refine ⟨fun hprefix => ?_, fun hprefix => ?_⟩
      · exact absurd (List.prefix_of_prefix_length_le hprefix htext (by decide)) (by decide)
      · exact absurd (List.prefix_of_prefix_length_le hprefix htext (by decide)) (by decide)
    exact (h.posted _).allowed_connect (hs' _) htext ((hack hresp).posted _) (hconnect htext)

theorem Sound.line (h : Sound m) (hposted : m.posted = []) {line : Bytes}
    (hline : m.LineOrderly (trimCopy line)) : Sound (m.processEvent env (.rxSerial line)) := by
  -- a line is a matter of the innermost state in `Range` and of `ReceiveData`
  have hinner (hposts : Posts BenthosEvent.Inner 5 m (m.react env (.rxSerial line))) :
      Sound (m.processEvent env (.rxSerial line)) := by
    obtain ⟨new, hnew, -, hkind⟩ := hposts
    have hsound : Sound (m.react env (.rxSerial line)) := h.react trivial
    refine hsound.drain_inner (fun e he => ?_) 5
    rw [hnew, hposted] at he
    exact hkind e he
  cases hs : m.state with
  | command leaf atOut =>
    by_cases hleaf : leaf = .range
    · subst hleaf
      have hreact : m.react env (.rxSerial line) = m.rangeLine env atOut line := by
        rw [BenthosFsm.react, hs]
        rfl
      exact hinner (hreact ▸ ((rangeLine_quiet atOut line).mono (by decide)).posts)
    · exact h.line_command hposted hs hleaf hline
  | online leaf => exact h.line_online hposted hs line
  | receiveData r =>
    have hreact : m.react env (.rxSerial line) = m.receiveReact env r (.rxSerial line) := by
      rw [BenthosFsm.react, hs]
    exact hinner (hreact ▸ (receiveReact_quiet env m r (.rxSerial line)).posts)
  | terminated =>
    have hreact : m.react env (.rxSerial line) = m := by rw [BenthosFsm.react, hs]
    exact hinner (.none (by rw [hreact]))

def Orderly (m : BenthosFsm ρ) : BenthosCall → Prop
  | .send msg => m.SendOrderly msg
  | .line _ text => m.LineOrderly (trimCopy text)
  | _ => True

/-- The machine between two calls of the driver, which has written all that it should. -/
structure Steady (m : BenthosFsm ρ) : Prop where
  sound : Sound m
  posted : m.posted = []
  serialTx : m.serialTx = []

theorem Steady.of_processEvent (h : Steady m) (he : e ≠ .txSerial)
    (hsound : Sound (m.processEvent env e)) : Steady (m.processEvent env e) :=
  ⟨hsound, posted_processEvent e h.posted, (serialTx_processEvent he h.posted).trans h.serialTx⟩

theorem Steady.now (h : Steady m) (now : ℚ) : Steady { m with now := now } :=
  ⟨⟨h.sound.own, h.sound.addressed⟩, h.posted, h.serialTx⟩

theorem Sound.flush (h : Sound m) :
    Sound { m with serialTx := [], written := m.written ++ m.serialTx } := by
  have hlog : BenthosFsm.log { m with serialTx := [], written := m.written ++ m.serialTx } = m.log :=
    List.append_nil _
  refine ⟨hlog ▸ h.own, ?_⟩
  have haddr := h.addressed
  unfold Addressed at haddr ⊢
  unfold Restorable at haddr ⊢
  rw [hlog]
  exact haddr

theorem Steady.trySerialTx (h : Steady m) (now : ℚ) : Steady (m.trySerialTx env now) := by
  have hnow := h.now now
  have hsound : Sound (BenthosFsm.processEvent env .txSerial { m with now := now }) :=
    hnow.sound.processEvent hnow.posted hnow.serialTx (by simp)
  exact ⟨hsound.flush, posted_processEvent _ hnow.posted, rfl⟩

theorem Steady.perform (h : Steady m) {c : BenthosCall} (hc : m.Orderly c) :
    Steady (m.perform env c) := by
  cases c with
  | send msg =>
    have hdata : Steady (m.withData msg) := ⟨h.sound.withData hc, h.posted, h.serialTx⟩
    exact hdata.of_processEvent (by simp) (h.sound.send h.posted hc)
  | trySerialTx now => exact h.trySerialTx now
  | line now text =>
    exact (h.now now).of_processEvent (by simp) ((h.now now).sound.line h.posted hc)
  | range dest =>
    exact h.of_processEvent (by simp) (h.sound.processEvent h.posted trivial (by simp))
  | reset => exact h.of_processEvent (by simp) (h.sound.processEvent h.posted trivial (by simp))
  | requestLowPower =>
    exact h.of_processEvent (by simp) (h.sound.processEvent h.posted trivial (by simp))

theorem steady_initiate (env : BenthosEnv ρ) : Steady (initiate env) := by
  have hown : OwnDestination (log ({ state := .terminated } : BenthosFsm ρ)) := OwnDestination.nil
  exact ⟨enterCommand_sound hown (by simp) .configure (by simp), rfl, rfl⟩

abbrev Runs (env : BenthosEnv ρ) (allowed : BenthosFsm ρ → BenthosCall → Prop) : BenthosFsm ρ → Prop :=
  Reached (fun c m => m.perform env c) allowed (initiate env)

/-- In every run in which messages are given to the driver only for the address that is dialed
and the modem answers no command before it was given, every message is written while the address
dialed last is its own destination. -/
theorem own_destination (h : Runs env Orderly m) : OwnDestination m.written := by
  have hsteady : Steady m := h.invariant (steady_initiate env) fun _ _ hm hc => hm.perform hc
  have hown := hsteady.sound.own
  rwa [log, hsteady.serialTx, List.append_nil] at hown

instance (m : BenthosFsm ρ) (msg : DriverTransmission) : Decidable (m.SendOrderly msg) := by
  unfold SendOrderly
  repeat' split
  all_goals infer_instance

instance (m : BenthosFsm ρ) (text : Bytes) : Decidable (m.LineOrderly text) := by
  unfold LineOrderly
  split <;> infer_instance

instance (m : BenthosFsm ρ) (c : BenthosCall) : Decidable (m.Orderly c) := by
  unfold Orderly
  split <;> infer_instance

def sampleBenthosEnv : BenthosEnv Unit where
  date _ := ascii "date -t12:00:00 -d01/01/2020"
  serialize msg := .ok (msg.frame.headD [])
  receiveStart _ := .done none
  receiveLine _ _ := .done none
  rangeReply _ := none

def sampleMessage (dest : ℤ) : DriverTransmission where
  src := 3
  dest := some dest
  type := .data
  frame := [[0x01]]

def sampleExchange : List BenthosCall := [.trySerialTx 10, .line 10 (ascii "OK")]

def sampleSession (msgs : List DriverTransmission) : List BenthosCall :=
  (List.replicate 15 sampleExchange).flatten ++ msgs.map .send ++
    (List.replicate 2 sampleExchange).flatten ++
    [.trySerialTx 10, .line 10 (ascii "CONNECT 00140 bits/sec")] ++
    List.replicate msgs.length (.trySerialTx 10)

def afterSession (msgs : List DriverTransmission) : BenthosFsm Unit :=
  performAll (fun c m => m.perform sampleBenthosEnv c) (sampleSession msgs) (initiate sampleBenthosEnv)

/-- A message to one modem. -/
theorem own_destination_single :
    (afterSession [sampleMessage 1]).written.getLast? = some (.packet (sampleMessage 1) [0x01]) ∧
      OwnDestination (afterSession [sampleMessage 1]).written := by
  have hruns : Runs sampleBenthosEnv Orderly (afterSession [sampleMessage 1]) :=
    Reached.start.performAll (by decide +kernel)
  exact ⟨by decide +kernel, own_destination hruns⟩

/-- Of two messages given to the driver one after another, the second goes to the modem that was
dialed for the first. -/
theorem message_misdirected :
    ∃ m, Runs sampleBenthosEnv (fun _ _ => True) m ∧
      m.written.getLast? = some (.packet (sampleMessage 2) [0x01]) ∧
      lastAddress m.written.dropLast = some 1 ∧ ¬OwnDestination m.written := by
  have hruns : Runs sampleBenthosEnv (fun _ _ => True)
      (afterSession [sampleMessage 1, sampleMessage 2]) :=
    Reached.start.performAll (by decide +kernel)
  have hlast : (afterSession [sampleMessage 1, sampleMessage 2]).written.getLast? =
      some (.packet (sampleMessage 2) [0x01]) := by decide +kernel
  have haddress : lastAddress (afterSession [sampleMessage 1, sampleMessage 2]).written.dropLast =
      some 1 := by decide +kernel
  refine ⟨_, hruns, hlast, haddress, fun hown => ?_⟩
  have hdest := hown _ _ _ [] (List.dropLast_append_getLast? _ hlast).symm
  rw [haddress] at hdest
  exact absurd hdest (by decide)

end BenthosFsm

end Goby
