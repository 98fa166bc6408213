import Goby.BenthosEvents
import Goby.LatestEvents

/-! A message is sent by dialing its destination, but only one state reacts to that event, and the
message waits in a buffer that the next call empties, whatever its destination. The invariant is
that the messages that wait are for the address that is dialed, in the states that lead to their
being written. It is kept by every reaction to an event that is allowed. -/

namespace Goby

def SerialLine.address? : SerialLine → Option ℤ
  | .command (.remoteAddr dest) => some dest
  | _ => none

def lastAddress (log : List SerialLine) : Option ℤ := (log.filterMap SerialLine.address?).getLast?

/-- Every message is written while the address dialed last is its own destination. -/
def OwnDestination (log : List SerialLine) : Prop :=
  ∀ before msg bytes after, log = before ++ .packet msg bytes :: after →
    lastAddress before = some (benthosAddress msg.destD)

theorem lastAddress_append (log log' : List SerialLine) :
    lastAddress (log ++ log') = (lastAddress log').or (lastAddress log) := by
  rw [lastAddress, List.filterMap_append, List.getLast?_append]
  rfl

theorem lastAddress_packet (log : List SerialLine) (msg : DriverTransmission) (bytes : Bytes) :
    lastAddress (log ++ [.packet msg bytes]) = lastAddress log := by
  rw [lastAddress_append]
  rfl

theorem lastAddress_again (log log' : List SerialLine) (line : SerialLine) :
    lastAddress (log ++ [line] ++ line :: log') = lastAddress (log ++ line :: log') := by
  have hline : lastAddress (line :: log') = (lastAddress log').or (lastAddress [line]) :=
    lastAddress_append [line] log'
  rw [lastAddress_append, lastAddress_append log, lastAddress_append log (line :: log'), hline]
  cases lastAddress log' <;> cases lastAddress [line] <;> rfl

theorem OwnDestination.nil : OwnDestination [] := by
  intro before msg bytes after h
  simp at h

theorem OwnDestination.append {log : List SerialLine} {line : SerialLine} (h : OwnDestination log)
    (hline : ∀ msg bytes, line = .packet msg bytes →
      lastAddress log = some (benthosAddress msg.destD)) : OwnDestination (log ++ [line]) := by
  intro before msg bytes after heq
  refine forall_events_concat (P := fun before line => ∀ msg bytes, line = .packet msg bytes →
    lastAddress before = some (benthosAddress msg.destD)) ?_ hline before _ after heq msg bytes rfl
  rintro before _ after hlog msg bytes rfl
  exact h before msg bytes after hlog

theorem OwnDestination.command {log : List SerialLine} (h : OwnDestination log)
    (c : BenthosCommand) : OwnDestination (log ++ [.command c]) := h.append (by simp)

namespace BenthosFsm

variable {ρ : Type} {env : BenthosEnv ρ} {m m' : BenthosFsm ρ} {atOut : List PendingCommand}
  {e : BenthosEvent} {leaf : CommandLeaf}

def log (m : BenthosFsm ρ) : List SerialLine := m.written ++ m.serialTx

def pendingLines (atOut : List PendingCommand) : List SerialLine :=
  atOut.map fun c => .command c.command

def Matched (m : BenthosFsm ρ) (address : Option ℤ) : Prop :=
  ∀ msg ∈ m.dataOut, address = some (benthosAddress msg.destD)

/-- A command that was tried has been written since any other address, and only the first one
was tried. -/
structure Tried (log : List SerialLine) (atOut : List PendingCommand) : Prop where
  front : ∀ c ∈ atOut.head?, 0 < c.tries →
    lastAddress (log ++ [.command c.command]) = lastAddress log
  rest : ∀ c ∈ atOut.tail, c.tries = 0

/-- The messages that wait suit the state that the machine would return to. -/
def Restorable (m : BenthosFsm ρ) : Prop :=
  match m.history with
  | some (.online _) => m.Matched (lastAddress m.log)
  | some (.command .dial) => m.Matched (some benthosBroadcastId)
  | _ => True

/-- The messages that wait are for the address that is dialed, in the states that lead to their
being written. -/
def Addressed (m : BenthosFsm ρ) : Prop :=
  match m.state with
  | .command leaf atOut =>
    Tried m.log atOut ∧ (leaf = .dial → m.Matched (lastAddress (m.log ++ pendingLines atOut)))
  | .online _ => m.Matched (lastAddress m.log)
  | .receiveData _ => m.Restorable
  | .terminated => True

structure Sound (m : BenthosFsm ρ) : Prop where
  own : OwnDestination m.log
  addressed : m.Addressed

variable {log : List SerialLine}

theorem tried_of_fresh (h : ∀ c ∈ atOut, c.tries = 0) : Tried log atOut := by
  refine ⟨fun c hc hpos => ?_, fun c hc => h c (List.mem_of_mem_tail hc)⟩
  rw [h c (List.mem_of_mem_head? hc)] at hpos
  exact absurd hpos (Nat.lt_irrefl 0)

theorem Tried.nil (log : List SerialLine) : Tried log [] := tried_of_fresh (by simp)

theorem Tried.tail {front : PendingCommand} {rest : List PendingCommand}
    (h : Tried log (front :: rest)) : Tried log rest := tried_of_fresh h.rest

theorem Tried.drop (h : Tried log atOut) (n : ℕ) : Tried log (atOut.drop n) := by
  induction n generalizing atOut with
  | zero => exact h
  | succ n ih =>
    cases atOut with
    | nil => exact h
    | cons front rest => exact ih h.tail

theorem Tried.pushCommand
    (h : Tried log atOut) (c : BenthosCommand) : Tried log (pushCommand atOut c) := by
  apply Tried.drop
  cases atOut with
  | nil => exact tried_of_fresh (by simp)
  | cons front rest =>
    exact ⟨h.front, List.forall_mem_append.mpr ⟨h.rest, List.forall_mem_singleton.mpr rfl⟩⟩

theorem Tried.pushCommands (h : Tried log atOut) (cs : List BenthosCommand) :
    Tried log (cs.foldl BenthosFsm.pushCommand atOut) := by
  induction cs generalizing atOut with
  | nil => exact h
  | cons c cs ih => exact ih (h.pushCommand c)

theorem pushCommands_eq (atOut : List PendingCommand) {cs : List BenthosCommand}
    (h : cs.length ≤ 100) :
    ∃ k, cs.foldl pushCommand atOut = atOut.drop k ++ cs.map fun c => { command := c } := by
  induction cs using List.reverseRecOn with
  | nil => exact ⟨0, by simp⟩
  | append_singleton cs c ih =>
    rw [List.length_append, List.length_singleton] at h
    obtain ⟨k, hk⟩ := ih (by omega)
    refine ⟨k + (atOut.length - k + cs.length + 1 - 100), ?_⟩
    rw [List.foldl_append, hk]
    simp only [List.foldl_cons, List.foldl_nil, pushCommand, circularPush, List.length_append,
      List.length_drop, List.length_map, List.append_assoc]
    rw [List.drop_append_of_le_length (by rw [List.length_drop]; omega), List.drop_drop]
    simp

theorem lastAddress_dialCommands (log : List SerialLine) (atOut : List PendingCommand)
    (dest rate : ℤ) :
    lastAddress (log ++ pendingLines ((dialCommands dest rate).foldl pushCommand atOut)) =
      some dest := by
  have hlength : (dialCommands dest rate).length ≤ 100 := by simp [dialCommands]
  obtain ⟨k, hk⟩ := pushCommands_eq atOut hlength
  rw [hk, pendingLines, List.map_append, ← List.append_assoc, lastAddress_append]
  rfl

@[simp] theorem log_exit (m : BenthosFsm ρ) : m.exit.log = m.log := by
  unfold exit
  split <;> rfl

@[simp] theorem dataOut_exit (m : BenthosFsm ρ) : m.exit.dataOut = m.dataOut := by
  unfold exit
  split <;> rfl

theorem Matched.exit {address : Option ℤ} (h : m.Matched address) : m.exit.Matched address := by
  rwa [Matched, dataOut_exit]

theorem sound_exit_log (h : OwnDestination m.log) : OwnDestination m.exit.log := by rwa [log_exit]

theorem Sound.posted (h : Sound m) (events : List BenthosEvent) :
    Sound { m with posted := events } := ⟨h.own, h.addressed⟩

section

variable (hown : OwnDestination m.log)
include hown

theorem enterOnline_sound (h : m.Matched (lastAddress m.log))
    (leaf : OnlineLeaf) : Sound (m.enterOnline leaf) := by
  cases leaf with
  | listen =>
    unfold enterOnline
    dsimp only
    split
    · exact ⟨hown, h⟩
    · exact ⟨hown, h⟩
  | transmitData => exact ⟨hown, h⟩

theorem enterLeaf_sound (h : Tried m.log atOut) (e : BenthosEvent) (hleaf : leaf ≠ .dial) :
    Sound (m.enterLeaf env e leaf atOut) :=
  ⟨hown, h.pushCommands _, fun hdial => absurd hdial hleaf⟩

theorem dial_sound (h : Tried m.log atOut) {dest : ℤ} (rate : ℤ) (hm : m.Matched (some dest)) :
    @Sound ρ { m with
      state := .command .dial ((dialCommands dest rate).foldl pushCommand atOut) } := by
  refine ⟨hown, h.pushCommands _, fun _ msg hmsg => ?_⟩
  exact (lastAddress_dialCommands m.log atOut dest rate).trans (hm msg hmsg)

end

theorem tried_commandStart (log : List SerialLine) :
    Tried log (commandStart.foldl pushCommand []) :=
  (Tried.nil log).pushCommands commandStart

/-- Made anew by an event other than one to dial, `Dial` calls the address of broadcasts. -/
theorem enterCommand_sound (hown : OwnDestination m.log)
    (he : ∀ dest rate, e ≠ .dial dest rate) (leaf : CommandLeaf)
    (h : leaf = .dial → m.Matched (some benthosBroadcastId)) : Sound (m.enterCommand env e leaf) := by
  by_cases hleaf : leaf = .dial
  · subst hleaf
    have hcommands : leafCommands env m.now e .dial = dialCommands benthosBroadcastId 2 := by
      unfold leafCommands
      dsimp only
      split
      · exact absurd rfl (he _ _)
      · rfl
    rw [enterCommand, enterLeaf, hcommands]
    exact dial_sound hown (tried_commandStart m.log) 2 (h rfl)
  · exact enterLeaf_sound hown (tried_commandStart m.log) e hleaf

theorem enterHistory_sound (hown : OwnDestination m.log) (h : m.Restorable)
    (he : ∀ dest rate, e ≠ .dial dest rate) : Sound (m.enterHistory env e) := by
  unfold Restorable at h
  unfold enterHistory
  cases hhist : m.history with
  | none => exact enterCommand_sound hown he .configure (by simp)
  | some leaf =>
    rw [hhist] at h
    cases leaf with
    | command leaf =>
      refine enterCommand_sound hown he leaf fun hleaf => ?_
      subst hleaf
      exact h
    | online leaf => exact enterOnline_sound hown h leaf

theorem Sound.restorable_exit (h : Sound m) (hactive : m.state ≠ .terminated)
    (hdial : ∀ atOut, m.state = .command .dial atOut → m.Matched (some benthosBroadcastId)) :
    m.exit.Restorable := by
  have haddr := h.addressed
  unfold Addressed at haddr
  unfold Restorable exit
  cases hs : m.state with
  | command leaf atOut =>
    cases leaf with
    | dial => exact hdial atOut hs
    | _ => trivial
  | online leaf =>
    rw [hs] at haddr
    exact haddr
  | receiveData r =>
    rw [hs] at haddr
    exact haddr
  | terminated => exact absurd hs hactive

theorem receiveStep_sound (hown : OwnDestination m.log) (h : m.Restorable) (r : Reception ρ) :
    Sound (m.receiveStep r) := by
  cases r with
  | more r => exact ⟨hown, h⟩
  | done received => exact ⟨hown, h⟩

def Allowed (m : BenthosFsm ρ) : BenthosEvent → Prop
  | .txSerial => m.serialTx = []
  | .dial dest _ => ∀ atOut, m.state = .command .ready atOut → m.Matched (some (benthosAddress dest))
  | .ack response => ∀ leaf front rest, m.state = .command leaf (front :: rest) →
      (acknowledge front.command.text response).1 → 0 < front.tries
  | .connect => ∀ leaf atOut, m.state = .command leaf atOut →
      (atOut.head?.map fun c => c.command.text) = some escapeText ∨ m.Matched (lastAddress m.log)
  | .receive _ => ∀ atOut, m.state = .command .dial atOut → m.Matched (some benthosBroadcastId)
  | _ => True

theorem allowed_of_inner (h : e.Inner) : m.Allowed e := by
  cases e <;> trivial

theorem Allowed.posted (h : m.Allowed e) (events : List BenthosEvent) :
    Allowed { m with posted := events } e := by
  cases e <;> exact h

theorem Sound.tried (h : Sound m) (hs : m.state = .command leaf atOut) : Tried m.log atOut := by
  have haddr := h.addressed
  rw [Addressed, hs] at haddr
  exact haddr.1

theorem Sound.matched_dial (h : Sound m) (hs : m.state = .command .dial atOut) :
    m.Matched (lastAddress (m.log ++ pendingLines atOut)) := by
  have haddr := h.addressed
  rw [Addressed, hs] at haddr
  exact haddr.2 rfl

theorem Sound.matched_online (h : Sound m) {leaf : OnlineLeaf} (hs : m.state = .online leaf) :
    m.Matched (lastAddress m.log) := by
  have haddr := h.addressed
  rw [Addressed, hs] at haddr
  exact haddr

theorem Sound.restorable (h : Sound m) {r : Option ρ} (hs : m.state = .receiveData r) :
    m.Restorable := by
  have haddr := h.addressed
  rw [Addressed, hs] at haddr
  exact haddr

theorem Sound.exit_enterLeaf (h : Sound m)
    (hs : m.state = .command leaf atOut) (e : BenthosEvent) {leaf' : CommandLeaf}
    (hleaf : leaf' ≠ .dial) : Sound (m.exit.enterLeaf env e leaf' atOut) :=
  enterLeaf_sound (sound_exit_log h.own) (by rw [log_exit]; exact h.tried hs) e hleaf

theorem Sound.rangeLine (h : Sound m)
    (hs : m.state = .command .range atOut) (line : Bytes) : Sound (m.rangeLine env atOut line) := by
  have htried := h.tried hs
  cases atOut with
  | nil =>
    unfold BenthosFsm.rangeLine
    dsimp only
    split <;> exact ⟨h.own, htried, nofun⟩
  | cons front rest =>
    unfold BenthosFsm.rangeLine
    dsimp only
    split_ifs
    · exact ⟨h.own, htried.tail, nofun⟩
    · exact ⟨h.own, htried, nofun⟩
    · exact ⟨h.own, htried.tail, nofun⟩
    · exact ⟨h.own, htried, nofun⟩

theorem Sound.commandLeafReact (h : Sound m) (hs : m.state = .command leaf atOut) (he : m.Allowed e)
    (hm : m.commandLeafReact env leaf atOut e = some m') : Sound m' := by
  unfold BenthosFsm.commandLeafReact at hm
  split at hm
  case h_3 dest rate =>
    cases hm
    have hmatched : m.exit.Matched (some (benthosAddress dest)) := (he atOut hs).exit
    have htried : Tried m.exit.log atOut := by
      rw [log_exit]
      exact h.tried hs
    exact dial_sound (sound_exit_log h.own) htried _ hmatched
  case h_5 =>
    cases hm
    exact ⟨h.own, (h.tried hs).pushCommand _, nofun⟩
  case h_8 line =>
    cases hm
    exact h.rangeLine hs line
  case h_9 => cases hm
  all_goals
    cases hm
    exact h.exit_enterLeaf hs _ (by decide)

/-- A command that was answered had been written, so that the address is the same without it. -/
theorem Sound.commandAck (h : Sound m)
    (hs : m.state = .command leaf atOut) {response : Bytes} (he : m.Allowed (.ack response)) :
    Sound (m.commandAck leaf atOut response) := by
  cases atOut with
  | nil => exact h
  | cons front rest =>
    have htried := h.tried hs
    simp only [BenthosFsm.commandAck]
    split
    next hvalid =>
      have hsame := htried.front front rfl (he leaf front rest hs hvalid)
      refine ⟨h.own, htried.tail, fun hleaf msg hmsg => ?_⟩
      subst hleaf
      rw [← h.matched_dial hs msg hmsg]
      calc lastAddress (m.log ++ pendingLines rest)
          = (lastAddress (pendingLines rest)).or (lastAddress m.log) := lastAddress_append ..
        _ = lastAddress (m.log ++ [.command front.command] ++ pendingLines rest) := by
          rw [lastAddress_append _ (pendingLines rest), hsame]
        _ = lastAddress (m.log ++ pendingLines (front :: rest)) := by
          rw [List.append_assoc]
          rfl
    next => exact h.posted _

theorem circularPush_nil {α : Type} {capacity : ℕ} (hpos : 0 < capacity) (a : α) :
    circularPush capacity [] a = [a] := by
  rw [circularPush, List.length_nil, show 0 + 1 - capacity = 0 by omega]
  rfl

theorem Sound.commandTx (h : Sound m)
    (hs : m.state = .command leaf atOut) (he : m.serialTx = []) : Sound (m.commandTx leaf atOut) := by
  cases atOut with
  | nil => exact h
  | cons front rest =>
    have htried := h.tried hs
    have hlog : m.log = m.written := by rw [log, he, List.append_nil]
    simp only [BenthosFsm.commandTx]
    split_ifs with htime htries
    · -- the command was tried ten times, so it had been written
      refine ⟨h.own, ⟨fun c hc _ => ?_, htried.rest⟩, fun hleaf => ?_⟩
      · obtain rfl := Option.some.inj hc
        exact htried.front front rfl (by omega)
      · subst hleaf
        have hmatched := h.matched_dial hs
        exact hmatched
    · rw [he, circularPush_nil (by decide)]
      have hown : OwnDestination m.written := hlog ▸ h.own
      refine ⟨hown.command front.command, ⟨fun c hc _ => ?_, htried.rest⟩, fun hleaf msg hmsg => ?_⟩
      · obtain rfl := Option.some.inj hc
        have hagain := lastAddress_again m.written [] (.command front.command)
        exact hagain
      · subst hleaf
        have hagain := lastAddress_again m.written (pendingLines rest) (.command front.command)
        exact hagain.trans (hlog ▸ h.matched_dial hs msg hmsg)
    · exact h

theorem Sound.exit_enterOnline (h : Sound m) (hm : m.Matched (lastAddress m.log))
    (leaf : OnlineLeaf) : Sound (m.exit.enterOnline leaf) := by
  refine enterOnline_sound (sound_exit_log h.own) ?_ leaf
  rw [log_exit]
  exact hm.exit

theorem Sound.commandConnect (h : Sound m)
    (hs : m.state = .command leaf atOut) (he : m.Allowed .connect) :
    Sound (m.commandConnect atOut) := by
  cases atOut with
  | nil =>
    rcases he leaf [] hs with hfront | hmatched
    · cases hfront
    · exact h.exit_enterOnline hmatched .listen
  | cons front rest =>
    simp only [BenthosFsm.commandConnect]
    split
    next => exact h
    next hfront =>
      rcases he leaf (front :: rest) hs with hescape | hmatched
      · exact absurd (Option.some.inj hescape) hfront
      · exact h.exit_enterOnline hmatched .listen

theorem Sound.commandReact (h : Sound m) (hs : m.state = .command leaf atOut) (he : m.Allowed e)
    (hm : m.commandReact leaf atOut e = some m') : Sound m' := by
  cases e with
  | connect =>
    cases hm
    exact h.commandConnect hs he
  | ack response =>
    cases hm
    exact h.commandAck hs he
  | txSerial =>
    cases hm
    exact h.commandTx hs he
  | _ => cases hm

/-- The message that is framed is for the address dialed last. -/
theorem Sound.transmitTx (h : Sound m) {leaf : OnlineLeaf} (hs : m.state = .online leaf)
    (he : m.serialTx = []) : Sound (m.transmitTx env) := by
  have hmatched := h.matched_online hs
  have hlog : m.log = m.written := by rw [log, he, List.append_nil]
  unfold BenthosFsm.transmitTx
  split
  next => exact h
  next msg rest hdata =>
    have hmsg : lastAddress m.written = some (benthosAddress msg.destD) :=
      hlog ▸ hmatched msg (hdata ▸ List.mem_cons_self)
    split
    next bytes _ =>
      rw [he, circularPush_nil (by decide)]
      have hown : OwnDestination m.written := hlog ▸ h.own
      refine ⟨hown.append ?_, ?_⟩
      · rintro _ _ ⟨⟩
        exact hmsg
      · simp only [Addressed, hs]
        intro msg' hmsg'
        have hsame := lastAddress_packet m.written msg bytes
        exact hsame.trans (hlog ▸ hmatched msg' (hdata ▸ List.mem_cons_of_mem msg hmsg'))
    next => exact ⟨h.own, trivial⟩

theorem Sound.onlineLeafReact (h : Sound m) {leaf : OnlineLeaf} (hs : m.state = .online leaf)
    (he : m.Allowed e) (hm : m.onlineLeafReact env leaf e = some m') :
    Sound m' := by
  unfold BenthosFsm.onlineLeafReact at hm
  split at hm
  · cases hm
    exact h.exit_enterOnline (h.matched_online hs) .transmitData
  · cases hm
    exact enterCommand_sound (sound_exit_log h.own) (by simp) .ready (by simp)
  · cases hm
    exact h.transmitTx hs he
  · cases hm
    split
    · exact h.posted _
    · exact h
  · cases hm

theorem Sound.onlineReact (h : Sound m) {leaf : OnlineLeaf} (hs : m.state = .online leaf)
    (hm : m.onlineReact env e = some m') : Sound m' := by
  cases e with
  | shellPrompt =>
    cases hm
    refine enterHistory_sound (sound_exit_log h.own) (h.restorable_exit ?_ ?_) (by simp)
    · simp [hs]
    · simp [hs]
  | _ => cases hm

theorem Sound.activeReact (h : Sound m) (hactive : m.state ≠ .terminated)
    (he : m.Allowed e) (hm : m.activeReact env e = some m') : Sound m' := by
  cases e with
  | reset =>
    cases hm
    exact enterCommand_sound (sound_exit_log h.own) (by simp) .configure (by simp)
  | rxSerial line =>
    cases hm
    unfold activeLine
    dsimp only
    split_ifs <;> exact h.posted _
  | receive first =>
    cases hm
    exact receiveStep_sound (sound_exit_log h.own) (h.restorable_exit hactive he) _
  | _ => cases hm

theorem Sound.receiveReact (h : Sound m) {r : Option ρ} (hs : m.state = .receiveData r)
    (e : BenthosEvent) : Sound (m.receiveReact env r e) := by
  unfold BenthosFsm.receiveReact
  split
  · exact receiveStep_sound h.own (h.restorable hs) _
  · exact enterHistory_sound h.own (h.restorable hs) (by simp)
  · exact h

theorem Sound.react (h : Sound m) (he : m.Allowed e) : Sound (m.react env e) := by
  unfold BenthosFsm.react
  split
  next leaf atOut hs =>
    exact getD_or_cases h (fun _ => h.commandLeafReact hs he) (fun _ => h.commandReact hs he)
      fun _ => h.activeReact (by simp [hs]) he
  next leaf hs =>
    exact getD_or_cases h (fun _ => h.onlineLeafReact hs he) (fun _ => h.onlineReact hs)
      fun _ => h.activeReact (by simp [hs]) he
  next r hs => exact h.receiveReact hs e
  next => exact h

theorem Sound.drain_inner (h : Sound m) (hinner : ∀ e ∈ m.posted, e.Inner) (fuel : ℕ) :
    Sound (drain env fuel m) :=
  drain_induction (closed_inner env) (fun _ events hm => hm.posted events)
    (fun _ _ he hm => hm.react (allowed_of_inner he)) fuel m hinner h

theorem Sound.react_drain (h : Sound m) (he : m.Allowed e)
    (hline : ∀ line, e ≠ .rxSerial line) (hinner : ∀ e ∈ m.posted, e.Inner) (fuel : ℕ) :
    Sound (drain env fuel (m.react env e)) := by
  obtain ⟨new, hnew, -, hkind⟩ := react_posts env m hline
  refine (h.react he).drain_inner ?_ fuel
  rw [hnew]
  exact List.forall_mem_append.mpr ⟨hinner, hkind⟩

theorem Sound.processEvent (h : Sound m) (hposted : m.posted = [])
    (he : m.Allowed e) (hline : ∀ line, e ≠ .rxSerial line) : Sound (m.processEvent env e) :=
  h.react_drain he hline (by simp [hposted]) 5

end BenthosFsm

end Goby
