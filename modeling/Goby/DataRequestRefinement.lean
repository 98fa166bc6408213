import Goby.CodecStability
import Goby.MessageLedger

/-! A request first clears old acknowledgments, and afterwards no queue awaits one under a
frame number that the request can use. Then it finds the next queue to send from, time
and again, and takes a message of it: a message that wants an acknowledgment is entered
as waiting on both levels, any other one is popped at once. -/

namespace Goby.QueueManager

variable {Desc Msg : Type} {env : Environment Desc Msg} {P : Event Msg → Prop}
  {s s' : QueueManager Desc Msg} {e : Event Msg} {gs : List (Given Msg)}

def IsClear : Event Msg → Prop
  | .queue _ (.ackCleared _ _) => True
  | _ => False

theorem clearAckQueue_ensures (hs : Inv env s) {k : ℕ}
    {q : Queue Desc Msg} (hq : s.queues[k]? = some q) (start : ℕ) :
    Ensures (clearAckQueue env k start) s
      (fun isEmpty s' => Reaches env IsClear s s' ∧ s'.waitingForAck = s.waitingForAck ∧
        isEmpty = (s'.contents k).waitingForAck.isEmpty ∧
        ∀ d ∈ (s'.contents k).waitingForAck, d.1 < start)
      (fun _ _ => False) := by
  obtain ⟨⟨q', erased, n⟩, hr⟩ := Queue.clearAckQueue_isSome (hs.queue_wf hq) env.clock s.readings
    s.minimumAckWaitSeconds start
  obtain ⟨hmoves, hlt⟩ := Queue.clearAckQueue_moves (hs.queue_wf hq) hr
  let s' : QueueManager Desc Msg := { s with
    readings := n
    queues := s.queues.insert k q'
    log := s.log ++ (erased.map (fun e => QueueEvent.ackCleared e.2 e.1)).map (.queue k) }
  have hrun : clearAckQueue env k start s = .ok q'.waitingForAck.isEmpty s' := by
    simp [clearAckQueue, getQueue_run hq, hr, setReadings, putQueue, s']
  have hins : Inserted s s' k q' := .of_insert rfl
  have hc : s'.contents k = q'.contents := by rw [hins.contents, if_pos rfl]
  refine .of_run hrun ⟨?_, rfl, by rw [hc], by rw [hc]; exact hlt⟩
  refine unreported_reaches ⟨hq, hins, Queue.clearAckQueue_desc hr, hmoves⟩ ?_ ?_ rfl rfl <;>
  · intro e he
    obtain ⟨y, -, rfl⟩ := List.mem_map.mp he
    trivial

/-- The entries for a queue are all kept, unless no message of the queue is waiting any
more. -/
theorem clearEntries_ensures (start : ℕ) (l : Multimap ℕ ℕ)
    (hs : Inv env s) (hl : ∀ e ∈ l, ∃ q, s.queues[e.2]? = some q) :
    Ensures (clearEntries env start l) s
      (fun kept s' => Reaches env IsClear s s' ∧ s'.waitingForAck = s.waitingForAck ∧
        kept.Sublist l ∧
        (∀ k, (s'.contents k).waitingForAck = [] ∨
          kept.filter (fun e => e.2 = k) = l.filter (fun e => e.2 = k)) ∧
        ∀ e ∈ l, ∀ d ∈ (s'.contents e.2).waitingForAck, d.1 < start)
      (fun _ _ => False) := by
  induction l generalizing s with
  | nil => exact .pure ⟨refl_of (Reaches env IsClear) s, rfl, .slnil, by simp, by simp⟩
  | cons e rest ih =>
    obtain ⟨q, hq⟩ := hl e List.mem_cons_self
    refine (clearAckQueue_ensures hs hq start).andThen ?_
    rintro isEmpty s₁ ⟨hr₁, hw₁, hempty, hlt⟩
    have hl₁ : ∀ d ∈ rest, ∃ q, s₁.queues[d.2]? = some q := by
      intro d hd
      obtain ⟨p, hp⟩ := hl d (List.mem_cons_of_mem _ hd)
      obtain ⟨es, hsteps, -, -⟩ := hr₁ hs
      obtain ⟨p', hp', -⟩ := hsteps.queue_stays hp
      exact ⟨p', hp'⟩
    refine (ih (hr₁.inv hs) hl₁).andThen ?_
    rintro kept s₂ ⟨hr₂, hw₂, hsub, hkeep, hclear⟩
    have hshrink := hr₂.waiting_sublist (hr₁.inv hs) (fun _ _ _ _ h => h) e.2
    refine .pure ⟨trans_of (Reaches env IsClear) hr₁ hr₂, hw₂.trans hw₁, ?_, ?_, ?_⟩
    · split
      · exact hsub.trans (List.sublist_cons_self _ _)
      · exact hsub.cons_cons e
    · intro k
      rcases hkeep k with hk | hk
      · exact .inl hk
      · by_cases hne : e.2 = k
        · subst hne
          split
          next he =>
            rw [hempty, List.isEmpty_iff] at he
            exact .inl (List.sublist_nil.mp (he ▸ hshrink))
          next => exact .inr (by simp [hk])
        · right
          split <;> simp [hne, hk]
    · intro d hd c hc
      rcases List.mem_cons.mp hd with rfl | hd
      · exact hlt c (hshrink.subset hc)
      · exact hclear d hd c hc

/-- After the old acknowledgments are cleared, none is awaited under a frame number from
the first one on. -/
theorem clearPacket_ensures (hs : Inv env s) (msg : ModemTransmission) :
    Ensures (clearPacket env msg) s
      (fun _ s' => Reaches env IsClear s s' ∧
        ∀ k, ∀ d ∈ (s'.contents k).waitingForAck, d.1 < msg.frameStart)
      (fun _ _ => False) := by
  refine .bind (.get (.bind ((clearEntries_ensures msg.frameStart s.waitingForAck hs hs.known).mono
    ?_ fun _ _ h => h)))
  rintro kept s₁ ⟨hr, hw, hsub, hkeep, hclear⟩
  have hs₁ := hr.inv hs
  refine .modify ⟨trans_of (Reaches env IsClear) hr ?_, ?_⟩
  · refine .step (.forgot rfl (hw ▸ hsub) ?_) (by simp) (by simp)
    intro k frame
    show (s₁.contents k).waitingForAck.count frame ≤ List.countP (fun e => e = (frame, k)) kept
    rcases hkeep k with hk | hk
    · simp [hk, Multimap.count]
    · have hcount : ∀ l : Multimap ℕ ℕ, List.countP (fun e => e = (frame, k)) l =
          List.countP (fun e => e = (frame, k)) (l.filter (fun e => e.2 = k)) := by
        intro l
        rw [List.countP_filter]
        apply List.countP_congr
        rintro ⟨f, j⟩ _
        simp
      have hagree := hs₁.agreement k frame
      rwa [ackCount, hw, hcount, ← hk, ← hcount] at hagree
  · intro k d hd
    have hd' : d ∈ (s₁.contents k).waitingForAck := hd
    exact hclear _ (hw ▸ hs₁.agreement.listed hd') d hd'

def IsPack (frame : ℕ) : Event Msg → Prop
  | .queue _ (.gave _ f _) | .queue _ (.popped _ f) => f = frame
  | e => IsPush e

/-- Steps that give exactly the listed messages, in order. -/
def Gives (env : Environment Desc Msg) (P : Event Msg → Prop) (gs : List (Given Msg))
    (s s' : QueueManager Desc Msg) : Prop :=
  Inv env s → ∃ es, Steps env s es s' ∧ s'.log = s.log ++ es ∧ (∀ e ∈ es, P e) ∧
    es.filterMap givenBy = gs

theorem Gives.reaches (h : Gives env P gs s s') : Reaches env P s s' := by
  intro hs
  obtain ⟨es, hsteps, hlog, hes, -⟩ := h hs
  exact ⟨es, hsteps, hlog, hes⟩

theorem Gives.trans {gs gs' : List (Given Msg)} {s s₁ s₂ : QueueManager Desc Msg}
    (h : Gives env P gs s s₁) (h' : Gives env P gs' s₁ s₂) : Gives env P (gs ++ gs') s s₂ := by
  intro hs
  obtain ⟨es, hsteps, hlog, hes, hgs⟩ := h hs
  obtain ⟨fs, hsteps', hlog', hfs, hgs'⟩ := h' (hsteps.inv hs)
  refine ⟨es ++ fs, hsteps.trans hsteps', by rw [hlog', hlog, List.append_assoc], ?_, ?_⟩
  · exact List.forall_mem_append.mpr ⟨hes, hfs⟩
  · rw [List.filterMap_append, hgs, hgs']

theorem Gives.mono {P' : Event Msg → Prop} (hp : ∀ e, P e → P' e)
    (h : Gives env P gs s s') : Gives env P' gs s s' := by
  intro hs
  obtain ⟨es, hsteps, hlog, hes, hgs⟩ := h hs
  exact ⟨es, hsteps, hlog, fun e he => hp e (hes e he), hgs⟩

theorem Reaches.gives (h : Reaches env P s s')
    (hp : ∀ e, P e → givenBy e = none) : Gives env P [] s s' := by
  intro hs
  obtain ⟨es, hsteps, hlog, hes⟩ := h hs
  exact ⟨es, hsteps, hlog, hes, List.filterMap_eq_nil_iff.mpr fun e he => hp e (hes e he)⟩

theorem IsPush.isPack {frame : ℕ} (h : IsPush e) : IsPack frame e := by
  cases e with
  | queue k e => cases e <;> first | exact h.elim | trivial
  | _ => first | exact h.elim | exact h

theorem IsPush.givenBy (h : IsPush e) : givenBy e = none := by
  cases e with
  | queue k e => cases e <;> first | exact h.elim | rfl
  | _ => rfl

theorem demand_reaches (request : ModemTransmission) :
    Guarantees (Reaches env IsPush) (emit [.dataOnDemand request] : Code Desc Msg Unit) :=
  emit_reaches (by simp [Event.isSignal, IsPush])

theorem encodeOnDemand_reaches (request : ModemTransmission) (k : ℕ) :
    Guarantees (Reaches env IsPush) (encodeOnDemand env request k) :=
  guarantees_encodeOnDemand (fun n => reaches_of_quiet (quiet_setReadings n)) demand_reaches
    pushMessage_reaches request k

theorem findNextSender_reaches (request : ModemTransmission) (data : Bytes) :
    Guarantees (Reaches env IsPush) (findNextSender env request data) :=
  guarantees_findNextSender (fun n => reaches_of_quiet (quiet_setReadings n)) demand_reaches
    pushMessage_reaches request data

def sentSignals (s : QueueManager Desc Msg) (dcclId : ℕ) (msg : Msg) : List (Event Msg) :=
  if s.hasManip dcclId .loopbackAsSent then [.signalReceive msg] else []

theorem loopbackAsSent_run (s : QueueManager Desc Msg) (dcclId : ℕ) (msg : Msg) :
    loopbackAsSent dcclId msg s = .ok () { s with log := s.log ++ s.sentSignals dcclId msg } := by
  unfold loopbackAsSent sentSignals
  by_cases h : s.hasManip dcclId .loopbackAsSent = true <;> simp [h, emit]

theorem mem_sentSignals {dcclId : ℕ} {msg : Msg}
    (h : e ∈ s.sentSignals dcclId msg) : e.isSignal ∧ IsPush e := by
  unfold sentSignals at h
  split at h
  · rw [List.mem_singleton.mp h]
    exact ⟨rfl, trivial⟩
  · simp at h

theorem filterMap_sentSignals (s : QueueManager Desc Msg) (dcclId : ℕ) (msg : Msg) :
    (s.sentSignals dcclId msg).filterMap givenBy = [] :=
  List.filterMap_eq_nil_iff.mpr fun _ he => (mem_sentSignals he).2.givenBy

/-- The message offered is entered as waiting, by the manager and by its queue, or popped. -/
theorem takeUserFrame_run (hs : Inv env s) {k frame it : ℕ} {q given : Queue Desc Msg}
    {m : QueuedMessage Msg} (hq : s.queues[k]? = some q)
    (hg : q.giveData frame (env.clock s.readings) = some (it, m, given)) :
    ∃ s', takeUserFrame env k frame s = .ok (it, m) s' ∧
      Gives env (IsPack frame) [⟨(k, it), frame, m.dcclMsg⟩] s s' ∧
      (m.msgMeta.ackRequestedD = false → ∃ es, s'.log = s.log ++ es ∧ .queue k (.popped it frame) ∈ es) := by
  have hd := Queue.giveData_desc hg
  cases hack : m.msgMeta.ackRequestedD with
  | true =>
    refine ⟨{ s with
      readings := s.readings + 1
      queues := s.queues.insert k given
      waitingForAck := s.waitingForAck.insert frame k
      packetAck := true
      log := s.log ++ (.queue k (.gave it frame m.dcclMsg) :: s.sentSignals (env.id q.desc) m.dcclMsg) },
      ?_, fun _ => ?_, nofun⟩
    · simp [takeUserFrame, getQueue_run hq, hg, setReadings, putQueue, loopbackAsSent_run, sentSignals,
        hasManip, settleGiven, hack]
    · obtain ⟨before, after, m₀, -, -, -, -, hgiven⟩ := Queue.giveData_some hg
      refine ⟨_, .single (.sentForAck ⟨hq, .of_insert rfl, hd, .single (Queue.giveData_move hg)⟩ ?_
        (fun e he => (mem_sentSignals he).1) rfl), rfl, ?_, ?_⟩
      · rw [hgiven]
        exact if_pos hack
      · intro e he
        rcases List.mem_cons.mp he with rfl | he
        · rfl
        · exact (mem_sentSignals he).2.isPack
      · simp [givenBy, filterMap_sentSignals]
  | false =>
    have hwf := hs.queue_wf hq
    have hpop := Queue.popMessage_of_giveData hwf hg hack
    let left : Queue Desc Msg := { given with messages := given.messages.erase it }
    have hmoves : Contents.Moves q.contents [.gave it frame m.dcclMsg, .popped it frame] left.contents :=
      .step (Queue.giveData_move hg)
        (.single (Queue.popMessage_move ((Queue.giveData_move hg).wf hwf) hpop frame))
    let s' : QueueManager Desc Msg := { s with
      readings := s.readings + 1
      queues := (s.queues.insert k given).insert k left
      log := s.log ++ (.queue k (.gave it frame m.dcclMsg) :: (s.sentSignals (env.id q.desc) m.dcclMsg ++
        [.queue k (.popped it frame), .queueSizeChange k left.size])) }
    have hchange : Changes s s' k q left [.gave it frame m.dcclMsg, .popped it frame] := by
      refine ⟨hq, fun j => ?_, hd, hmoves⟩
      simp only [s', Std.TreeMap.getElem?_insert, Std.LawfulEqCmp.compare_eq_iff_eq]
      split <;> rfl
    refine ⟨s', ?_, fun _ => ⟨_, .single (.sent hchange (fun e he => (mem_sentSignals he).1) rfl), rfl, ?_, ?_⟩,
      fun _ => ⟨_, rfl, by simp⟩⟩
    · simp [takeUserFrame, hq, hg, setReadings, putQueue, loopbackAsSent_run, sentSignals, hasManip,
        settleGiven, hack, popGiven, hpop, qsize, getQueue, emit, hd, hs.ids k q hq, Queue.size, s', left]
    · intro e he
      simp only [List.mem_cons, List.mem_append, List.not_mem_nil, or_false] at he
      rcases he with rfl | he | rfl | rfl
      · rfl
      · exact (mem_sentSignals he).2.isPack
      · rfl
      · trivial
    · simp [givenBy, filterMap_sentSignals]

theorem takeUserFrame_ensures (hs : Inv env s) (k frame : ℕ) :
    Ensures (takeUserFrame env k frame) s
      (fun r s' => Gives env (IsPack frame) [⟨(k, r.1), frame, r.2.dcclMsg⟩] s s' ∧
        (r.2.msgMeta.ackRequestedD = false →
          ∃ es, s'.log = s.log ++ es ∧ .queue k (.popped r.1 frame) ∈ es))
      (fun _ s' => s' = s) := by
  cases hq : s.queues[k]? with
  | none => simp [Ensures, takeUserFrame, getQueue, hq]
  | some q =>
    cases hg : q.giveData frame (env.clock s.readings) with
    | none => simp [Ensures, takeUserFrame, getQueue, hq, hg]
    | some r =>
      obtain ⟨s', hrun, hgives⟩ := takeUserFrame_run hs hq hg
      exact .of_run hrun hgives

end Goby.QueueManager
