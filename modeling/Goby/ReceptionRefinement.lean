import Goby.QueueManagerRefinement

/-! An acknowledgment goes through the manager's entries for each frame it lists. Every round
removes one message of the queue, if the queue has one for the frame, and one entry of
the manager, so that afterwards no message awaits an acknowledgment under that frame. -/

namespace Goby.QueueManager

variable {Desc Msg : Type} {env : Environment Desc Msg} {P : Event Msg → Prop}
  {s : QueueManager Desc Msg} {ack : ModemTransmission} {q q' : Queue Desc Msg} {k it frame : ℕ}

def IsAck (ack : ModemTransmission) : Event Msg → Prop
  | .queue _ (.ackPopped _ frame _) => ∃ f ∈ ack.ackedFrame, toUnsigned f = frame
  | .signalAck a (some _) _ => a = ack
  | .queueSizeChange _ _ | .signalReceive _ | .inRoute _ _ _ => True
  | _ => False

theorem IsReception.isAck {e : Event Msg} (h : IsReception e) : IsAck ack e := by
  cases e <;> first | exact h.elim | trivial

theorem acked_reaches {s s' : QueueManager Desc Msg}
    {msg : Msg} (h : Changes s s' k q q' [.ackPopped it frame msg])
    (hf : ∃ f ∈ ack.ackedFrame, toUnsigned f = frame) (hw : s'.waitingForAck = s.waitingForAck)
    (hlog : s'.log = s.log ++ [.queue k (.ackPopped it frame msg), .queueSizeChange k q'.size,
      .signalAck ack (some (k, it)) msg]) : Reaches env (IsAck ack) s s' := by
  refine .step (.acked h hw) hlog ?_
  intro e he
  simp only [List.mem_cons, List.not_mem_nil, or_false] at he
  rcases he with rfl | rfl | rfl
  · exact hf
  · trivial
  · rfl

/-- The manager after a queue has dropped an acknowledged message, which is reported. -/
def afterAck (s : QueueManager Desc Msg) (ack : ModemTransmission) (k it frame : ℕ)
    (q' : Queue Desc Msg) (msg : Msg) : QueueManager Desc Msg :=
  { s with
    queues := s.queues.insert k q'
    log := s.log ++ [.queue k (.ackPopped it frame msg), .queueSizeChange k q'.size,
      .signalAck ack (some (k, it)) msg] }

theorem afterAck_run (hs : Inv env s)
    {msg : Msg} (hq : s.queues[k]? = some q)
    (hd : q'.desc = q.desc) (m : Code Desc Msg Unit) : (do
      putQueue k q' [.ackPopped it frame msg]
      qsize env k
      emit [.signalAck ack (some (k, it)) msg]
      m) s = m (s.afterAck ack k it frame q' msg) := by
  simp [putQueue, qsize, getQueue, emit, hd, hs.ids k q hq, afterAck]

/-- Afterwards the manager has an entry to spare for the frame. -/
theorem ackEntry_ensures (hs : Inv env s) {frame k : ℕ} (hm : (frame, k) ∈ s.waitingForAck)
    (hf : ∃ f ∈ ack.ackedFrame, toUnsigned f = frame) :
    Ensures (ackEntry env ack frame k) s
      (fun _ s' => Reaches env (IsAck ack) s s' ∧ s'.waitingForAck = s.waitingForAck ∧
        s'.modemId = s.modemId ∧
        (s'.contents k).waitingForAck.count frame + 1 ≤ s.ackCount frame k)
      (fun _ s' => Reaches env (IsAck ack) s s') := by
  obtain ⟨q, hq⟩ := hs.known _ hm
  have hpos : 1 ≤ s.ackCount frame k := List.countP_pos_iff.mpr ⟨_, hm, by simp⟩
  have hc : s.contents k = q.contents := contents_eq hq
  obtain ⟨⟨removed, q'⟩, hr⟩ := Queue.popMessageAck_isSome (hs.queue_wf hq) frame
  unfold ackEntry
  refine .bind (.of_run (getQueue_run hq) ?_)
  cases removed with
  | none =>
    obtain ⟨-, hcount⟩ := Queue.popMessageAck_none hr
    rw [hr]
    refine .pure ⟨refl_of (Reaches env _) s, rfl, rfl, ?_⟩
    rw [hc]
    simpa [hcount] using hpos
  | some r =>
    obtain ⟨it, msg⟩ := r
    have hmove := Queue.popMessageAck_move (hs.queue_wf hq) hr
    have hd : q'.desc = q.desc := Queue.popMessageAck_desc hr
    have hchange : Changes s (s.afterAck ack k it frame q' msg) k q q' [.ackPopped it frame msg] :=
      ⟨hq, .of_insert rfl, hd, .single hmove⟩
    have hreach : Reaches env (IsAck ack) s (s.afterAck ack k it frame q' msg) :=
      acked_reaches hchange hf rfl rfl
    have hcount : q'.waitingForAck.count frame + 1 ≤ s.ackCount frame k := by
      have hagree := hs.agreement k frame
      rw [hc] at hagree
      exact Nat.le_trans hmove.count_ackPopped hagree
    rw [hr]
    refine .of_eq (afterAck_run hs hq hd _) ?_
    refine ((acknowledgeSource_signals ack.src msg .ack).ensures _).mono ?_ ?_
    · intro _ t ht
      refine ⟨trans_of (Reaches env _) hreach (ht.mono fun _ => (·.isAck)).reaches, ht.waiting,
        ht.modemId, ?_⟩
      rw [contents_congr ht.queues, hchange.after.contents, if_pos rfl]
      exact hcount
    · intro _ t ht
      exact trans_of (Reaches env _) hreach (ht.mono fun _ => (·.isAck)).reaches

theorem Agreement.eraseFound (h : s.Agreement) {frame k : ℕ}
    (hfind : s.waitingForAck.find frame = some (frame, k))
    (hspare : (s.contents k).waitingForAck.count frame + 1 ≤ s.ackCount frame k) :
    Agreement { s with waitingForAck := s.waitingForAck.eraseFound frame } := by
  intro j g
  have hagree := h j g
  have hcount := Multimap.countP_eraseFound hfind (fun e => e = (g, j))
  simp only [ackCount] at hagree hspare ⊢
  by_cases he : (frame, k) = (g, j)
  · obtain ⟨rfl, rfl⟩ := Prod.mk.inj he
    simp only [decide_true, if_true] at hcount
    show (s.contents k).waitingForAck.count frame ≤ _
    omega
  · simp only [he, decide_false, Bool.false_eq_true, if_false, Nat.add_zero] at hcount
    show (s.contents j).waitingForAck.count g ≤ _
    omega

/-- The manager's entries only become fewer, and none is left for the frame once as many
rounds were made as there were entries. -/
theorem ackLoop_ensures (ack : ModemTransmission) (frame fuel : ℕ)
    (hs : Inv env s) (hf : ∃ f ∈ ack.ackedFrame, toUnsigned f = frame) :
    Ensures (ackLoop env ack frame fuel) s
      (fun _ s' => Reaches env (IsAck ack) s s' ∧ s'.waitingForAck.Sublist s.waitingForAck ∧
        s'.modemId = s.modemId ∧
        (s.waitingForAck.count frame ≤ fuel → s'.waitingForAck.count frame = 0))
      (fun _ s' => Reaches env (IsAck ack) s s') := by
  induction fuel generalizing s with
  | zero =>
    exact .pure ⟨refl_of (Reaches env _) s, .refl _, rfl, fun h => Nat.le_zero.mp h⟩
  | succ fuel ih =>
    refine .get_bind ?_
    cases hfind : s.waitingForAck.find frame with
    | none =>
      exact .pure ⟨refl_of (Reaches env _) s, .refl _, rfl,
        fun _ => Multimap.count_eq_zero_of_find hfind⟩
    | some e =>
      obtain ⟨f, k⟩ := e
      obtain ⟨hmem, rfl⟩ := Multimap.mem_of_find hfind
      refine (ackEntry_ensures hs hmem hf).andThen ?_
      rintro - s₁ ⟨h₁, hw₁, hid₁, hspare⟩
      rw [← hw₁] at hfind
      rw [ackCount, ← hw₁] at hspare
      have hagree := (h₁.inv hs).agreement.eraseFound hfind hspare
      have hforgot : Reaches env (IsAck ack) s₁
          { s₁ with waitingForAck := s₁.waitingForAck.eraseFound f } :=
        .step (.forgot rfl List.eraseP_sublist hagree) (by simp) (by simp)
      have h₂ := trans_of (Reaches env _) h₁ hforgot
      refine .bind (.modify ((ih (h₂.inv hs)).mono ?_ fun _ _ h => trans_of (Reaches env _) h₂ h))
      rintro - s₂ ⟨h₃, hsub, hid, hzero⟩
      refine ⟨trans_of (Reaches env _) h₂ h₃, ?_, hid.trans hid₁, fun hle => hzero ?_⟩
      · rw [← hw₁]
        exact hsub.trans List.eraseP_sublist
      · have hcount := Multimap.countP_eraseFound hfind (fun e => e.1 = f)
        simp only [decide_true, if_true] at hcount
        rw [← hw₁] at hle
        simp only [Multimap.count] at hle ⊢
        omega

theorem ackFrame_ensures {f : ℤ} (hs : Inv env s) (hf : f ∈ ack.ackedFrame) :
    Ensures (ackFrame env ack f) s
      (fun _ s' => Reaches env (IsAck ack) s s' ∧ s'.waitingForAck.Sublist s.waitingForAck ∧
        s'.modemId = s.modemId ∧
        (ack.destD = s.modemId → s'.waitingForAck.count (toUnsigned f) = 0))
      (fun _ s' => Reaches env (IsAck ack) s s') := by
  refine .get_bind ?_
  split
  next hd => exact .pure ⟨refl_of (Reaches env _) s, .refl _, rfl, fun h => absurd h hd⟩
  next =>
    exact (ackLoop_ensures ack (toUnsigned f) _ hs ⟨f, hf, rfl⟩).mono
      (fun _ _ h => ⟨h.1, h.2.1, h.2.2.1, fun _ => h.2.2.2 (Nat.le_refl _)⟩) fun _ _ h => h

/-- An acknowledgment that is for us leaves no entry for any of its frames. -/
theorem ackFrames_ensures (ack : ModemTransmission) (frames : List ℤ)
    (hs : Inv env s) (hf : ∀ f ∈ frames, f ∈ ack.ackedFrame) :
    Ensures (ackFrames env ack frames) s
      (fun _ s' => Reaches env (IsAck ack) s s' ∧ s'.waitingForAck.Sublist s.waitingForAck ∧
        (ack.destD = s.modemId → ∀ f ∈ frames, s'.waitingForAck.count (toUnsigned f) = 0))
      (fun _ s' => Reaches env (IsAck ack) s s') := by
  induction frames generalizing s with
  | nil => exact .pure ⟨refl_of (Reaches env _) s, .refl _, by simp⟩
  | cons f rest ih =>
    refine (ackFrame_ensures hs (hf f List.mem_cons_self)).andThen ?_
    rintro - s₁ ⟨h₁, hsub₁, hid₁, hzero₁⟩
    refine (ih (h₁.inv hs) fun g hg => hf g (List.mem_cons_of_mem _ hg)).mono ?_
      fun _ _ h => trans_of (Reaches env _) h₁ h
    rintro - s₂ ⟨h₂, hsub₂, hzero₂⟩
    refine ⟨trans_of (Reaches env _) h₁ h₂, hsub₂.trans hsub₁, fun hd g hg => ?_⟩
    rcases List.mem_cons.mp hg with rfl | hg
    · exact Nat.le_zero.mp (Nat.le_trans hsub₂.countP_le (Nat.le_of_eq (hzero₁ hd)))
    · exact hzero₂ (hid₁ ▸ hd) g hg

theorem processModemAck_ensures (ack : ModemTransmission) (hs : Inv env s) :
    Ensures (processModemAck env ack) s
      (fun _ s' => Reaches env (IsAck ack) s s' ∧
        (ack.destD = s.modemId → ∀ f ∈ ack.ackedFrame, s'.waitingForAck.count (toUnsigned f) = 0))
      (fun _ s' => Reaches env (IsAck ack) s s') :=
  (ackFrames_ensures ack ack.ackedFrame hs fun _ h => h).mono (fun _ _ h => ⟨h.1, h.2.2⟩)
    fun _ _ h => h

theorem deliverAll_signals (ms : List (QueuedMessage Msg)) :
    Guarantees (Signals IsReception) (deliverAll env ms) := by
  induction ms with
  | nil => exact .pure _
  | cons m rest ih =>
    refine .bind (.bind .get fun s => ?_) fun _ => ih
    dsimp only
    split_ifs
    all_goals first
      | exact .pure _
      | exact emit_signals (by simp [Event.isSignal, IsReception])

theorem receiveFrame_signals [DecidableEq Desc] (frame : Bytes) :
    Guarantees (Signals IsReception) (receiveFrame env frame) := by
  refine .bind .get fun s => ?_
  split
  · exact .pure _
  · exact .bind (signals_of_quiet (guarantees_decodeLoop quiet_applyRule _ _ _)) fun ms => deliverAll_signals ms

section

variable (transmission : ModemTransmission)

theorem routeFrame_signals (frame : Bytes) :
    Guarantees (Signals IsReception) (routeFrame env transmission frame) := by
  refine .bind .get fun s => ?_
  split
  · refine .bind (reads_decode _ _) fun header => ?_
    refine .bind (reads_metaFromMsg _) fun msgMeta => ?_
    split
    · exact emit_signals (by simp [Event.isSignal, IsReception])
    · exact .pure _
  · exact .pure _

theorem receiveFrames_signals [DecidableEq Desc]
    (frames : List Bytes) :
    Guarantees (Signals IsReception) (receiveFrames env transmission frames) := by
  induction frames with
  | nil => exact .pure _
  | cons frame rest ih =>
    exact .bind (guarantees_tryDccl (receiveFrame_signals frame)) fun _ =>
      .bind (guarantees_tryDccl (routeFrame_signals transmission frame)) fun _ => ih

theorem handleModemReceive_reaches [DecidableEq Desc] :
    Guarantees (Reaches env (IsAck transmission)) (handleModemReceive env transmission) := by
  unfold handleModemReceive
  split
  · intro s hs
    exact ((processModemAck_ensures transmission hs).mono (fun _ _ h => h.1)
      fun _ _ h => h).finalState hs
  · exact (receiveFrames_signals transmission transmission.frame).mono
      fun _ _ h => (h.mono fun _ => (·.isAck)).reaches

end

def IsConfigure : Event Msg → Prop
  | .queueSizeChange _ _ => True
  | _ => False

theorem setQueueCfg_reaches {k : ℕ} {q : Queue Desc Msg}
    (hq : s.queues[k]? = some q) (entry : QueuedMessageEntry) :
    Reaches env IsConfigure s (finalState (setQueueCfg env k q entry) s) := by
  obtain ⟨hd, hc⟩ := Queue.setCfg_sameContents env.toLibrary entry q
  have hput : ∀ q' : Queue Desc Msg, q'.desc = q.desc → q'.contents = q.contents →
      Reaches env IsConfigure s { s with queues := s.queues.insert k q', log := s.log ++ [] } := by
    intro q' hd hc
    have hmoves : Contents.Moves q.contents [] q'.contents := hc ▸ .refl _
    exact unreported_reaches ⟨hq, .of_insert rfl, hd, hmoves⟩ (by simp) (by simp) rfl rfl
  unfold finalState at hd hc ⊢
  unfold setQueueCfg
  cases hr : Queue.setCfg env.toLibrary entry q with
  | ok u q' =>
    rw [hr] at hd hc
    simpa [putQueue] using hput q' hd hc
  | error e q' =>
    rw [hr] at hd hc
    simpa [putQueue] using hput q' hd hc

theorem newQueue_reaches {desc : Desc}
    (hn : s.queues[env.id desc]? = none) (entry : QueuedMessageEntry) :
    Reaches env IsConfigure s (finalState (newQueue env desc entry) s) := by
  cases hr : Queue.processCfg env.toLibrary
      { desc := desc, cfg := entry, lastSendTime := unixMicrosec2ptime (env.clock s.readings) } with
  | error e q' =>
    have hquiet : Quiet s { s with readings := s.readings + 1 } := ⟨rfl, rfl, rfl, rfl⟩
    simpa [finalState, newQueue, setReadings, hr] using (hquiet.reaches : Reaches env IsConfigure _ _)
  | ok u q' =>
    obtain ⟨hd, hc⟩ := Queue.processCfg_new hr
    have hsize : q'.size = 0 := by
      have hm : q'.messages = StableList.empty := congrArg Contents.messages hc
      rw [Queue.size, hm]
      rfl
    have hadd : Reaches env IsConfigure s { s with
        readings := s.readings + 1
        queues := s.queues.insert (env.id desc) q'
        log := s.log ++ [.queueSizeChange (env.id desc) 0] } :=
      .step (.added hn (.of_insert rfl) hc (by rw [hd]) rfl) rfl (by simp [IsConfigure])
    simpa [finalState, newQueue, setReadings, hr, putQueue, qsize, getQueue, emit, hd, hsize] using hadd

theorem addQueue_reaches [DecidableEq Desc] (desc : Desc) (entry : QueuedMessageEntry) :
    Guarantees (Reaches env IsConfigure) (addQueue env desc entry) := by
  refine .bind (reaches_of_quiet (quiet_validate desc)) fun _ => .get_bind fun s => ?_
  refine .of_finalState ?_
  split
  next q hq => exact setQueueCfg_reaches hq entry
  next hn => exact newQueue_reaches hn entry

theorem addEntries_reaches [DecidableEq Desc] (entries : List QueuedMessageEntry) :
    Guarantees (Reaches env IsConfigure) (addEntries env entries) := by
  induction entries with
  | nil => exact .pure _
  | cons entry rest ih =>
    refine .bind ?_ fun _ => ih
    unfold addEntry
    split
    · exact .pure _
    · exact .bind (addQueue_reaches _ _) fun _ => reaches_of_quiet (.modify fun _ => ⟨rfl, rfl, rfl, rfl⟩)

theorem modify_reaches {f : QueueManager Desc Msg → QueueManager Desc Msg}
    (hq : ∀ s, (f s).queues = s.queues) (hw : ∀ s, (f s).waitingForAck = s.waitingForAck)
    (hlog : ∀ s, (f s).log = s.log) : Guarantees (Reaches env P) (modify f : Code Desc Msg PUnit) :=
  .modify fun s => fun _ => ⟨[], .single (.signals (by simp) (hq s) (hw s)), by simp [hlog], by simp⟩

theorem processCfg_reaches [DecidableEq Desc] :
    Guarantees (Reaches env IsConfigure) (processCfg env) :=
  .bind (modify_reaches (fun _ => rfl) (fun _ => rfl) fun _ => rfl) fun _ => .bind .get fun _ =>
    .bind (addEntries_reaches _) fun _ => modify_reaches (fun _ => rfl) (fun _ => rfl) fun _ => rfl

theorem setCfg_reaches [DecidableEq Desc] (cfg : QueueManagerConfig) :
    Guarantees (Reaches env IsConfigure) (setCfg env cfg) :=
  .bind (modify_reaches (fun _ => rfl) (fun _ => rfl) fun _ => rfl) fun _ => processCfg_reaches

theorem mergeCfg_reaches [DecidableEq Desc] (cfg : QueueManagerConfig) :
    Guarantees (Reaches env IsConfigure) (mergeCfg env cfg) :=
  .bind (modify_reaches (fun _ => rfl) (fun _ => rfl) fun _ => rfl) fun _ => processCfg_reaches

end Goby.QueueManager
