import Goby.QueueManagerSteps

/-! Every function of the manager, called in a state that satisfies the invariant, takes the
manager along steps whose events it logs, whether it returns or throws. Each theorem
names the kinds of events that the function can raise. -/

namespace Goby.QueueManager

variable {Desc Msg : Type} {env : Environment Desc Msg} {s s' : QueueManager Desc Msg}
  {es : List (Event Msg)} {α : Type} {k : ℕ}

/-- Steps whose events all satisfy `P`, and are appended to the log. -/
def Reaches (env : Environment Desc Msg) (P : Event Msg → Prop) (s s' : QueueManager Desc Msg) :
    Prop :=
  Inv env s → ∃ es, Steps env s es s' ∧ s'.log = s.log ++ es ∧ ∀ e ∈ es, P e

variable {P : Event Msg → Prop} {q : Queue Desc Msg} {P' : Event Msg → Prop}

instance : IsPreorder (QueueManager Desc Msg) (Reaches env P) where
  refl s _ := ⟨[], .refl s, by simp, by simp⟩
  trans s s₁ s₂ h h' hs := by
    obtain ⟨es, hsteps, hlog, hes⟩ := h hs
    obtain ⟨fs, hsteps', hlog', hfs⟩ := h' (hsteps.inv hs)
    refine ⟨es ++ fs, hsteps.trans hsteps', by rw [hlog', hlog, List.append_assoc], ?_⟩
    exact List.forall_mem_append.mpr ⟨hes, hfs⟩

theorem Reaches.mono (hp : ∀ e, P e → P' e) (h : Reaches env P s s') : Reaches env P' s s' := by
  intro hs
  obtain ⟨es, hsteps, hlog, hes⟩ := h hs
  exact ⟨es, hsteps, hlog, fun e he => hp e (hes e he)⟩

theorem Reaches.step (h : Step env s es s')
    (hlog : s'.log = s.log ++ es) (hes : ∀ e ∈ es, P e) : Reaches env P s s' :=
  fun _ => ⟨es, .single h, hlog, hes⟩

theorem Reaches.waiting_sublist (h : Reaches env P s s')
    (hs : Inv env s) (hp : ∀ k it frame msg, ¬ P (.queue k (.gave it frame msg))) (k : ℕ) :
    (s'.contents k).waitingForAck.Sublist (s.contents k).waitingForAck := by
  obtain ⟨es, hsteps, -, hes⟩ := h hs
  refine (hsteps.project k).waiting_sublist fun it frame msg hm => ?_
  exact hp k it frame msg (hes _ (Event.mem_queueEvents.mp hm))

theorem Reaches.inv (h : Reaches env P s s') (hs : Inv env s) : Inv env s' := by
  obtain ⟨es, hsteps, -, -⟩ := h hs
  exact hsteps.inv hs

section Reading

variable {R : QueueManager Desc Msg → QueueManager Desc Msg → Prop} [IsPreorder _ R]

theorem reads_getQueue (k : ℕ) : Guarantees R (getQueue k : Code Desc Msg _) := by
  refine .bind .get fun s => ?_
  split
  · exact .pure _
  · exact .throw _

theorem reads_lift {α : Type} (x : Except Failure α) : Guarantees R (lift x : Code Desc Msg α) := by
  cases x with
  | ok a => exact .pure _
  | error e => exact .throw _

theorem reads_metaFromMsg (msg : Msg) : Guarantees R (metaFromMsg env msg) := by
  refine .bind .get fun s => ?_
  split
  · exact .throw _
  · exact reads_lift _

theorem reads_sizeRepeated (ms : List (QueuedMessage Msg)) : Guarantees R (sizeRepeated env ms) := by
  induction ms with
  | nil => exact .pure _
  | cons m rest ih => exact .bind .get fun _ => .bind (reads_lift _) fun _ => .bind ih fun _ => .pure _

theorem reads_encode (msg : Msg) (headerOnly : Bool) : Guarantees R (encode env msg headerOnly) :=
  .bind .get fun _ => reads_lift _

theorem reads_decode (bytes : Bytes) (headerOnly : Bool) :
    Guarantees R (decode env bytes headerOnly) := .bind .get fun _ => reads_lift _

omit [IsPreorder _ R] in
theorem guarantees_tryDccl {α : Type} {m : Code Desc Msg α} (h : Guarantees R m) :
    Guarantees R (tryDccl m) := by
  intro s
  have hs := h s
  unfold finalState tryDccl at *
  cases hm : m s with
  | ok a s' => simpa [hm] using hs
  | error e s' => cases e <;> simpa [hm] using hs

variable [DecidableEq Desc]

section

variable (hrule : ∀ modem, Guarantees R (applyRule env modem))
include hrule

theorem guarantees_encodeRepeated
    (ms : List (QueuedMessage Msg)) : Guarantees R (encodeRepeated env ms) := by
  induction ms with
  | nil => exact .pure _
  | cons m rest ih =>
    exact .bind (hrule _) fun _ => .bind (reads_encode _ _) fun _ => .bind ih fun _ => .pure _

theorem guarantees_decodeOne (bytes : Bytes) : Guarantees R (decodeOne env bytes) := by
  refine .bind .get fun s => ?_
  split
  · exact .bind (reads_decode _ _) fun m => .bind (reads_metaFromMsg _) fun _ => .pure _
  · exact .bind (reads_decode _ _) fun header => .bind (reads_metaFromMsg _) fun msgMeta =>
      .bind (hrule _) fun _ => .bind (reads_decode _ _) fun _ => .pure _

theorem guarantees_decodeLoop (fuel : ℕ)
    (bytes : Bytes) (out : List (QueuedMessage Msg)) :
    Guarantees R (decodeLoop env fuel bytes out) := by
  induction fuel generalizing bytes out with
  | zero => cases bytes <;> first | exact .pure _ | exact .throw _
  | succ fuel ih =>
    cases bytes with
    | nil => exact .pure _
    | cons b bytes =>
      refine .bind (guarantees_tryDccl (guarantees_decodeOne hrule _)) fun r => ?_
      cases r with
      | error e =>
        dsimp only
        split
        · exact .throw _
        · exact .pure _
      | ok m =>
        refine .bind .get fun s => ?_
        split
        · exact .pure _
        · exact ih _ _

end

end Reading

structure Quiet (s s' : QueueManager Desc Msg) : Prop where
  queues : s'.queues = s.queues
  waiting : s'.waitingForAck = s.waitingForAck
  modemId : s'.modemId = s.modemId
  log : s'.log = s.log

instance : IsPreorder (QueueManager Desc Msg) Quiet where
  refl _ := ⟨rfl, rfl, rfl, rfl⟩
  trans _ _ _ h h' := ⟨h'.queues.trans h.queues, h'.waiting.trans h.waiting,
    h'.modemId.trans h.modemId, h'.log.trans h.log⟩

theorem Quiet.reaches (h : Quiet s s') : Reaches env P s s' :=
  fun _ => ⟨[], .single (.signals (by simp) h.queues h.waiting), by simp [h.log], by simp⟩

theorem quiet_setReadings (n : ℕ) : Guarantees Quiet (setReadings n : Code Desc Msg Unit) :=
  .modify fun _ => ⟨rfl, rfl, rfl, rfl⟩

theorem quiet_applyRule [DecidableEq Desc] (modem : ℤ) : Guarantees Quiet (applyRule env modem) := by
  refine .modify fun s => ?_
  split
  · exact refl_of Quiet s
  · exact ⟨rfl, rfl, rfl, rfl⟩

theorem quiet_validate [DecidableEq Desc] (desc : Desc) : Guarantees Quiet (validate env desc) := by
  refine .get_bind fun s => ?_
  split
  · exact .throw (refl_of Quiet s)
  · exact .set ⟨rfl, rfl, rfl, rfl⟩

theorem reaches_of_quiet {m : Code Desc Msg α} (h : Guarantees Quiet m) :
    Guarantees (Reaches env P) m := h.mono fun _ _ h => h.reaches

def IsPush : Event Msg → Prop
  | .queue _ (.stored _ _) | .queue _ (.evicted _) | .queueSizeChange _ _ | .signalReceive _
  | .signalAck _ none _ | .dataOnDemand _ => True
  | _ => False

theorem Reaches.ensures {m : Code Desc Msg α} {s₀ s : QueueManager Desc Msg}
    (h₀ : Reaches env P s₀ s) (h : Reaches env P s (finalState m s)) :
    Ensures m s (fun _ => Reaches env P s₀) (fun _ => Reaches env P s₀) :=
  .of_finalState (trans_of (Reaches env P) h₀ h)

theorem pushOnQueue_reaches {s : QueueManager Desc Msg}
    (hq : s.queues[k]? = some q) (msg : Msg) (given : QueuedMessageMeta) :
    Reaches env IsPush s (finalState (pushOnQueue env k q msg given) s) := by
  intro hs
  generalize hr : q.pushMessage (s.parent env k) env.clock s.readings msg given = r
  have hd : r.queue.desc = q.desc := hr ▸ Queue.pushMessage_desc q _ _ _ _ _
  have hes : ∀ e ∈ r.events, ∃ it, e = .stored it msg ∨ e = .evicted it :=
    hr ▸ Queue.pushMessage_events q _ _ _ _ _
  have hwf : q.Wf := hs.queue_wf hq
  let signals : List (Event Msg) := r.received.map .signalReceive ++
    r.acked.toList.map (fun ack => .signalAck ack none msg)
  have hsig : ∀ e ∈ signals, e.isSignal ∧ IsPush e := by
    intro e he
    rcases List.mem_append.mp he with he | he <;> obtain ⟨x, -, rfl⟩ := List.mem_map.mp he <;>
      exact ⟨rfl, trivial⟩
  have hrun : pushOnQueue env k q msg given s = .ok () { s with
      readings := r.readings
      queues := s.queues.insert k r.queue
      log := s.log ++ (signals ++ r.events.map (.queue k) ++ [.queueSizeChange k r.queue.size]) } := by
    simp [pushOnQueue, setReadings, emit, putQueue, qsize, getQueue, hr, hd, hs.ids k q hq, signals]
  rw [finalState, hrun]
  refine ⟨_, .single (.reported (q := q) ⟨hq, .of_insert rfl, hd, hr ▸ Queue.pushMessage_moves hwf _ _ _ _ _⟩ ?_
    (fun e he => (hsig e he).1) rfl), rfl, ?_⟩
  · intro e he
    obtain ⟨it, rfl | rfl⟩ := hes e he <;> rfl
  · intro e he
    rcases List.mem_append.mp he with he | he
    · rcases List.mem_append.mp he with he | he
      · exact (hsig e he).2
      · obtain ⟨x, hx, rfl⟩ := List.mem_map.mp he
        obtain ⟨it, rfl | rfl⟩ := hes x hx <;> trivial
    · rw [List.mem_singleton.mp he]
      trivial

theorem quiet_pushMeta (q : Queue Desc Msg) (msg : Msg) (given : Option QueuedMessageMeta) :
    Guarantees Quiet (pushMeta env q msg given) := by
  cases given with
  | some m => exact .pure _
  | none => exact .bind .get fun _ => reads_lift _

theorem pushMessage_reaches (msg : Msg) (given : Option QueuedMessageMeta) :
    Guarantees (Reaches env IsPush) (pushMessage env msg given) := by
  refine .get_bind fun s => ?_
  split
  · exact .throw (refl_of (Reaches env IsPush) s)
  next q hq =>
    refine .bind (((quiet_pushMeta q msg given).ensures s).mono (fun m s' h => ?_)
      (fun _ _ h => h.reaches))
    exact h.reaches.ensures (pushOnQueue_reaches (h.queues ▸ hq) msg m)

def IsFlush : Event Msg → Prop
  | .queue _ (.flushed _) | .queueSizeChange _ _ => True
  | _ => False

theorem flushQueue_reaches (dcclId : ℕ) :
    Guarantees (Reaches env IsFlush) (flushQueue env dcclId) := by
  refine .get_bind fun s => ?_
  split
  · exact .pure (refl_of (Reaches env IsFlush) s)
  next q hq =>
    refine .of_finalState fun hs => ?_
    have hrun : (do putQueue dcclId q.flush (q.messages.addrs.map .flushed); qsize env dcclId) s =
        .ok () { s with
          queues := s.queues.insert dcclId q.flush
          log := s.log ++ ([] ++ (q.messages.addrs.map .flushed).map (.queue dcclId) ++
            [.queueSizeChange dcclId q.flush.size]) } := by
      simp [putQueue, qsize, getQueue, emit, Queue.flush, hs.ids dcclId q hq]
    rw [finalState, hrun]
    have hwf : q.Wf := hs.queue_wf hq
    refine ⟨_, .single (.reported (q := q) ⟨hq, .of_insert rfl, rfl, Queue.flush_moves hwf⟩ ?_ (by simp) rfl),
      rfl, ?_⟩
    · intro e he
      obtain ⟨x, -, rfl⟩ := List.mem_map.mp he
      rfl
    · intro e he
      simp only [List.nil_append, List.mem_append, List.mem_map, List.mem_singleton] at he
      obtain ⟨x, ⟨y, -, rfl⟩, rfl⟩ | rfl := he <;> trivial

structure Signals (P : Event Msg → Prop) (s s' : QueueManager Desc Msg) : Prop where
  queues : s'.queues = s.queues
  waiting : s'.waitingForAck = s.waitingForAck
  modemId : s'.modemId = s.modemId
  log : ∃ es, s'.log = s.log ++ es ∧ ∀ e ∈ es, e.isSignal ∧ P e

instance : IsPreorder (QueueManager Desc Msg) (Signals P) where
  refl s := ⟨rfl, rfl, rfl, [], by simp, by simp⟩
  trans s s₁ s₂ h h' := by
    obtain ⟨es, hlog, hes⟩ := h.log
    obtain ⟨fs, hlog', hfs⟩ := h'.log
    refine ⟨h'.queues.trans h.queues, h'.waiting.trans h.waiting, h'.modemId.trans h.modemId,
      es ++ fs, by rw [hlog', hlog, List.append_assoc], ?_⟩
    exact List.forall_mem_append.mpr ⟨hes, hfs⟩

theorem Signals.reaches (h : Signals P s s') : Reaches env P s s' := by
  obtain ⟨es, hlog, hes⟩ := h.log
  exact .step (.signals (fun e he => (hes e he).1) h.queues h.waiting) hlog (fun e he => (hes e he).2)

theorem Signals.mono (hp : ∀ e, P e → P' e) (h : Signals P s s') : Signals P' s s' := by
  obtain ⟨es, hlog, hes⟩ := h.log
  exact ⟨h.queues, h.waiting, h.modemId, es, hlog, fun e he => ⟨(hes e he).1, hp e (hes e he).2⟩⟩

theorem emit_signals (hes : ∀ e ∈ es, e.isSignal ∧ P e) :
    Guarantees (Signals P) (emit es : Code Desc Msg Unit) :=
  .modify fun _ => ⟨rfl, rfl, rfl, es, rfl, hes⟩

theorem emit_reaches (hes : ∀ e ∈ es, e.isSignal ∧ P e) :
    Guarantees (Reaches env P) (emit es : Code Desc Msg Unit) :=
  (emit_signals hes).mono fun _ _ h => h.reaches

theorem signals_of_quiet {m : Code Desc Msg α} (h : Guarantees Quiet m) : Guarantees (Signals P) m :=
  h.mono fun _ _ h => ⟨h.queues, h.waiting, h.modemId, [], by simp [h.log], by simp⟩

def IsReception : Event Msg → Prop
  | .signalReceive _ | .inRoute _ _ _ => True
  | _ => False

theorem createNetworkAck_signals (ackSrc : ℤ) (orig : Msg) (ackType : AckType) :
    Guarantees (Signals IsReception) (createNetworkAck env ackSrc orig ackType) := by
  unfold createNetworkAck
  split
  · exact .pure _
  · refine .bind .get fun s => .bind (reads_metaFromMsg _) fun m => ?_
    split
    · exact .pure _
    · refine .bind (reads_metaFromMsg _) fun ackMeta => ?_
      split <;> exact emit_signals (by simp [Event.isSignal, IsReception])

theorem acknowledgeSource_signals (ackSrc : ℤ) (orig : Msg) (ackType : AckType) :
    Guarantees (Signals IsReception) (acknowledgeSource env ackSrc orig ackType) := by
  refine .bind (reads_metaFromMsg _) fun m => .bind .get fun s => ?_
  split
  · exact createNetworkAck_signals _ _ _
  · exact .pure _

def IsExpiry : Event Msg → Prop
  | .queue _ (.expired _ _) | .signalExpire _ _ | .signalReceive _ | .inRoute _ _ _ => True
  | _ => False

theorem IsReception.isExpiry {e : Event Msg} (h : IsReception e) : IsExpiry e := by
  cases e <;> first | exact h.elim | trivial

theorem signalExpired_signals (k : ℕ) (expired : List (ℕ × Msg)) :
    Guarantees (Signals IsExpiry) (signalExpired env k expired) := by
  induction expired with
  | nil => exact .pure _
  | cons e rest ih =>
    refine .bind (emit_signals (by simp [Event.isSignal, IsExpiry])) fun _ => .bind .get fun s => ?_
    exact .bind ((acknowledgeSource_signals _ _ _).mono fun _ _ h => h.mono fun _ => (·.isExpiry))
      fun _ => ih

theorem getQueue_run {s : QueueManager Desc Msg}
    (h : s.queues[k]? = some q) : getQueue k s = .ok q s := by simp [getQueue, h]

/-- A change of one queue that raises no signal and is logged as it is. -/
theorem unreported_reaches {q q' : Queue Desc Msg}
    {es : List (QueueEvent Msg)} (h : Changes s s' k q q' es) (hes : ∀ e ∈ es, e.isUnreported)
    (hp : ∀ e ∈ es, P (.queue k e)) (hw : s'.waitingForAck = s.waitingForAck)
    (hlog : s'.log = s.log ++ es.map (.queue k)) : Reaches env P s s' := by
  refine .step (.unreported h hes hw) hlog ?_
  intro e he
  obtain ⟨x, hx, rfl⟩ := List.mem_map.mp he
  exact hp x hx

/-- The queue without the messages that have expired. -/
def withoutExpired (s : QueueManager Desc Msg) (k : ℕ) (x : List (ℕ × Msg) × Queue Desc Msg × ℕ) :
    QueueManager Desc Msg :=
  { s with
    readings := x.2.2
    queues := s.queues.insert k x.2.1
    log := s.log ++ (x.1.map (fun e => QueueEvent.expired e.1 e.2)).map (.queue k) }

theorem expireQueue_run (hq : s.queues[k]? = some q) :
    expireQueue env k s = signalExpired env k (q.expire env.clock s.readings).1
      (s.withoutExpired k (q.expire env.clock s.readings)) := by
  simp only [expireQueue, setReadings, putQueue, run_bind, run_get, run_modify, getQueue_run hq, withoutExpired]

theorem expireQueue_reaches (k : ℕ) : Guarantees (Reaches env IsExpiry) (expireQueue env k) := by
  intro s hs
  cases hq : s.queues[k]? with
  | none => simpa [finalState, expireQueue, getQueue, hq] using refl_of (Reaches env IsExpiry) s hs
  | some q =>
    have hmoves := Queue.expire_moves (hs.queue_wf hq) env.clock s.readings
    have hdesc := Queue.expire_desc q env.clock s.readings
    rw [finalState, expireQueue_run hq]
    generalize q.expire env.clock s.readings = x at hmoves hdesc
    have hstep : Reaches env IsExpiry s (s.withoutExpired k x) := by
      refine unreported_reaches ⟨hq, .of_insert rfl, hdesc, hmoves⟩ ?_ ?_ rfl rfl <;>
      · intro e he
        obtain ⟨y, -, rfl⟩ := List.mem_map.mp he
        trivial
    exact trans_of (Reaches env IsExpiry) hstep (signalExpired_signals k x.1 _).reaches hs

theorem expireQueues_reaches (ks : List ℕ) :
    Guarantees (Reaches env IsExpiry) (expireQueues env ks) := by
  induction ks with
  | nil => exact .pure _
  | cons k rest ih => exact .bind (expireQueue_reaches k) fun _ => ih

theorem doWork_reaches : Guarantees (Reaches env IsExpiry) (doWork env) :=
  .bind .get fun _ => expireQueues_reaches _

end Goby.QueueManager
