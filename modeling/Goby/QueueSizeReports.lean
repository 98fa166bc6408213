import Goby.QueueManagerRuns

/-! Whenever the length of a queue changes the manager ought to report it. Every step does,
except the one that expires messages: after `do_work` has expired a message, the size
reported last is too large until another message comes or goes. -/

namespace Goby

namespace Event

variable {Msg : Type} {es : List (Event Msg)}

def reportOf (k : ℕ) : Event Msg → Option ℕ
  | queueSizeChange j n => if j = k then some n else none
  | _ => none

def lastReport (k : ℕ) (es : List (Event Msg)) : Option ℕ := (es.filterMap (reportOf k)).getLast?

@[simp] theorem lastReport_nil (k : ℕ) : lastReport k ([] : List (Event Msg)) = none := rfl

theorem lastReport_append (k : ℕ) (es fs : List (Event Msg)) :
    lastReport k (es ++ fs) = (lastReport k fs).or (lastReport k es) := by
  simp [lastReport, List.getLast?_append]

theorem lastReport_cons (k : ℕ) (e : Event Msg) (es : List (Event Msg)) :
    lastReport k (e :: es) = (lastReport k es).or (reportOf k e) := by
  rw [← List.singleton_append, lastReport_append]
  cases h : reportOf k e <;> simp [lastReport, h]

theorem lastReport_eq_none {k : ℕ} (h : ∀ j n, .queueSizeChange j n ∉ es) :
    lastReport k es = none := by
  have hnil : es.filterMap (reportOf k) = [] := by
    apply List.filterMap_eq_nil_iff.mpr
    intro e he
    cases e with
    | queueSizeChange j n => exact absurd he (h j n)
    | _ => rfl
  rw [lastReport, hnil]
  rfl

theorem lastReport_reported (k j n : ℕ)
    (h : ∀ i m, .queueSizeChange i m ∉ es) :
    lastReport k (es ++ [.queueSizeChange j n]) = if j = k then some n else none := by
  rw [lastReport_append, lastReport_eq_none h]
  by_cases hj : j = k <;> simp [lastReport, reportOf, hj]

end Event

namespace QueueManager

variable {Desc Msg : Type} {env : Environment Desc Msg} {s s' : QueueManager Desc Msg}
  {r : ℕ → Option ℕ} {es : List (Event Msg)} {q : Queue Desc Msg} {k : ℕ}

open Event (lastReport)

/-- The reports `r` say how long each queue is. -/
def Current (r : ℕ → Option ℕ) (s : QueueManager Desc Msg) : Prop :=
  ∀ k q, s.queues[k]? = some q → r k = some q.size

theorem Current.of_queues {r r' : ℕ → Option ℕ} (h : Current r s)
    (hq : s'.queues = s.queues) (hr : ∀ k, r' k = r k) : Current r' s' := by
  intro k q hk
  rw [hr]
  exact h k q (hq ▸ hk)

theorem Current.of_inserted {r r' : ℕ → Option ℕ} (h : Current r s) (hq : Inserted s s' k q)
    (hk : r' k = some q.size)
    (hother : ∀ j, j ≠ k → r' j = r j) : Current r' s' := by
  intro j p hp
  rw [hq j] at hp
  split at hp
  next hj =>
    subst hj
    cases hp
    exact hk
  next hj =>
    rw [hother j (Ne.symm hj)]
    exact h j p hp

theorem Changes.size_eq {q q' : Queue Desc Msg}
    {es : List (QueueEvent Msg)} (h : Changes s s' k q q' es)
    (hes : ∀ e ∈ es, e.removes = none ∧ e.isStored = false) : q'.size = q.size := by
  have hsize := h.moves.size
  have hr : es.countP (fun e => e.removes.isSome) = 0 :=
    List.countP_eq_zero.mpr fun e he => by simp [(hes e he).1]
  have hs : es.countP QueueEvent.isStored = 0 :=
    List.countP_eq_zero.mpr fun e he => by simp [(hes e he).2]
  rw [hr, hs] at hsize
  exact hsize

theorem Current.reported (h : Current r s) (hq : Inserted s s' k q)
    (hes : ∀ j n, .queueSizeChange j n ∉ es) :
    Current (fun j => (lastReport j (es ++ [.queueSizeChange k q.size])).or (r j)) s' := by
  refine h.of_inserted hq ?_ fun j hj => ?_
  · rw [Event.lastReport_reported _ _ _ hes, if_pos rfl, Option.some_or]
  · rw [Event.lastReport_reported _ _ _ hes, if_neg (Ne.symm hj), Option.none_or]

theorem Current.unreported {q q' : Queue Desc Msg} {moves : List (QueueEvent Msg)} (h : Current r s)
    (hq : Changes s s' k q q' moves) (hsize : q'.size = q.size)
    (hes : ∀ j n, .queueSizeChange j n ∉ es) : Current (fun j => (lastReport j es).or (r j)) s' := by
  refine h.of_inserted hq.after ?_ fun j _ => ?_
  · rw [Event.lastReport_eq_none hes, Option.none_or, hsize]
    exact h k q hq.before
  · rw [Event.lastReport_eq_none hes, Option.none_or]

/-- Reports stay current along every step that expires no message. -/
theorem Step.current
    (h : Step env s es s') (hes : ∀ k it msg, .queue k (.expired it msg) ∉ es) (hr : Current r s) :
    Current (fun k => (lastReport k es).or (r k)) s' := by
  have hsilent : ∀ {es : List (Event Msg)}, (∀ e ∈ es, e.isSignal) →
      ∀ j n, .queueSizeChange j n ∉ es := by
    intro es h j n hm
    simpa [Event.isSignal] using h _ hm
  cases h with
  | signals hsig hq hw =>
    refine hr.of_queues hq fun k => ?_
    rw [Event.lastReport_eq_none (hsilent hsig), Option.none_or]
  | @reported _ k q q' es before h hes' hb hw =>
    refine hr.reported h.after fun j n hm => ?_
    rcases List.mem_append.mp hm with hm | hm
    · exact hsilent hb j n hm
    · simp at hm
  | @unreported _ k q q' es h hes' hw =>
    refine hr.unreported h (h.size_eq fun e he => ?_) (by simp)
    have hu := hes' e he
    cases e with
    | expired it msg => exact absurd (List.mem_map_of_mem he) (hes k it msg)
    | ackCleared it frame => exact ⟨rfl, rfl⟩
    | _ => simp [QueueEvent.isUnreported] at hu
  | @sentForAck _ k it frame msg q q' after h hack ha hw =>
    refine hr.unreported h (h.size_eq fun e he => ?_) fun j n hm => ?_
    · rw [List.mem_singleton.mp he]
      exact ⟨rfl, rfl⟩
    · rcases List.mem_cons.mp hm with hm | hm
      · cases hm
      · exact hsilent ha j n hm
  | @sent _ k it frame msg q q' after h ha hw =>
    have hsplit : (.queue k (.gave it frame msg) :: (after ++ [.queue k (.popped it frame),
        .queueSizeChange k q'.size]) : List (Event Msg)) =
        (.queue k (.gave it frame msg) :: (after ++ [.queue k (.popped it frame)])) ++
          [.queueSizeChange k q'.size] := by simp
    rw [hsplit]
    refine hr.reported h.after fun j n hm => ?_
    simp only [List.mem_cons, List.mem_append, List.not_mem_nil, or_false, reduceCtorEq,
      false_or] at hm
    exact hsilent ha j n hm
  | @acked _ k it frame q q' ack msg h hw =>
    refine hr.of_inserted h.after ?_ fun j hj => ?_
    · simp [Event.lastReport_cons, Event.reportOf]
    · simp [Event.lastReport_cons, Event.reportOf, Ne.symm hj]
  | forgot hq hw ha => exact hr.of_queues hq fun k => by simp
  | @added _ k q hn hq hc hid hw =>
    have hsize : q.size = 0 := by
      have hm : q.messages = StableList.empty := congrArg Contents.messages hc
      rw [Queue.size, hm]
      rfl
    rw [← hsize]
    exact hr.reported hq fun _ _ => List.not_mem_nil

theorem Steps.current
    (h : Steps env s es s') (hes : ∀ k it msg, .queue k (.expired it msg) ∉ es) (hr : Current r s) :
    Current (fun k => (lastReport k es).or (r k)) s' := by
  induction h generalizing r with
  | refl => exact hr.of_queues rfl fun k => by simp
  | @step s s₁ s₂ es fs h t ih =>
    have h₁ := h.current (fun k it msg hm => hes k it msg (List.mem_append_left _ hm)) hr
    have h₂ := ih (fun k it msg hm => hes k it msg (List.mem_append_right _ hm)) h₁
    refine h₂.of_queues rfl fun k => ?_
    rw [Event.lastReport_append, Option.or_assoc]

/-- No queue's oldest message has outlived its time at the clock reading made for it.
The clock is not read for an empty queue. -/
def noneExpires (env : Environment Desc Msg) (s : QueueManager Desc Msg) : List ℕ → ℕ → Bool
  | [], _ => true
  | k :: rest, n =>
    match s.queues[k]?.bind (fun q => q.messages.front?.map (fun m => q.isExpired m.2 (env.clock n))) with
    | none => noneExpires env s rest n
    | some expired => !expired && noneExpires env s rest (n + 1)

theorem noneExpires_congr (h : ∀ j : ℕ, s'.queues[j]? = s.queues[j]?)
    (ks : List ℕ) (n : ℕ) : noneExpires env s' ks n = noneExpires env s ks n := by
  induction ks generalizing n with
  | nil => rfl
  | cons k rest ih => simp only [noneExpires, h, ih]

theorem noneExpires_begin (s : QueueManager Desc Msg) (ks : List ℕ) (n : ℕ) :
    noneExpires env s.begin ks n = noneExpires env s ks n := by
  apply noneExpires_congr
  intro j
  rfl

theorem expireQueues_pass {k n : ℕ}
    (hq : s.queues[k]? = some q) (hx : q.expire env.clock s.readings = ([], q, n)) (rest : List ℕ) :
    ∃ s', finalState (expireQueues env (k :: rest)) s = finalState (expireQueues env rest) s' ∧
      (∀ j : ℕ, s'.queues[j]? = s.queues[j]?) ∧ s'.readings = n ∧ s'.log = s.log ∧
      (Inv env s → Inv env s') := by
  have hins : Inserted s (s.withoutExpired k ([], q, n)) k q := .of_insert rfl
  have hrun : expireQueue env k s = .ok () (s.withoutExpired k ([], q, n)) := by
    rw [expireQueue_run hq, hx]
    rfl
  refine ⟨s.withoutExpired k ([], q, n), ?_, ?_, rfl, List.append_nil _, ?_⟩
  · simp only [finalState, expireQueues, run_bind, hrun]
  · intro j
    rw [hins j]
    split
    next hj => rw [← hj, hq]
    next => rfl
  · exact (Step.unreported ⟨hq, hins, rfl, .refl _⟩ (by simp) rfl).inv

theorem expireQueue_expired
    (hq : s.queues[k]? = some q) {m : ℕ × QueuedMessage Msg} (hf : q.messages.front? = some m)
    (hx : q.isExpired m.2 (env.clock s.readings) = true) :
    .queue k (.expired m.1 m.2.dcclMsg) ∈ (finalState (expireQueue env k) s).log := by
  obtain ⟨rest, hrest⟩ := Queue.expire_of_expired hf hx
  rw [finalState, expireQueue_run hq]
  generalize q.expire env.clock s.readings = x at hrest
  obtain ⟨es, hlog, -⟩ := (signalExpired_signals k x.1 (s.withoutExpired k x)).log
  rw [← finalState, hlog]
  simp [withoutExpired, hrest]

theorem mem_log_bind {α β : Type} {P : Event Msg → Prop} {m : Code Desc Msg α}
    {f : α → Code Desc Msg β} (hm : Guarantees (Reaches env P) m)
    (hf : ∀ a, Guarantees (Reaches env P) (f a)) (hs : Inv env s)
    {e : Event Msg} (he : e ∈ (finalState m s).log) : e ∈ (finalState (m >>= f) s).log := by
  have hinv := (hm s).inv hs
  simp only [finalState, run_bind] at he hinv ⊢
  cases hrun : m s with
  | error e' s₁ => simpa only [hrun] using he
  | ok a s₁ =>
    rw [hrun] at he hinv
    obtain ⟨es, -, hlog, -⟩ := hf a s₁ hinv
    have hgrow : e ∈ (finalState (f a) s₁).log := by
      rw [hlog]
      exact List.mem_append_left _ he
    exact hgrow

/-- What expires is logged, and nothing else. -/
theorem expireQueues_logged (ks : List ℕ) (hs : Inv env s)
    (hks : ∀ k ∈ ks, ∃ q, s.queues[k]? = some q) :
    if noneExpires env s ks s.readings then (finalState (expireQueues env ks) s).log = s.log
    else ∃ k it msg, .queue k (.expired it msg) ∈ (finalState (expireQueues env ks) s).log := by
  induction ks generalizing s with
  | nil => rfl
  | cons k rest ih =>
    obtain ⟨q, hq⟩ := hks k List.mem_cons_self
    have hpass : ∀ n, q.expire env.clock s.readings = ([], q, n) →
        noneExpires env s (k :: rest) s.readings = noneExpires env s rest n →
        if noneExpires env s (k :: rest) s.readings then
          (finalState (expireQueues env (k :: rest)) s).log = s.log
        else ∃ j it msg, .queue j (.expired it msg) ∈
          (finalState (expireQueues env (k :: rest)) s).log := by
      intro n hx hnone
      obtain ⟨s', hfinal, hsame, rfl, hlog, hinv⟩ := expireQueues_pass hq hx rest
      have hrest := ih (hinv hs) fun j hj => hsame j ▸ hks j (List.mem_cons_of_mem _ hj)
      rw [noneExpires_congr hsame, hlog] at hrest
      rwa [hfinal, hnone]
    cases hf : q.messages.front? with
    | none => exact hpass _ (Queue.expire_of_empty hf _ _) (by simp [noneExpires, hq, hf])
    | some m =>
      cases hx : q.isExpired m.2 (env.clock s.readings) with
      | false => exact hpass _ (Queue.expire_of_not_expired hf hx) (by simp [noneExpires, hq, hf, hx])
      | true =>
        rw [if_neg (by simp [noneExpires, hq, hf, hx])]
        exact ⟨k, m.1, _, mem_log_bind (expireQueue_reaches k) (fun _ => expireQueues_reaches rest) hs
          (expireQueue_expired hq hf hx)⟩

def KeepsSizes (env : Environment Desc Msg) (s : QueueManager Desc Msg) : Call Msg → Prop
  | .doWork => noneExpires env s s.queues.keys s.readings = true
  | _ => True

def SizesCurrent (t : Run Desc Msg) : Prop := Current (fun k => lastReport k t.events) t.state

theorem IsRequest.not_expired {start count k it : ℕ} {msg : Msg} :
    ¬IsRequest start count (.queue k (.expired it msg)) := by
  intro h
  cases h with
  | inl h => exact h
  | inr h => exact h

/-- A message that expires makes its queue shorter, and no size is reported. -/
theorem not_current_of_expired (h : Steps env s es s') (hes : ∀ e ∈ es, IsExpiry e) {k it : ℕ}
    {msg : Msg} (hx : .queue k (.expired it msg) ∈ es) (hr : Current r s) :
    ¬Current (fun k => (lastReport k es).or (r k)) s' := by
  intro hr'
  have hsize := (h.project k).size
  have hstored : (Event.queueEvents k es).countP QueueEvent.isStored = 0 := by
    apply List.countP_eq_zero.mpr
    intro e he
    have hexp := hes _ (Event.mem_queueEvents.mp he)
    cases e <;> simp_all [IsExpiry, QueueEvent.isStored]
  have hremoved : 0 < (Event.queueEvents k es).countP (fun e => e.removes.isSome) :=
    List.countP_pos_iff.mpr ⟨_, Event.mem_queueEvents.mpr hx, rfl⟩
  cases hq : s.queues[k]? with
  | none =>
    rw [contents_of_none hq] at hsize
    have hzero : (({} : Contents Msg).messages).size = 0 := rfl
    omega
  | some q =>
    obtain ⟨q', hq', -⟩ := h.queue_stays hq
    have hnone : lastReport k es = none := by
      apply Event.lastReport_eq_none
      intro j n hm
      exact hes _ hm
    have hboth := hr' k q' hq'
    simp only [hnone, Option.none_or, hr k q hq, Option.some.injEq] at hboth
    rw [contents_eq hq, contents_eq hq'] at hsize
    change q'.size + _ = q.size + _ at hsize
    omega

variable [DecidableEq Desc]

theorem record_doWork (hs : Inv env s) :
    if noneExpires env s s.queues.keys s.readings then (record env s .doWork).events = []
    else ∃ k it msg, .queue k (.expired it msg) ∈ (record env s .doWork).events := by
  have hlogged := expireQueues_logged s.queues.keys hs.begin fun k hk =>
    ⟨_, Std.TreeMap.getElem?_eq_some_getElem (Std.TreeMap.mem_keys.mp hk)⟩
  have hfinal : finalState (code env .doWork) s.begin =
      finalState (expireQueues env s.queues.keys) s.begin := by
    have hrun : doWork env s.begin = expireQueues env s.queues.keys s.begin := rfl
    simp only [code, finalState, run_bind, hrun]
    cases expireQueues env s.queues.keys s.begin <;> rfl
  rw [noneExpires_begin] at hlogged
  rw [Record.events, record_after, hfinal]
  exact hlogged

theorem not_expired_of_keepsSizes (hs : Inv env s) {c : Call Msg}
    (h : KeepsSizes env s c) (k it : ℕ) (msg : Msg) :
    .queue k (.expired it msg) ∉ (record env s c).events := by
  intro hm
  have hallows := (record_steps hs c).2 _ hm
  cases c with
  | doWork =>
    have hnone := record_doWork hs
    rw [KeepsSizes] at h
    rw [if_pos h] at hnone
    simp [hnone] at hm
  | handleModemDataRequest fuel request => exact IsRequest.not_expired hallows
  | _ => exact hallows

theorem extend_sizesCurrent_iff {t : Run Desc Msg} (hinv : Inv env t.state) (ht : SizesCurrent t)
    (c : Call Msg) : SizesCurrent (t.extend env c) ↔ KeepsSizes env t.state c := by
  obtain ⟨hsteps, hallows⟩ := record_steps hinv c
  have hreports : SizesCurrent (t.extend env c) ↔
      Current (fun k => (lastReport k (record env t.state c).events).or (lastReport k t.events))
        (record env t.state c).after := by
    simp only [SizesCurrent, extend_events, extend_state, Event.lastReport_append]
  have hbegin : Current (fun k => lastReport k t.events) t.state.begin := ht.of_queues rfl fun _ => rfl
  rw [hreports]
  constructor
  · intro hcur
    cases c with
    | doWork =>
      by_contra hkeeps
      have hexpired := record_doWork hinv
      rw [KeepsSizes] at hkeeps
      rw [if_neg hkeeps] at hexpired
      obtain ⟨k, it, msg, hx⟩ := hexpired
      exact not_current_of_expired hsteps hallows hx hbegin hcur
    | _ => trivial
  · intro hkeeps
    exact hsteps.current (not_expired_of_keepsSizes hinv hkeeps) hbegin

/-- The reported sizes are current in every state of a run exactly if no call of `do_work`
finds a message to expire. -/
theorem sizesCurrent_run_iff (env : Environment Desc Msg) (modemId : ℤ) (codec : DcclCodec Desc)
    (calls : List (Call Msg)) :
    (∀ before, before <+: calls → SizesCurrent (run env (initial modemId codec) before)) ↔
      ∀ before c, before ++ [c] <+: calls →
        KeepsSizes env (stateAfter env modemId codec before) c := by
  constructor
  · intro h before c hc
    have hbefore := h before ((List.prefix_append _ _).trans hc)
    have hafter := h _ hc
    rw [run_append_singleton] at hafter
    exact (extend_sizesCurrent_iff (inv_stateAfter modemId codec before) hbefore c).mp hafter
  · intro h before hc
    induction before using List.reverseRecOn with
    | nil =>
      intro k q hq
      simp [initial] at hq
    | append_singleton before c ih =>
      rw [run_append_singleton]
      have hbefore := ih ((List.prefix_append _ _).trans hc)
      exact (extend_sizesCurrent_iff (inv_stateAfter modemId codec before) hbefore c).mpr (h _ _ hc)

/-- A message pushed by node 1 has passed its time to live when `do_work` is called. -/
def expiryCalls : List (Call SampleMsg) :=
  [.setCfg { modemId := some 1, messageEntry := [{ sampleEntry with ttl := 60 }] },
    .pushMessage { src := 1, dest := 3, body := 7 } none,
    .doWork]

/-- The size reported last is 1, and the queue is empty. -/
theorem sizesCurrent_fails :
    ¬SizesCurrent (run { sampleEnvironment with clock := fun n => 90000000 * n }
      (initial 0 sampleCodec) expiryCalls) := by
  let t := run { sampleEnvironment with clock := fun n => 90000000 * n } (initial 0 sampleCodec)
    expiryCalls
  have hreport : lastReport 1 t.events = some 1 := by decide +kernel
  have hsize : t.state.queues[1]?.map Queue.size = some 0 := by decide +kernel
  intro h
  obtain ⟨q, hq, hzero⟩ := Option.map_eq_some_iff.mp hsize
  have hone := h 1 q hq
  rw [hzero] at hone
  exact absurd (hreport.symm.trans hone) (by decide)

end QueueManager
end Goby
