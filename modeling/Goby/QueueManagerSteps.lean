import Goby.QueueInvariant
import Goby.QueueManagerOperations

/-! Seen from outside, the manager only ever takes a few kinds of steps: it raises signals,
changes one queue and reports the size, clears acknowledgments or expires messages of
one queue, sends a message, removes an acknowledged one, forgets entries of its own list,
or adds a queue. Each step comes with the events it raises. Every step keeps the
invariant, and what the steps do to one queue is a sequence of moves. -/

namespace Goby

namespace QueueEvent

variable {Msg : Type}

/-- Events of messages that come and go on one queue alone, with a report of its size. -/
def isLocal : QueueEvent Msg → Bool
  | stored _ _ | evicted _ | flushed _ => true
  | _ => false

/-- Events that are not followed by a report of the size. -/
def isUnreported : QueueEvent Msg → Bool
  | expired _ _ | ackCleared _ _ => true
  | _ => false

end QueueEvent

namespace Event

variable {Msg : Type} {k : ℕ} {es : List (Event Msg)} {e : QueueEvent Msg}

/-- Signals that say nothing of a message leaving on an acknowledgment or of a size. -/
def isSignal : Event Msg → Bool
  | signalReceive _ | signalAck _ none _ | signalExpire _ _ | dataOnDemand _ | inRoute _ _ _ => true
  | queue _ _ | signalAck _ (some _) _ | queueSizeChange _ _ => false

def ofQueue (k : ℕ) : Event Msg → Option (QueueEvent Msg)
  | queue j e => if j = k then some e else none
  | _ => none

theorem ofQueue_eq_some {x : Event Msg} : x.ofQueue k = some e ↔ x = .queue k e := by
  cases x <;> simp [ofQueue]

def queueEvents (k : ℕ) (es : List (Event Msg)) : List (QueueEvent Msg) := es.filterMap (ofQueue k)

@[simp] theorem queueEvents_nil (k : ℕ) : queueEvents k ([] : List (Event Msg)) = [] := rfl

@[simp] theorem queueEvents_append (k : ℕ) (es fs : List (Event Msg)) :
    queueEvents k (es ++ fs) = queueEvents k es ++ queueEvents k fs := List.filterMap_append

@[simp] theorem queueEvents_queue (k j : ℕ) (e : QueueEvent Msg) (es : List (Event Msg)) :
    queueEvents k (.queue j e :: es) = (if j = k then [e] else []) ++ queueEvents k es := by
  by_cases h : j = k <;> simp [queueEvents, ofQueue, h]

@[simp] theorem queueEvents_sizeChange (k j n : ℕ) (es : List (Event Msg)) :
    queueEvents k (.queueSizeChange j n :: es) = queueEvents k es := rfl

@[simp] theorem queueEvents_signalAck (k : ℕ) (ack : ModemTransmission) (o : Option (ℕ × ℕ)) (m : Msg)
    (es : List (Event Msg)) : queueEvents k (.signalAck ack o m :: es) = queueEvents k es := rfl

theorem queueEvents_signals (h : ∀ e ∈ es, e.isSignal) : queueEvents k es = [] := by
  apply List.filterMap_eq_nil_iff.mpr
  intro e he
  have := h e he
  cases e <;> simp_all [isSignal, ofQueue]

@[simp] theorem queueEvents_map (k j : ℕ) (es : List (QueueEvent Msg)) :
    queueEvents k (es.map (Event.queue j) : List (Event Msg)) = if j = k then es else [] := by
  by_cases h : j = k <;> simp [queueEvents, List.filterMap_map, Function.comp_def, ofQueue, h]

theorem mem_queueEvents : e ∈ queueEvents k es ↔ .queue k e ∈ es := by
  simp only [queueEvents, List.mem_filterMap, ofQueue_eq_some]
  simp

end Event

open Contents (Move Moves)

namespace QueueManager

variable {Desc Msg : Type} {s s' : QueueManager Desc Msg} {env : Environment Desc Msg}
  {es : List (Event Msg)} {q : Queue Desc Msg} {k : ℕ}

def contents (s : QueueManager Desc Msg) (k : ℕ) : Contents Msg :=
  (s.queues[k]?.map Queue.contents).getD {}

def ackCount (s : QueueManager Desc Msg) (frame k : ℕ) : ℕ :=
  List.countP (fun e => e = (frame, k)) s.waitingForAck

/-- The manager lists at least as many entries for a frame as the queue itself. -/
def Agreement (s : QueueManager Desc Msg) : Prop :=
  ∀ k frame, (s.contents k).waitingForAck.count frame ≤ s.ackCount frame k

structure Inv (env : Environment Desc Msg) (s : QueueManager Desc Msg) : Prop where
  ids : ∀ k q, s.queues[k]? = some q → env.id q.desc = k
  wf : ∀ k, (s.contents k).Wf
  agreement : s.Agreement
  known : ∀ e ∈ s.waitingForAck, ∃ q, s.queues[e.2]? = some q

def Inserted (s s' : QueueManager Desc Msg) (k : ℕ) (q : Queue Desc Msg) : Prop :=
  ∀ j, s'.queues[j]? = if k = j then some q else s.queues[j]?

/-- Only queue `k` changes, by the given moves. -/
structure Changes (s s' : QueueManager Desc Msg) (k : ℕ) (q q' : Queue Desc Msg)
    (es : List (QueueEvent Msg)) : Prop where
  before : s.queues[k]? = some q
  after : Inserted s s' k q'
  desc : q'.desc = q.desc
  moves : Moves q.contents es q'.contents

inductive Step (env : Environment Desc Msg) :
    QueueManager Desc Msg → List (Event Msg) → QueueManager Desc Msg → Prop where
  | signals {s s' : QueueManager Desc Msg} {es : List (Event Msg)} (hes : ∀ e ∈ es, e.isSignal)
      (hq : s'.queues = s.queues) (hw : s'.waitingForAck = s.waitingForAck) : Step env s es s'
  | reported {s s' : QueueManager Desc Msg} {k : ℕ} {q q' : Queue Desc Msg} {es : List (QueueEvent Msg)}
      {before : List (Event Msg)} (h : Changes s s' k q q' es) (hes : ∀ e ∈ es, e.isLocal)
      (hb : ∀ e ∈ before, e.isSignal) (hw : s'.waitingForAck = s.waitingForAck) :
      Step env s (before ++ es.map (.queue k) ++ [.queueSizeChange k q'.size]) s'
  | unreported {s s' : QueueManager Desc Msg} {k : ℕ} {q q' : Queue Desc Msg}
      {es : List (QueueEvent Msg)} (h : Changes s s' k q q' es) (hes : ∀ e ∈ es, e.isUnreported)
      (hw : s'.waitingForAck = s.waitingForAck) : Step env s (es.map (.queue k)) s'
  | sentForAck {s s' : QueueManager Desc Msg} {k it frame : ℕ} {msg : Msg} {q q' : Queue Desc Msg}
      {after : List (Event Msg)} (h : Changes s s' k q q' [.gave it frame msg])
      (hack : q'.waitingForAck = q.waitingForAck.insert frame it)
      (ha : ∀ e ∈ after, e.isSignal) (hw : s'.waitingForAck = s.waitingForAck.insert frame k) :
      Step env s (.queue k (.gave it frame msg) :: after) s'
  | sent {s s' : QueueManager Desc Msg} {k it frame : ℕ} {msg : Msg} {q q' : Queue Desc Msg}
      {after : List (Event Msg)} (h : Changes s s' k q q' [.gave it frame msg, .popped it frame])
      (ha : ∀ e ∈ after, e.isSignal) (hw : s'.waitingForAck = s.waitingForAck) :
      Step env s (.queue k (.gave it frame msg) ::
        (after ++ [.queue k (.popped it frame), .queueSizeChange k q'.size])) s'
  | acked {s s' : QueueManager Desc Msg} {k it frame : ℕ} {q q' : Queue Desc Msg}
      {ack : ModemTransmission} {msg : Msg} (h : Changes s s' k q q' [.ackPopped it frame msg])
      (hw : s'.waitingForAck = s.waitingForAck) :
      Step env s [.queue k (.ackPopped it frame msg), .queueSizeChange k q'.size,
        .signalAck ack (some (k, it)) msg] s'
  | forgot {s s' : QueueManager Desc Msg} (hq : s'.queues = s.queues)
      (hw : s'.waitingForAck.Sublist s.waitingForAck) (ha : s'.Agreement) : Step env s [] s'
  | added {s s' : QueueManager Desc Msg} {k : ℕ} {q : Queue Desc Msg} (hn : s.queues[k]? = none)
      (hq : Inserted s s' k q) (hc : q.contents = {}) (hid : env.id q.desc = k)
      (hw : s'.waitingForAck = s.waitingForAck) : Step env s [.queueSizeChange k 0] s'

inductive Steps (env : Environment Desc Msg) :
    QueueManager Desc Msg → List (Event Msg) → QueueManager Desc Msg → Prop where
  | refl (s : QueueManager Desc Msg) : Steps env s [] s
  | step {s s₁ s₂ : QueueManager Desc Msg} {es fs : List (Event Msg)} (h : Step env s es s₁)
      (t : Steps env s₁ fs s₂) : Steps env s (es ++ fs) s₂

theorem Steps.trans {s s₁ s₂ : QueueManager Desc Msg}
    {es fs : List (Event Msg)} (h : Steps env s es s₁) (h' : Steps env s₁ fs s₂) :
    Steps env s (es ++ fs) s₂ := by
  induction h with
  | refl => exact h'
  | step h _ ih => rw [List.append_assoc]; exact .step h (ih h')

theorem Steps.single (h : Step env s es s') : Steps env s es s' := by
  simpa using Steps.step h (.refl s')

theorem contents_eq (h : s.queues[k]? = some q) : s.contents k = q.contents := by simp [contents, h]

theorem Inv.queue_wf (h : Inv env s) (hq : s.queues[k]? = some q) : q.Wf := by
  rw [Queue.Wf, ← contents_eq hq]
  exact h.wf k

theorem contents_of_none (h : s.queues[k]? = none) : s.contents k = {} := by simp [contents, h]

theorem contents_congr (h : s'.queues = s.queues) (k : ℕ) :
    s'.contents k = s.contents k := by simp [contents, h]

theorem Inserted.of_insert (h : s'.queues = s.queues.insert k q) : Inserted s s' k q := by
  intro j
  rw [h, Std.TreeMap.getElem?_insert]
  simp only [Std.LawfulEqCmp.compare_eq_iff_eq]

theorem Inserted.trans {s s₁ s₂ : QueueManager Desc Msg} {q₁ q₂ : Queue Desc Msg}
    (h₁ : Inserted s s₁ k q₁) (h₂ : Inserted s₁ s₂ k q₂) : Inserted s s₂ k q₂ := by
  intro j
  rw [h₂ j, h₁ j]
  split <;> rfl

theorem Inserted.contents (h : Inserted s s' k q) (j : ℕ) :
    s'.contents j = if k = j then q.contents else s.contents j := by
  unfold QueueManager.contents
  rw [h j]
  split <;> rfl

theorem Changes.project {q q' : Queue Desc Msg} {changes : List (QueueEvent Msg)}
    (h : Changes s s' k q q' changes)
    (hes : ∀ j, Event.queueEvents j es = if k = j then changes else []) (j : ℕ) :
    Moves (s.contents j) (Event.queueEvents j es) (s'.contents j) := by
  rw [h.after.contents, hes j]
  split
  next he => subst he; rw [contents_eq h.before]; exact h.moves
  next => exact .refl _

theorem Step.project (h : Step env s es s') (j : ℕ) :
    Moves (s.contents j) (Event.queueEvents j es) (s'.contents j) := by
  cases h with
  | signals hes hq hw =>
    rw [Event.queueEvents_signals hes, contents_congr hq]
    exact .refl _
  | reported h hes hb hw => exact h.project (fun j => by simp [Event.queueEvents_signals hb]) j
  | unreported h hes hw => exact h.project (fun j => by simp) j
  | @sentForAck _ k it frame msg q q' after h hack ha hw =>
    exact h.project (fun j => by simp [Event.queueEvents_signals ha]) j
  | @sent _ k it frame msg q q' after h ha hw =>
    refine h.project (fun j => ?_) j
    by_cases hk : k = j <;> simp [hk, Event.queueEvents_signals ha]
  | acked h hw => exact h.project (fun j => by simp) j
  | forgot hq hw ha =>
    rw [contents_congr hq]
    exact .refl _
  | @added _ k q hn hq hc hid hw =>
    rw [hq.contents, Event.queueEvents_sizeChange]
    split
    next he => subst he; rw [contents_of_none hn, hc]; exact .refl _
    next => exact .refl _

theorem Steps.project (h : Steps env s es s') (j : ℕ) :
    Moves (s.contents j) (Event.queueEvents j es) (s'.contents j) := by
  induction h with
  | refl => exact .refl _
  | step h _ ih => rw [Event.queueEvents_append]; exact (h.project j).trans ih

theorem Step.queue_stays (h : Step env s es s') {j : ℕ}
    (hq : s.queues[j]? = some q) : ∃ q', s'.queues[j]? = some q' ∧ q'.desc = q.desc := by
  have hchange : ∀ {k q₀ q₁ es}, Changes s s' k q₀ q₁ es →
      ∃ q', s'.queues[j]? = some q' ∧ q'.desc = q.desc := by
    intro k q₀ q₁ es h
    rw [h.after j]
    by_cases hk : k = j
    · subst hk
      have he : q₀ = q := Option.some.inj (h.before.symm.trans hq)
      exact ⟨q₁, if_pos rfl, he ▸ h.desc⟩
    · exact ⟨q, by rw [if_neg hk, hq], rfl⟩
  cases h with
  | signals hes h _ | forgot h _ _ => exact ⟨q, h ▸ hq, rfl⟩
  | reported h _ _ _ | unreported h _ _ | sentForAck h _ _ _ | sent h _ _ | acked h _ => exact hchange h
  | @added _ k q₀ hn h hc hid hw =>
    rw [h j]
    by_cases hk : k = j
    · subst hk
      simp [hn] at hq
    · exact ⟨q, by rw [if_neg hk, hq], rfl⟩

theorem Steps.queue_stays (h : Steps env s es s') {j : ℕ}
    (hq : s.queues[j]? = some q) : ∃ q', s'.queues[j]? = some q' ∧ q'.desc = q.desc := by
  induction h generalizing q with
  | refl => exact ⟨q, hq, rfl⟩
  | step h _ ih =>
    obtain ⟨q₁, h₁, hd₁⟩ := h.queue_stays hq
    obtain ⟨q₂, h₂, hd₂⟩ := ih h₁
    exact ⟨q₂, h₂, hd₂.trans hd₁⟩

theorem Agreement.listed (h : s.Agreement) {k : ℕ} {e : ℕ × ℕ} (he : e ∈ (s.contents k).waitingForAck) :
    (e.1, k) ∈ s.waitingForAck := by
  have hpos : 0 < s.ackCount e.1 k :=
    Nat.lt_of_lt_of_le (List.countP_pos_iff.mpr ⟨e, he, by simp⟩) (h k e.1)
  obtain ⟨e', he', hek⟩ := List.countP_pos_iff.mp hpos
  exact of_decide_eq_true hek ▸ he'

theorem Agreement.of_sublist (h : s.Agreement)
    (hc : ∀ j, (s'.contents j).waitingForAck.Sublist (s.contents j).waitingForAck)
    (hw : s'.waitingForAck = s.waitingForAck) : s'.Agreement := by
  intro k frame
  calc (s'.contents k).waitingForAck.count frame
      ≤ (s.contents k).waitingForAck.count frame := (hc k).countP_le
    _ ≤ s.ackCount frame k := h k frame
    _ = s'.ackCount frame k := by rw [ackCount, ackCount, hw]

/-- A message sent with an acknowledgment requested is entered on both levels. -/
theorem Agreement.sentForAck (h : s.Agreement) {k it frame : ℕ}
    {msg : Msg} {q q' : Queue Desc Msg} (hs : Changes s s' k q q' [.gave it frame msg])
    (hack : q'.waitingForAck = q.waitingForAck.insert frame it)
    (hw : s'.waitingForAck = s.waitingForAck.insert frame k) : s'.Agreement := by
  intro j f
  have hold := h j f
  rw [ackCount, hw, Multimap.countP_insert, hs.after.contents]
  rw [ackCount] at hold
  by_cases hj : k = j
  · subst hj
    rw [contents_eq hs.before] at hold
    have hcount : q'.waitingForAck.count f = q.waitingForAck.count f + if frame = f then 1 else 0 := by
      simp [hack, Multimap.count, Multimap.countP_insert]
    rw [if_pos rfl, hcount]
    by_cases hf : frame = f <;> simp [hf] <;> omega
  · rw [if_neg hj]
    omega

theorem Step.agreement (h : Step env s es s') (hs : s.Agreement) : s'.Agreement := by
  have hp := h.project
  cases h with
  | signals _ hq hw =>
    refine hs.of_sublist (fun j => ?_) hw
    rw [contents_congr hq]
  | @reported _ k q q' es before h hes hb hw =>
    refine hs.of_sublist (fun j => (hp j).waiting_sublist ?_) hw
    intro it frame msg hm
    rcases List.mem_append.mp (Event.mem_queueEvents.mp hm) with hm | hm
    · rcases List.mem_append.mp hm with hm | hm
      · simpa [Event.isSignal] using hb _ hm
      · obtain ⟨e, he, heq⟩ := List.mem_map.mp hm
        cases heq
        simpa [QueueEvent.isLocal] using hes _ he
    · simp at hm
  | @unreported _ k q q' es h hes hw =>
    refine hs.of_sublist (fun j => (hp j).waiting_sublist ?_) hw
    intro it frame msg hm
    obtain ⟨e, he, heq⟩ := List.mem_map.mp (Event.mem_queueEvents.mp hm)
    cases heq
    simpa [QueueEvent.isUnreported] using hes _ he
  | sentForAck h hack _ hw => exact hs.sentForAck h hack hw
  | @sent _ k it frame msg q q' after h ha hw =>
    refine hs.of_sublist (fun j => ?_) hw
    have hj := hp j
    by_cases hk : k = j <;> simp [hk, Event.queueEvents_signals ha] at hj
    · exact hj.sent_sublist
    · exact hj.waiting_sublist (by simp)
  | acked h hw =>
    refine hs.of_sublist (fun j => (hp j).waiting_sublist ?_) hw
    intro it frame msg hm
    simpa using Event.mem_queueEvents.mp hm
  | forgot _ _ ha => exact ha
  | added hn hq hc hid hw =>
    exact hs.of_sublist (fun j => (hp j).waiting_sublist (by simp)) hw

theorem Step.ids (h : Step env s es s') (hs : ∀ k q, s.queues[k]? = some q → env.id q.desc = k) :
    ∀ k q, s'.queues[k]? = some q → env.id q.desc = k := by
  intro j q' hq'
  cases hq : s.queues[j]? with
  | some q =>
    obtain ⟨q₁, h₁, hd⟩ := h.queue_stays hq
    obtain rfl := Option.some.inj (h₁.symm.trans hq')
    rw [hd]
    exact hs j q hq
  | none =>
    have hchange : ∀ {k q₀ q₁ es}, Changes s s' k q₀ q₁ es → False := by
      intro k q₀ q₁ es h
      rw [h.after j] at hq'
      by_cases hk : k = j
      · subst hk
        simp [h.before] at hq
      · simp [hk, hq] at hq'
    cases h with
    | signals hes h _ | forgot h _ _ => simp [h, hq] at hq'
    | reported h _ _ _ | unreported h _ _ | sentForAck h _ _ _ | sent h _ _ | acked h _ =>
      exact (hchange h).elim
    | added hn h hc hid hw =>
      rw [h j] at hq'
      split at hq'
      next hk => subst hk; cases hq'; exact hid
      next => simp [hq] at hq'

theorem Step.known (h : Step env s es s') (hs : ∀ e ∈ s.waitingForAck, ∃ q, s.queues[e.2]? = some q) :
    ∀ e ∈ s'.waitingForAck, ∃ q, s'.queues[e.2]? = some q := by
  have hstay : ∀ e ∈ s.waitingForAck, ∃ q, s'.queues[e.2]? = some q := by
    intro e he
    obtain ⟨q, hq⟩ := hs e he
    obtain ⟨q', hq', -⟩ := h.queue_stays hq
    exact ⟨q', hq'⟩
  intro e he
  cases h with
  | signals _ _ hw | reported _ _ _ hw | unreported _ _ hw | sent _ _ hw | acked _ hw
  | added _ _ _ _ hw => exact hstay e (hw ▸ he)
  | forgot _ hw _ => exact hstay e (hw.subset he)
  | @sentForAck _ k it frame msg q q' after h hack ha hw =>
    rw [hw, Multimap.mem_insert] at he
    rcases he with rfl | he
    · exact ⟨q', (h.after k).trans (if_pos rfl)⟩
    · exact hstay e he

theorem Step.inv (h : Step env s es s') (hs : Inv env s) : Inv env s' :=
  ⟨h.ids hs.ids, fun k => (h.project k).wf (hs.wf k), h.agreement hs.agreement, h.known hs.known⟩

theorem Steps.inv (h : Steps env s es s') (hs : Inv env s) : Inv env s' := by
  induction h with
  | refl => exact hs
  | step h _ ih => exact ih (h.inv hs)

end QueueManager
end Goby
