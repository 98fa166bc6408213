import Goby.QueueManagerSteps

/-! An address names one message for good: it is given out once, when the message is stored,
and the message leaves once, by one of five exits. What the queue hands over under an
address is the message that was stored there. -/

namespace Goby

inductive Fate where
  | queued
  | sent
  | acked
  | expired
  | evicted
  | flushed
  deriving DecidableEq, Repr

namespace QueueEvent

variable {Msg : Type}

def exitOf (it : ℕ) : QueueEvent Msg → Option Fate
  | popped i _ => if i = it then some .sent else none
  | ackPopped i _ _ => if i = it then some .acked else none
  | expired i _ => if i = it then some .expired else none
  | evicted i => if i = it then some .evicted else none
  | flushed i => if i = it then some .flushed else none
  | stored _ _ | gave _ _ _ | ackCleared _ _ => none

def storesAt (it : ℕ) : QueueEvent Msg → Bool
  | stored i _ => i = it
  | _ => false

def ackedOf (it : ℕ) : QueueEvent Msg → Option Msg
  | ackPopped i _ msg => if i = it then some msg else none
  | _ => none

def expiredOf (it : ℕ) : QueueEvent Msg → Option Msg
  | expired i msg => if i = it then some msg else none
  | _ => none

def exits (it : ℕ) (es : List (QueueEvent Msg)) : List Fate := es.filterMap (exitOf it)

@[simp] theorem exits_append (it : ℕ) (es fs : List (QueueEvent Msg)) :
    exits it (es ++ fs) = exits it es ++ exits it fs := List.filterMap_append

theorem exitOf_of_removes {e : QueueEvent Msg} {i : ℕ} (h : e.removes = some i) (it : ℕ) :
    (e.exitOf it).isSome = decide (i = it) := by
  cases e <;> cases h <;> by_cases hi : i = it <;> simp [exitOf, hi]

/-- If a kind of event hands over a message exactly when it is one kind of exit, then there
are as many messages as exits. -/
theorem length_filterMap_eq_count {g : QueueEvent Msg → Option Msg} {it : ℕ} {f : Fate}
    (h : ∀ e, (g e).isSome = true ↔ e.exitOf it = some f) (es : List (QueueEvent Msg)) :
    (es.filterMap g).length = (exits it es).count f := by
  induction es with
  | nil => rfl
  | cons e es ih =>
    rw [exits, List.filterMap_cons, List.filterMap_cons]
    rw [exits] at ih
    cases hg : g e with
    | none =>
      have hne : e.exitOf it ≠ some f := fun he => by simpa [hg] using (h e).mpr he
      cases hx : e.exitOf it with
      | none => exact ih
      | some f' =>
        have hf : f' ≠ f := fun he => hne (by rw [hx, he])
        simp [ih, List.count_cons_of_ne hf]
    | some m =>
      rw [(h e).mp (by simp [hg])]
      simp [ih]

theorem ackedOf_isSome (it : ℕ) (e : QueueEvent Msg) :
    (e.ackedOf it).isSome = true ↔ e.exitOf it = some .acked := by
  cases e <;> simp [ackedOf, exitOf]

theorem expiredOf_isSome (it : ℕ) (e : QueueEvent Msg) :
    (e.expiredOf it).isSome = true ↔ e.exitOf it = some .expired := by
  cases e <;> simp [expiredOf, exitOf]

end QueueEvent

namespace Contents

open QueueEvent (exits storesAt)

variable {Msg : Type} {es : List (QueueEvent Msg)} {c c' : Contents Msg} {e : QueueEvent Msg} {it : ℕ}
  {msg : Msg}

theorem Move.next (h : Move c e c') (it : ℕ) :
    (if it < c'.messages.next then 1 else 0) =
      (if it < c.messages.next then 1 else 0) + if e.storesAt it then 1 else 0 := by
  cases h with
  | stored m hm hw =>
    rw [hm, StableList.next_pushBack]
    rcases Nat.lt_trichotomy it c.messages.next with h | h | h
    · simp [storesAt, h, Nat.lt_succ_of_lt h, Nat.ne_of_gt h]
    · simp [storesAt, h]
    · simp [storesAt, Nat.not_lt_of_gt h, Nat.ne_of_lt h]
      omega
  | gave m m' _ _ _ _ hm hw => simp [hm, storesAt]
  | ackCleared he hm hw => simp [hm, storesAt]
  | @removed _ e i he _ _ _ hm hw =>
    have hstored : e.storesAt it = false := by cases e <;> first | rfl | cases he
    simp [hm, hstored]

theorem Move.present (h : Move c e c') (it : ℕ) :
    (if it ∈ c'.messages.addrs then 1 else 0) + (exits it [e]).length =
      (if it ∈ c.messages.addrs then 1 else 0) + if e.storesAt it then 1 else 0 := by
  cases h with
  | stored m hm hw =>
    have hfresh := c.messages.next_notMem_addrs
    rw [hm, StableList.addrs_pushBack]
    by_cases hi : c.messages.next = it
    · subst hi
      simp [exits, QueueEvent.exitOf, storesAt, hfresh]
    · simp [exits, QueueEvent.exitOf, storesAt, hi, Ne.symm hi]
  | gave m m' _ _ _ _ hm hw => simp [hm, exits, QueueEvent.exitOf, storesAt]
  | ackCleared he hm hw => simp [hm, exits, QueueEvent.exitOf, storesAt]
  | @removed _ e i he hmem _ _ hm hw =>
    have hstored : e.storesAt it = false := by cases e <;> first | rfl | cases he
    have hexit := QueueEvent.exitOf_of_removes he it
    rw [hm, StableList.addrs_erase, hstored]
    by_cases hi : i = it
    · subst hi
      obtain ⟨f, hf⟩ := Option.isSome_iff_exists.mp (hexit.trans (by simp))
      simp [exits, hf, hmem]
    · have hnone : e.exitOf it = none := by simpa [hi] using hexit
      simp [exits, hnone, Ne.symm hi]

theorem Moves.next (h : Moves c es c') (it : ℕ) :
    (if it < c'.messages.next then 1 else 0) =
      (if it < c.messages.next then 1 else 0) + es.countP (storesAt it) := by
  induction h with
  | refl => simp
  | @step c c₁ c₂ e es h t ih =>
    have hfirst := h.next it
    rw [List.countP_cons]
    omega

theorem Moves.present (h : Moves c es c') (it : ℕ) :
    (if it ∈ c'.messages.addrs then 1 else 0) + (exits it es).length =
      (if it ∈ c.messages.addrs then 1 else 0) + es.countP (storesAt it) := by
  induction h with
  | refl => simp [exits]
  | @step c c₁ c₂ e es h t ih =>
    have hfirst := h.present it
    have hsplit : exits it (e :: es) = exits it [e] ++ exits it es := QueueEvent.exits_append it [e] es
    rw [List.countP_cons, hsplit, List.length_append]
    omega

/-- A message that is there does not leave before, and one that leaves does so once. -/
theorem Moves.exits_le_one (h : Moves c es c') (it : ℕ) :
    (if it ∈ c'.messages.addrs then 1 else 0) + (exits it es).length ≤ 1 := by
  have hpresent := h.present it
  have hnext := h.next it
  have hle : (if it < c'.messages.next then 1 else 0) ≤ 1 := by split <;> omega
  by_cases hit : it ∈ c.messages.addrs
  · rw [if_pos (StableList.lt_next_of_mem hit)] at hnext
    rw [if_pos hit] at hpresent
    omega
  · rw [if_neg hit] at hpresent
    omega

theorem Moves.stored_once (h : Moves {} es c) (it : ℕ) : es.countP (storesAt it) ≤ 1 := by
  have hnext := h.next it
  simp only [StableList.next_empty, Nat.not_lt_zero, if_false, Nat.zero_add] at hnext
  split at hnext <;> omega

theorem Moves.one_fate (h : Moves {} es c) (hs : .stored it msg ∈ es) :
    ∃ f, (if it ∈ c.messages.addrs then [.queued] else []) ++ exits it es = [f] := by
  have hpresent := h.present it
  have honce := h.stored_once it
  have hpos : 0 < es.countP (storesAt it) := List.countP_pos_iff.mpr ⟨_, hs, by simp [storesAt]⟩
  simp only [StableList.addrs_empty, List.not_mem_nil, if_false, Nat.zero_add] at hpresent
  apply List.length_eq_one_iff.mp
  rw [List.length_append]
  by_cases hit : it ∈ c.messages.addrs
  · simp only [hit, if_true, List.length_singleton] at hpresent ⊢
    omega
  · simp only [hit, if_false, List.length_nil] at hpresent ⊢
    omega

theorem Moves.stored_unique (h : Moves {} es c)
    {msg msg' : Msg} (hs : .stored it msg ∈ es) (hs' : .stored it msg' ∈ es) : msg = msg' := by
  obtain ⟨before, after, rfl⟩ := List.append_of_mem hs
  have honce := h.stored_once it
  have hone : storesAt it (.stored it msg : QueueEvent Msg) = true := by simp [storesAt]
  rw [List.countP_append, List.countP_cons_of_pos hone] at honce
  have hnot : ∀ es' : List (QueueEvent Msg), es'.countP (storesAt it) = 0 → .stored it msg' ∉ es' := by
    intro es' hz hm
    have := List.countP_eq_zero.mp hz _ hm
    simp [storesAt] at this
  rcases List.mem_append.mp hs' with hm | hm
  · exact absurd hm (hnot before (by omega))
  · rcases List.mem_cons.mp hm with he | hm
    · cases he
      rfl
    · exact absurd hm (hnot after (by omega))

/-- The queue holds under each address the message that was stored there. -/
def Named (es : List (QueueEvent Msg)) (c : Contents Msg) : Prop :=
  ∀ it m, c.messages.get? it = some m → .stored it m.dcclMsg ∈ es

theorem Move.named (h : Move c e c') (hc : Named es c) : Named (es ++ [e]) c' := by
  intro it m hget
  rw [StableList.get?_eq_some] at hget
  cases h with
  | stored m' hm hw =>
    rw [hm] at hget
    rcases List.mem_append.mp hget with hold | hnew
    · exact List.mem_append_left _ (hc it m (StableList.get?_eq_some.mpr hold))
    · cases List.mem_singleton.mp hnew
      simp
  | @gave _ i frame msg m₀ m' hget₀ hmsg hmsg' _ hm hw =>
    rw [hm, StableList.nodes_modify] at hget
    obtain ⟨n, hn, he⟩ := List.mem_map.mp hget
    split at he
    next hi =>
      cases he
      subst hi
      rw [hmsg', ← hmsg]
      exact List.mem_append_left _ (hc _ m₀ hget₀)
    next =>
      subst he
      exact List.mem_append_left _ (hc it m (StableList.get?_eq_some.mpr hn))
  | ackCleared he hm hw =>
    rw [hm] at hget
    exact List.mem_append_left _ (hc it m (StableList.get?_eq_some.mpr hget))
  | removed he _ _ _ hm hw =>
    rw [hm] at hget
    exact List.mem_append_left _ (hc it m (StableList.get?_eq_some.mpr (List.mem_of_mem_filter hget)))

theorem Move.handed (h : Move c e c')
    (he : e.handed = some (it, msg)) : ∃ m, c.messages.get? it = some m ∧ m.dcclMsg = msg := by
  cases h with
  | stored m hm hw => cases he
  | gave m m' hget hmsg _ _ hm hw =>
    cases he
    exact ⟨m, hget, hmsg⟩
  | ackCleared _ hm hw => cases he
  | @removed _ e i hr _ hmsg _ hm hw =>
    have hi : i = it := by cases e <;> cases hr <;> cases he <;> rfl
    exact hi ▸ hmsg msg (hi ▸ he)

/-- Every message handed over under an address is the one that was stored there. -/
theorem Moves.handed {es hist : List (QueueEvent Msg)} (h : Moves c es c')
    (hc : Named hist c) (he : e ∈ es)
    (hh : e.handed = some (it, msg)) : .stored it msg ∈ hist ++ es := by
  induction h generalizing hist with
  | refl => cases he
  | @step c c₁ c₂ e' es h t ih =>
    rcases List.mem_cons.mp he with rfl | he
    · obtain ⟨m, hget, rfl⟩ := h.handed hh
      exact List.mem_append_left _ (hc it m hget)
    · have hmem := ih (h.named hc) he
      rwa [List.append_assoc, List.singleton_append] at hmem

theorem named_empty : Named [] ({} : Contents Msg) := by
  intro it m hget
  rw [StableList.get?_eq_some] at hget
  cases hget

/-- The messages handed over at one kind of exit: the stored message, if it left that way. -/
theorem Moves.handed_over (h : Moves {} es c) (hs : .stored it msg ∈ es) {f f₀ : Fate}
    {g : QueueEvent Msg → Option Msg}
    (hf : (if it ∈ c.messages.addrs then [.queued] else []) ++ exits it es = [f])
    (hf₀ : f₀ ≠ .queued) (hg : ∀ e, (g e).isSome = true ↔ e.exitOf it = some f₀)
    (hh : ∀ e m, g e = some m → e.handed = some (it, m)) :
    es.filterMap g = if f = f₀ then [msg] else [] := by
  have hcount : (es.filterMap g).length = if f = f₀ then 1 else 0 := by
    rw [QueueEvent.length_filterMap_eq_count hg]
    have hnone : List.count f₀ (if it ∈ c.messages.addrs then [.queued] else []) = 0 := by
      split <;> simp [Ne.symm hf₀]
    have hall := congrArg (List.count f₀) hf
    rw [List.count_append, hnone, Nat.zero_add] at hall
    rw [hall, List.count_singleton]
    by_cases he : f = f₀ <;> simp [he]
  have hmsg : ∀ m ∈ es.filterMap g, m = msg := by
    intro m hm
    obtain ⟨e, he, hge⟩ := List.mem_filterMap.mp hm
    have hstored := h.handed named_empty he (hh e m hge)
    exact h.stored_unique (by simpa using hstored) hs
  rw [List.eq_replicate_of_mem hmsg, hcount]
  split <;> rfl

def Spent (c : Contents Msg) (it : ℕ) : Prop :=
  it ∈ c.waitingForAck.map Prod.snd ∨ (it ∉ c.messages.addrs ∧ it < c.messages.next)

theorem Move.spent (h : Move c e c')
    (he : ∀ it frame, e ≠ .ackCleared it frame) (hs : Spent c it) : Spent c' it := by
  cases h with
  | stored m hm hw =>
    rw [Spent, hw, hm]
    refine hs.imp_right fun ⟨hmem, hlt⟩ => ⟨?_, Nat.lt_succ_of_lt hlt⟩
    simp [hmem, Nat.ne_of_lt hlt]
  | @gave _ i frame msg m m' hget _ _ hfree hm hw =>
    rw [Spent, hm, StableList.addrs_modify, StableList.next_modify]
    refine hs.imp_left fun hmem => ?_
    rw [hw]
    split
    · exact ((Multimap.insert_perm _ _ _).map Prod.snd).mem_iff.mpr (List.mem_cons_of_mem _ hmem)
    · exact hmem
  | ackCleared hack hm hw => exact absurd rfl (he _ _)
  | @removed _ e i hr hmem _ _ hm hw =>
    rw [Spent, hm, StableList.addrs_erase, StableList.next_erase]
    by_cases hi : it = i
    · subst hi
      exact .inr ⟨by simp, StableList.lt_next_of_mem hmem⟩
    · rcases hs with hs | ⟨hnot, hlt⟩
      · left
        obtain ⟨d, hd, rfl⟩ := List.mem_map.mp hs
        rw [hw]
        exact List.mem_map_of_mem (List.mem_filter.mpr ⟨hd, by simpa using hi⟩)
      · exact .inr ⟨fun h => hnot (List.mem_of_mem_filter h), hlt⟩

theorem Moves.spent (h : Moves c es c')
    (hes : ∀ it frame, .ackCleared it frame ∉ es) (hs : Spent c it) : Spent c' it := by
  induction h with
  | refl => exact hs
  | step h _ ih =>
    refine ih (fun i f hm => hes i f (List.mem_cons_of_mem _ hm)) (h.spent ?_ hs)
    rintro i f rfl
    exact hes i f List.mem_cons_self

theorem Move.not_spent {it frame : ℕ} (h : Move c (.gave it frame msg) c') : ¬Spent c it := by
  cases h with
  | gave m m' hget _ _ hfree hm hw =>
    intro hs
    rcases hs with hs | hs
    · exact hfree hs
    · exact hs.1 (StableList.mem_addrs.mpr ⟨m, hget⟩)
  | removed hr => cases hr

end Contents

namespace Event

variable {Msg : Type} {e : Event Msg}

def ackRemoved : Event Msg → Option ((ℕ × ℕ) × Msg)
  | queue k (.ackPopped it _ msg) => some ((k, it), msg)
  | _ => none

def ackSignalled : Event Msg → Option ((ℕ × ℕ) × Msg)
  | signalAck _ (some origin) msg => some (origin, msg)
  | _ => none

def isPassage : Event Msg → Bool
  | queue _ (.gave _ _ _) | queue _ (.popped _ _) => true
  | _ => false

def isPlain : Event Msg → Bool
  | queue _ (.gave _ _ _) | queue _ (.popped _ _) | queue _ (.ackPopped _ _ _)
  | signalAck _ (some _) _ => false
  | _ => true

theorem isPlain_of_isSignal (h : e.isSignal) : e.isPlain := by
  cases e with
  | queue k e => cases h
  | signalAck ack origin msg => cases origin <;> first | rfl | cases h
  | _ => rfl

theorem ackRemoved_of_isPlain (h : e.isPlain) : e.ackRemoved = none := by
  cases e with
  | queue k e => cases e <;> first | rfl | cases h
  | _ => rfl

theorem ackSignalled_of_isPlain (h : e.isPlain) : e.ackSignalled = none := by
  cases e with
  | signalAck ack origin msg => cases origin <;> first | rfl | cases h
  | _ => rfl

/-- Every message popped is the one given last, under the same frame. -/
def PopsGiven (es : List (Event Msg)) : Prop :=
  ∀ before k it frame after, es = before ++ queue k (.popped it frame) :: after →
    ∃ msg, (before.filter isPassage).getLast? = some (queue k (.gave it frame msg))

theorem PopsGiven.of_not_mem {es : List (Event Msg)}
    (h : ∀ k it frame, queue k (.popped it frame) ∉ es) :
    PopsGiven es := by
  rintro before k it frame after rfl
  exact absurd (List.mem_append_right _ List.mem_cons_self) (h k it frame)

theorem PopsGiven.append {es fs : List (Event Msg)} (h : PopsGiven es) (h' : PopsGiven fs) :
    PopsGiven (es ++ fs) := by
  intro before k it frame after heq
  rcases List.append_eq_append_iff.mp heq with ⟨mid, rfl, hfs⟩ | ⟨mid, hes, hmid⟩
  · obtain ⟨msg, hlast⟩ := h' mid k it frame after hfs
    refine ⟨msg, ?_⟩
    rw [List.filter_append, List.getLast?_append, hlast]
    rfl
  · cases mid with
    | nil =>
      obtain ⟨msg, hlast⟩ := h' [] k it frame after hmid.symm
      simp at hlast
    | cons e mid =>
      obtain ⟨rfl, -⟩ := List.cons.inj hmid
      exact h before k it frame mid hes

theorem PopsGiven.sent {k it frame n : ℕ} {msg : Msg} {after : List (Event Msg)}
    (ha : ∀ e ∈ after, e.isSignal) :
    PopsGiven (queue k (.gave it frame msg) :: (after ++
      [queue k (.popped it frame), queueSizeChange k n])) := by
  have hsignals : after.filter isPassage = [] := by
    rw [List.filter_eq_nil_iff]
    intro e he
    have := ha e he
    cases e <;> simp_all [isSignal, isPassage]
  have hnone : ∀ k' it' frame', queue k' (.popped it' frame') ∉ queue k (.gave it frame msg) :: after := by
    intro k' it' frame' hm
    rcases List.mem_cons.mp hm with he | hm
    · cases he
    · simpa [isSignal] using ha _ hm
  have hlast : ((queue k (.gave it frame msg) :: after).filter isPassage).getLast? =
      some (queue k (.gave it frame msg)) := by
    rw [List.filter_cons_of_pos rfl, hsignals]
    rfl
  intro before k' it' frame' rest heq
  rw [← List.cons_append] at heq
  rcases List.append_eq_append_iff.mp heq with ⟨mid, rfl, hmid⟩ | ⟨mid, hbefore, hmid⟩
  · rcases mid with _ | ⟨e, _ | ⟨e', mid⟩⟩
    · obtain ⟨he, -⟩ := List.cons.inj hmid
      cases he
      exact ⟨msg, by rw [List.append_nil]; exact hlast⟩
    · simp at hmid
    · simp at hmid
  · cases mid with
    | nil =>
      obtain ⟨he, -⟩ := List.cons.inj hmid
      cases he
      rw [List.append_nil] at hbefore
      exact ⟨msg, hbefore ▸ hlast⟩
    | cons e mid =>
      obtain ⟨rfl, -⟩ := List.cons.inj hmid
      exact absurd (hbefore ▸ List.mem_append_right _ List.mem_cons_self) (hnone k' it' frame')

end Event

namespace QueueManager

variable {Desc Msg : Type} {env : Environment Desc Msg} {s s' : QueueManager Desc Msg}
  {es : List (Event Msg)} {q q' : Queue Desc Msg} {k it frame : ℕ}

structure Given (Msg : Type) where
  origin : ℕ × ℕ
  frame : ℕ
  msg : Msg

def givenBy : Event Msg → Option (Given Msg)
  | .queue k (.gave it frame msg) => some ⟨(k, it), frame, msg⟩
  | _ => none

theorem givenBy_of_isPlain {e : Event Msg} (h : e.isPlain) : givenBy e = none := by
  cases e with
  | queue k e => cases e <;> first | rfl | cases h
  | _ => rfl

theorem filterMap_signals {β : Type} {g : Event Msg → Option β}
    (hg : ∀ e : Event Msg, e.isPlain → g e = none) (h : ∀ e ∈ es, e.isSignal) : es.filterMap g = [] :=
  List.filterMap_eq_nil_iff.mpr fun e he => hg e (Event.isPlain_of_isSignal (h e he))

/-- No message can be given under the origin again before its entry is cleared. -/
abbrev Spent (s : QueueManager Desc Msg) (origin : ℕ × ℕ) : Prop := (s.contents origin.1).Spent origin.2

theorem Changes.not_spent {msg : Msg}
    {es : List (QueueEvent Msg)}
    (h : Changes s s' k q q' (.gave it frame msg :: es)) : ¬Spent s (k, it) := by
  rw [Spent, contents_eq h.before]
  cases h.moves with
  | step hg _ => exact hg.not_spent

theorem Changes.spent_of_waiting {es : List (QueueEvent Msg)} (h : Changes s s' k q q' es)
    (hack : q'.waitingForAck = q.waitingForAck.insert frame it) : Spent s' (k, it) := by
  left
  rw [h.after.contents, if_pos rfl]
  refine List.mem_map.mpr ⟨(frame, it), ?_, rfl⟩
  change (frame, it) ∈ q'.waitingForAck
  rw [hack]
  exact Multimap.mem_insert.mpr (.inl rfl)

theorem Changes.spent_of_popped {msg : Msg}
    (h : Changes s s' k q q' [.gave it frame msg, .popped it frame]) :
    Spent s' (k, it) := by
  right
  rw [h.after.contents, if_pos rfl]
  have hpresent := h.moves.present it
  have hnext := h.moves.next it
  simp only [QueueEvent.exits, QueueEvent.exitOf, QueueEvent.storesAt, List.filterMap_cons,
    List.filterMap_nil, if_true, List.length_singleton, List.countP_cons, List.countP_nil,
    Bool.false_eq_true, if_false, Nat.add_zero] at hpresent hnext
  have hmem : it ∈ q.contents.messages.addrs := by
    by_contra hnot
    rw [if_neg hnot] at hpresent
    omega
  rw [if_pos hmem] at hpresent
  rw [if_pos (StableList.lt_next_of_mem hmem)] at hnext
  constructor
  · intro hin
    rw [if_pos hin] at hpresent
    omega
  · by_contra hge
    rw [if_neg hge] at hnext
    omega

/-- A step gives one message, which it may pop, removes one on an acknowledgment, or does none of
these. -/
theorem Step.cases (h : Step env s es s') :
    (∀ e ∈ es, e.isPlain) ∨ (∃ k it frame msg after popped,
      es = .queue k (.gave it frame msg) :: (after ++ popped) ∧ (∀ e ∈ after, e.isSignal) ∧
      (popped = [] ∨ ∃ n, popped = [.queue k (.popped it frame), .queueSizeChange k n]) ∧
      ¬Spent s (k, it) ∧ Spent s' (k, it)) ∨
    ∃ k it frame msg ack n, es = [.queue k (.ackPopped it frame msg), .queueSizeChange k n,
      .signalAck ack (some (k, it)) msg] := by
  cases h with
  | signals hes hq hw => exact .inl fun e he => Event.isPlain_of_isSignal (hes e he)
  | @reported _ k q q' es before h hes hb hw =>
    refine .inl fun e he => ?_
    rcases List.mem_append.mp he with he | he
    · rcases List.mem_append.mp he with he | he
      · exact Event.isPlain_of_isSignal (hb e he)
      · obtain ⟨x, hx, rfl⟩ := List.mem_map.mp he
        have hlocal := hes x hx
        cases x <;> first | rfl | cases hlocal
    · rw [List.mem_singleton.mp he]
      rfl
  | @unreported _ k q q' es h hes hw =>
    refine .inl fun e he => ?_
    obtain ⟨x, hx, rfl⟩ := List.mem_map.mp he
    have hun := hes x hx
    cases x <;> first | rfl | cases hun
  | @sentForAck _ k it frame msg q q' after h hack ha hw =>
    exact .inr (.inl ⟨k, it, frame, msg, after, [], by rw [List.append_nil], ha, .inl rfl, h.not_spent,
      h.spent_of_waiting hack⟩)
  | @sent _ k it frame msg q q' after h ha hw =>
    exact .inr (.inl ⟨k, it, frame, msg, after, _, rfl, ha, .inr ⟨_, rfl⟩, h.not_spent, h.spent_of_popped⟩)
  | @acked _ k it frame q q' ack msg h hw => exact .inr (.inr ⟨k, it, frame, msg, ack, _, rfl⟩)
  | forgot _ _ _ => exact .inl (by simp)
  | added _ _ _ _ _ => exact .inl (by simp [Event.isPlain])

/-- Every removal on an acknowledgment comes with the signal for that message. -/
theorem Step.acks (h : Step env s es s') :
    es.filterMap Event.ackRemoved = es.filterMap Event.ackSignalled := by
  rcases h.cases with h | ⟨k, it, frame, msg, after, popped, rfl, ha, hpopped, -⟩ |
    ⟨k, it, frame, msg, ack, n, rfl⟩
  · rw [List.filterMap_eq_nil_iff.mpr fun e he => Event.ackRemoved_of_isPlain (h e he),
      List.filterMap_eq_nil_iff.mpr fun e he => Event.ackSignalled_of_isPlain (h e he)]
  · rw [List.filterMap_cons, List.filterMap_cons, List.filterMap_append, List.filterMap_append,
      filterMap_signals (fun _ => Event.ackRemoved_of_isPlain) ha,
      filterMap_signals (fun _ => Event.ackSignalled_of_isPlain) ha]
    rcases hpopped with rfl | ⟨n, rfl⟩ <;> rfl
  · rfl

theorem Steps.acks (h : Steps env s es s') :
    es.filterMap Event.ackRemoved = es.filterMap Event.ackSignalled := by
  induction h with
  | refl => rfl
  | step h _ ih => rw [List.filterMap_append, List.filterMap_append, h.acks, ih]

theorem Step.popsGiven (h : Step env s es s') : Event.PopsGiven es := by
  rcases h.cases with h | ⟨k, it, frame, msg, after, popped, rfl, ha, rfl | ⟨n, rfl⟩, -⟩ |
    ⟨k, it, frame, msg, ack, n, rfl⟩
  · exact .of_not_mem fun k it frame hm => by simpa [Event.isPlain] using h _ hm
  · rw [List.append_nil]
    refine .of_not_mem fun k' it' frame' hm => ?_
    rcases List.mem_cons.mp hm with he | hm
    · cases he
    · simpa [Event.isSignal] using ha _ hm
  · exact .sent ha
  · exact .of_not_mem (by simp)

theorem Steps.popsGiven (h : Steps env s es s') : Event.PopsGiven es := by
  induction h with
  | refl => exact .of_not_mem (by simp)
  | step h _ ih => exact h.popsGiven.append ih

/-- A step gives no message, or one that can be given and then cannot be given again. -/
theorem Step.given (h : Step env s es s') :
    es.filterMap givenBy = [] ∨
      ∃ g, es.filterMap givenBy = [g] ∧ ¬Spent s g.origin ∧ Spent s' g.origin := by
  rcases h.cases with h | ⟨k, it, frame, msg, after, popped, rfl, ha, hpopped, hfree, hspent⟩ |
    ⟨k, it, frame, msg, ack, n, rfl⟩
  · exact .inl (List.filterMap_eq_nil_iff.mpr fun e he => givenBy_of_isPlain (h e he))
  · refine .inr ⟨⟨(k, it), frame, msg⟩, ?_, hfree, hspent⟩
    rcases hpopped with rfl | ⟨n, rfl⟩ <;> simp [givenBy, filterMap_signals (fun _ => givenBy_of_isPlain) ha]
  · exact .inl rfl

/-- While no entry is cleared, no message is given twice. -/
theorem Steps.given_nodup
    (h : Steps env s es s') (hes : ∀ k it frame, .queue k (.ackCleared it frame) ∉ es) :
    ((es.filterMap givenBy).map Given.origin).Nodup ∧
      ∀ g ∈ es.filterMap givenBy, ¬Spent s g.origin := by
  induction h with
  | refl => simp
  | @step s s₁ s₂ es fs h t ih =>
    obtain ⟨hnodup, hfree⟩ := ih fun k it frame hm => hes k it frame (List.mem_append_right _ hm)
    have hkeep : ∀ o, Spent s o → Spent s₁ o := by
      intro o ho
      refine (h.project o.1).spent (fun it frame hm => ?_) ho
      exact hes o.1 it frame (List.mem_append_left _ (Event.mem_queueEvents.mp hm))
    have hrest : ∀ g ∈ fs.filterMap givenBy, ¬Spent s g.origin :=
      fun g hg ho => hfree g hg (hkeep _ ho)
    rw [List.filterMap_append]
    rcases h.given with hnone | ⟨g, hone, hgfree, hgspent⟩
    · rw [hnone]
      exact ⟨hnodup, hrest⟩
    · rw [hone, List.singleton_append, List.map_cons, List.nodup_cons]
      refine ⟨⟨?_, hnodup⟩, ?_⟩
      · intro hm
        obtain ⟨g', hg', he⟩ := List.mem_map.mp hm
        exact hfree g' hg' (he ▸ hgspent)
      · intro g' hg'
        rcases List.mem_cons.mp hg' with rfl | hg'
        · exact hgfree
        · exact hrest g' hg'

end QueueManager
end Goby
