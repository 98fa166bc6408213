import Goby.QueueOperations

/-! Every change a queue can make is a sequence of moves of single messages: a message is
stored, given under a frame number, taken off the list of messages awaiting an
acknowledgment, or removed together with its entry there. The operations are shown to
be such sequences, and the facts about a queue are then proved once for each move. -/

namespace Goby

namespace QueueEvent

variable {Msg : Type}

def removes : QueueEvent Msg → Option ℕ
  | evicted it | popped it _ | ackPopped it _ _ | expired it _ | flushed it => some it
  | stored _ _ | gave _ _ _ | ackCleared _ _ => none

def isStored : QueueEvent Msg → Bool
  | stored _ _ => true
  | _ => false

def handed : QueueEvent Msg → Option (ℕ × Msg)
  | gave it _ msg | ackPopped it _ msg | expired it msg => some (it, msg)
  | _ => none

end QueueEvent

/-- The two containers of a queue. -/
structure Contents (Msg : Type) where
  messages : StableList (QueuedMessage Msg) := StableList.empty
  waitingForAck : Multimap ℕ ℕ := []

@[reducible] def Queue.contents {Desc Msg : Type} (q : Queue Desc Msg) : Contents Msg :=
  ⟨q.messages, q.waitingForAck⟩

namespace Contents

variable {Msg : Type} {c c' : Contents Msg} {es : List (QueueEvent Msg)} {e : QueueEvent Msg}
  {f it : ℕ} {msg : Msg}

/-- Every entry of `waitingForAck` points at a message of the queue that asks for an
acknowledgment, and no two entries point at the same one. -/
structure Wf (c : Contents Msg) : Prop where
  live : ∀ e ∈ c.waitingForAck, ∃ m, c.messages.get? e.2 = some m ∧ m.msgMeta.ackRequestedD = true
  injective : (c.waitingForAck.map Prod.snd).Nodup

inductive Move : Contents Msg → QueueEvent Msg → Contents Msg → Prop where
  | stored {c c' : Contents Msg} (m : QueuedMessage Msg)
      (hm : c'.messages = c.messages.pushBack m) (hw : c'.waitingForAck = c.waitingForAck) :
      Move c (.stored c.messages.next m.dcclMsg) c'
  | gave {c c' : Contents Msg} {it frame : ℕ} {msg : Msg} (m m' : QueuedMessage Msg)
      (hget : c.messages.get? it = some m) (hmsg : m.dcclMsg = msg) (hmsg' : m'.dcclMsg = msg)
      (hfree : it ∉ c.waitingForAck.map Prod.snd)
      (hm : c'.messages = c.messages.modify it (fun _ => m'))
      (hw : c'.waitingForAck = if m'.msgMeta.ackRequestedD
        then c.waitingForAck.insert frame it else c.waitingForAck) :
      Move c (.gave it frame msg) c'
  | ackCleared {c c' : Contents Msg} {it frame : ℕ} (he : (frame, it) ∈ c.waitingForAck)
      (hm : c'.messages = c.messages)
      (hw : c'.waitingForAck = c.waitingForAck.filter (fun e => e.2 ≠ it)) :
      Move c (.ackCleared it frame) c'
  | removed {c c' : Contents Msg} {e : QueueEvent Msg} {it : ℕ} (he : e.removes = some it)
      (hmem : it ∈ c.messages.addrs)
      (hmsg : ∀ msg, e.handed = some (it, msg) → ∃ m, c.messages.get? it = some m ∧ m.dcclMsg = msg)
      (hack : ∀ frame msg, e = .ackPopped it frame msg → (frame, it) ∈ c.waitingForAck)
      (hm : c'.messages = c.messages.erase it)
      (hw : c'.waitingForAck = c.waitingForAck.filter (fun e => e.2 ≠ it)) :
      Move c e c'

inductive Moves : Contents Msg → List (QueueEvent Msg) → Contents Msg → Prop where
  | refl (c : Contents Msg) : Moves c [] c
  | step {c c₁ c₂ : Contents Msg} {e : QueueEvent Msg} {es : List (QueueEvent Msg)}
      (h : Move c e c₁) (t : Moves c₁ es c₂) : Moves c (e :: es) c₂

theorem Moves.single (h : Move c e c') : Moves c [e] c' := .step h (.refl _)

theorem Moves.trans {c c₁ c₂ : Contents Msg} {es fs : List (QueueEvent Msg)}
    (h : Moves c es c₁) (h' : Moves c₁ fs c₂) : Moves c (es ++ fs) c₂ := by
  induction h with
  | refl => exact h'
  | step hs _ ih => exact .step hs (ih h')

theorem wf_empty : Wf ({} : Contents Msg) := ⟨by simp, by simp⟩

theorem Wf.filter (h : Wf c) (p : ℕ × ℕ → Bool) (hw : c'.waitingForAck = c.waitingForAck.filter p)
    (hm : ∀ e ∈ c.waitingForAck, p e → ∀ m, c.messages.get? e.2 = some m →
      c'.messages.get? e.2 = some m) : Wf c' := by
  refine ⟨?_, ?_⟩
  · intro e he
    rw [hw] at he
    obtain ⟨he, hp⟩ := List.mem_filter.mp he
    obtain ⟨m, hget, hack⟩ := h.live e he
    exact ⟨m, hm e he hp m hget, hack⟩
  · rw [hw]
    exact (List.filter_sublist.map _).nodup h.injective

theorem Move.wf (h : Move c e c') (hc : Wf c) : Wf c' := by
  cases h with
  | stored m hm hw =>
    refine ⟨?_, by rw [hw]; exact hc.injective⟩
    intro e he
    rw [hw] at he
    obtain ⟨m', hget, hack⟩ := hc.live e he
    exact ⟨m', hm ▸ StableList.get?_pushBack_of_mem hget, hack⟩
  | @gave _ it frame msg m m' hget _ _ hfree hm hw =>
    have hold : ∀ e ∈ c.waitingForAck, ∃ x, c'.messages.get? e.2 = some x ∧
        x.msgMeta.ackRequestedD = true := by
      intro e he
      obtain ⟨x, hx, hack⟩ := hc.live e he
      have hne : e.2 ≠ it := fun h => hfree (h ▸ List.mem_map_of_mem he)
      exact ⟨x, hm ▸ StableList.get?_modify_of_ne _ hx hne, hack⟩
    by_cases hack : m'.msgMeta.ackRequestedD = true
    · rw [if_pos hack] at hw
      refine ⟨?_, ?_⟩
      · intro e he
        rw [hw, Multimap.mem_insert] at he
        rcases he with rfl | he
        · exact ⟨m', hm ▸ StableList.get?_modify_self _ hget, hack⟩
        · exact hold e he
      · rw [hw, ((Multimap.insert_perm _ _ _).map Prod.snd).nodup_iff, List.map_cons,
          List.nodup_cons]
        exact ⟨hfree, hc.injective⟩
    · rw [if_neg hack] at hw
      exact ⟨fun e he => hold e (hw ▸ he), by rw [hw]; exact hc.injective⟩
  | ackCleared he hm hw => exact hc.filter _ hw (fun e _ _ x hx => hm ▸ hx)
  | removed _ _ _ _ hm hw =>
    apply hc.filter _ hw
    intro e _ hp x hx
    rw [hm]
    exact StableList.get?_erase_of_ne hx (by simpa using hp)

theorem Moves.wf (h : Moves c es c') (hc : Wf c) : Wf c' := by
  induction h with
  | refl => exact hc
  | step h _ ih => exact ih (h.wf hc)

/-- An entry stays until it is cleared or its message removed. -/
theorem Moves.kept (h : Moves c es c') (hes : ∀ it frame, .ackCleared it frame ∉ es) {entry : ℕ × ℕ}
    (he : entry ∈ c.waitingForAck) :
    entry ∈ c'.waitingForAck ∨ ∃ e ∈ es, e.removes = some entry.2 := by
  induction h with
  | refl => exact .inl he
  | @step c c₁ c₂ e es h _ ih =>
    have hrest (he₁ : entry ∈ c₁.waitingForAck) :
        entry ∈ c₂.waitingForAck ∨ ∃ e' ∈ e :: es, e'.removes = some entry.2 :=
      (ih (fun it frame hm => hes it frame (List.mem_cons_of_mem _ hm)) he₁).imp_right
        fun ⟨e', hm, hr⟩ => ⟨e', List.mem_cons_of_mem _ hm, hr⟩
    cases h with
    | stored m hm hw => exact hrest (hw ▸ he)
    | gave m m' _ _ _ _ hm hw =>
      refine hrest ?_
      rw [hw]
      split
      · exact Multimap.mem_insert.mpr (.inr he)
      · exact he
    | ackCleared => exact absurd List.mem_cons_self (hes _ _)
    | @removed _ e it hr _ _ _ hm hw =>
      by_cases hit : entry.2 = it
      · exact .inr ⟨e, List.mem_cons_self, hit ▸ hr⟩
      · exact hrest (hw ▸ List.mem_filter.mpr ⟨he, by simpa using hit⟩)

theorem Move.waiting_sublist (h : Move c e c')
    (he : ∀ it frame msg, e ≠ .gave it frame msg) : c'.waitingForAck.Sublist c.waitingForAck := by
  cases h with
  | stored m hm hw => rw [hw]
  | @gave _ it frame msg => exact absurd rfl (he it frame msg)
  | ackCleared _ _ hw | removed _ _ _ _ _ hw => rw [hw]; exact List.filter_sublist

theorem Moves.waiting_sublist (h : Moves c es c')
    (hes : ∀ it frame msg, .gave it frame msg ∉ es) : c'.waitingForAck.Sublist c.waitingForAck := by
  induction h with
  | refl => exact .refl _
  | step h _ ih =>
    have hfirst := h.waiting_sublist fun it frame msg he => hes it frame msg (he ▸ List.mem_cons_self)
    exact (ih fun it frame msg hm => hes it frame msg (List.mem_cons_of_mem _ hm)).trans hfirst

theorem Moves.sent_sublist {it frame : ℕ} (h : Moves c [.gave it frame msg, .popped it frame] c') :
    c'.waitingForAck.Sublist c.waitingForAck := by
  rcases h with _ | ⟨hg, _ | ⟨hp, _ | _⟩⟩
  cases hg with
  | removed he => cases he
  | gave m m' _ _ _ hfree hm hw =>
    cases hp with
    | removed he _ _ _ hm' hw' =>
      cases he
      rw [hw', hw]
      split
      · rw [Multimap.filter_insert_of_neg (by simp)]
        exact List.filter_sublist
      · exact List.filter_sublist

theorem Move.count_ackPopped {it frame : ℕ} (h : Move c (.ackPopped it frame msg) c') :
    c'.waitingForAck.count frame + 1 ≤ c.waitingForAck.count frame := by
  cases h with
  | removed he _ _ hack hm hw =>
    cases he
    have hsplit := List.countP_eq_countP_filter_add c.waitingForAck (fun e => e.1 = frame)
      (fun e => e.2 ≠ it)
    have hpos : 0 < List.countP (fun e : ℕ × ℕ => e.1 = frame)
        (c.waitingForAck.filter (fun e => !decide (e.2 ≠ it))) :=
      List.countP_pos_iff.mpr ⟨_, List.mem_filter.mpr ⟨hack frame msg rfl, by simp⟩, by simp⟩
    rw [Multimap.count, Multimap.count, hw, hsplit]
    omega

/-- An entry that is there at the end was there before or was made in between. -/
theorem Move.mem_waiting (h : Move c e c')
    (hm : (f, it) ∈ c'.waitingForAck) : (f, it) ∈ c.waitingForAck ∨ ∃ msg, e = .gave it f msg := by
  cases h with
  | stored m _ hw => exact .inl (hw ▸ hm)
  | @gave _ i frame msg m m' _ _ _ hfree _ hw =>
    rw [hw] at hm
    split at hm
    · rcases Multimap.mem_insert.mp hm with he | hm
      · obtain ⟨rfl, rfl⟩ := Prod.mk.inj he
        exact .inr ⟨msg, rfl⟩
      · exact .inl hm
    · exact .inl hm
  | ackCleared _ _ hw | removed _ _ _ _ _ hw => exact .inl (List.mem_of_mem_filter (hw ▸ hm))

theorem Moves.mem_waiting (h : Moves c es c') (hm : (f, it) ∈ c'.waitingForAck) :
    (f, it) ∈ c.waitingForAck ∨ ∃ msg, .gave it f msg ∈ es := by
  induction h with
  | refl => exact .inl hm
  | step h _ ih =>
    rcases ih hm with hm | ⟨msg, hm⟩
    · rcases h.mem_waiting hm with hm | ⟨msg, rfl⟩
      · exact .inl hm
      · exact .inr ⟨msg, List.mem_cons_self⟩
    · exact .inr ⟨msg, List.mem_cons_of_mem _ hm⟩

/-- A message removed on an acknowledgment was awaiting it under that frame. -/
theorem Moves.ackPopped (h : Moves c es c') (he : .ackPopped it f msg ∈ es) :
    (f, it) ∈ c.waitingForAck ∨ ∃ msg, .gave it f msg ∈ es := by
  induction h with
  | refl => simp at he
  | @step c c₁ c₂ e es h t ih =>
    rcases List.mem_cons.mp he with rfl | he
    · cases h with
      | removed hr _ _ hack _ _ =>
        cases hr
        exact .inl (hack f msg rfl)
    · rcases ih he with hm | ⟨msg, hm⟩
      · rcases h.mem_waiting hm with hm | ⟨msg, rfl⟩
        · exact .inl hm
        · exact .inr ⟨msg, List.mem_cons_self⟩
      · exact .inr ⟨msg, List.mem_cons_of_mem _ hm⟩

theorem Move.size (h : Move c e c') :
    c'.messages.size + (if e.removes.isSome then 1 else 0) =
      c.messages.size + if e.isStored then 1 else 0 := by
  cases h with
  | stored m hm hw => simp [hm, QueueEvent.removes, QueueEvent.isStored]
  | gave m m' _ _ _ _ hm hw => simp [hm, QueueEvent.removes, QueueEvent.isStored]
  | ackCleared he hm hw => simp [hm, QueueEvent.removes, QueueEvent.isStored]
  | @removed _ e it he hmem _ _ hm hw =>
    have hsize := StableList.size_erase hmem
    have hstored : e.isStored = false := by cases e <;> first | rfl | cases he
    rw [hm, he, hstored]
    simpa using hsize

theorem Moves.size (h : Moves c es c') :
    c'.messages.size + es.countP (fun e => e.removes.isSome) =
      c.messages.size + es.countP QueueEvent.isStored := by
  induction h with
  | refl => rfl
  | @step c c₁ c₂ e es h t ih =>
    have hfirst := h.size
    rw [List.countP_cons, List.countP_cons]
    omega

end Contents

namespace Queue

variable {Desc Msg : Type} {q : Queue Desc Msg} {m : ℕ × QueuedMessage Msg}
  {l : List (ℕ × QueuedMessage Msg)}

abbrev Wf (q : Queue Desc Msg) : Prop := q.contents.Wf

theorem findAckValue_eq_none {it : ℕ} :
    q.findAckValue it = none ↔ it ∉ q.waitingForAck.map Prod.snd := by
  simp only [findAckValue, List.find?_eq_none, List.mem_map, not_exists, not_and, decide_eq_true_eq]

theorem eraseAck_eq_filter (hq : Wf q) (it : ℕ) :
    q.eraseAck it = q.waitingForAck.filter (fun e => e.2 ≠ it) := by
  cases h : q.findAckValue it with
  | some e =>
    have he : e.2 = it := by simpa using List.find?_some h
    rw [eraseAck, Multimap.eraseP_eq_filter hq.injective h, he]
  | none =>
    have hn := findAckValue_eq_none.mp h
    have hkeep : q.waitingForAck.filter (fun e => e.2 ≠ it) = q.waitingForAck := by
      rw [List.filter_eq_self]
      intro e he
      have hne : e.2 ≠ it := fun h => hn (h ▸ List.mem_map_of_mem he)
      simpa using hne
    rw [hkeep]
    exact List.eraseP_of_forall_not (by
      intro e he
      have hne : e.2 ≠ it := fun h => hn (h ▸ List.mem_map_of_mem he)
      simpa using hne)

theorem mem_searchOrder : m ∈ q.searchOrder ↔ m ∈ q.messages.nodes := by
  unfold searchOrder
  split <;> simp

theorem skipWaiting_some (h : q.skipWaiting l = some m) :
    ∃ before after, l = before ++ m :: after ∧ q.findAckValue m.1 = none ∧
      ∀ d ∈ before, (q.findAckValue d.1).isSome := by
  induction l with
  | nil => simp [skipWaiting] at h
  | cons d rest ih =>
    by_cases hd : (q.findAckValue d.1).isSome
    · rw [skipWaiting, if_pos hd] at h
      obtain ⟨before, after, rfl, hm, hb⟩ := ih h
      exact ⟨d :: before, after, rfl, hm, by simpa [hd] using hb⟩
    · rw [skipWaiting, if_neg hd, Option.some.injEq] at h
      subst h
      exact ⟨[], rest, rfl, by simpa using hd, by simp⟩

theorem nextMessageIt_some
    (h : q.nextMessageIt = some m) : m ∈ q.messages.nodes ∧ q.findAckValue m.1 = none := by
  obtain ⟨before, after, he, hm, -⟩ := skipWaiting_some h
  exact ⟨mem_searchOrder.mp (by simp [he]), hm⟩

theorem skipWaiting_none (h : q.skipWaiting l = none) : ∀ d ∈ l, (q.findAckValue d.1).isSome := by
  induction l with
  | nil => simp
  | cons d rest ih =>
    by_cases hd : (q.findAckValue d.1).isSome
    · rw [skipWaiting, if_pos hd] at h
      simpa [hd] using ih h
    · simp [skipWaiting, hd] at h

/-- The search runs past the end only if every message is waiting, and then there are at
least as many entries as messages. -/
theorem nextMessageIt_isSome (h : q.waitingForAck.length < q.size) :
    ∃ m, q.nextMessageIt = some m := by
  cases hn : q.nextMessageIt with
  | some m => exact ⟨m, rfl⟩
  | none =>
    exfalso
    have hall := skipWaiting_none hn
    have hsub : q.messages.addrs ⊆ q.waitingForAck.map Prod.snd := by
      intro it hit
      obtain ⟨d, hd, rfl⟩ := List.mem_map.mp hit
      by_contra hne
      have := hall d (mem_searchOrder.mpr hd)
      rw [findAckValue_eq_none.mpr hne] at this
      simp at this
    have hle := (List.subperm_of_subset q.messages.addrs_nodup hsub).length_le
    rw [StableList.length_addrs, List.length_map] at hle
    exact absurd h (by simp only [size]; omega)

end Queue
end Goby
