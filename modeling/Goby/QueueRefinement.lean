import Goby.QueueMoves

/-! For each member function of `Queue` one theorem says which moves it makes. Where the
function could dereference an iterator, a second theorem says that it does not do so
to an erased message. -/

namespace Goby.Queue

open Contents (Move Moves)

variable {Desc Msg : Type} {q q' : Queue Desc Msg} {m : QueuedMessage Msg} {clock : ℕ → ℕ}
  {frame now it : ℕ} {start : ℕ} {wait : ℚ} {n n' : ℕ} {messages : StableList (QueuedMessage Msg)}
  {rest kept erased : Multimap ℕ ℕ} {popped : Option ℕ}

theorem overflowIt_mem {n : ℕ × QueuedMessage Msg}
    (h : q.overflowIt = some n) : n ∈ q.messages.nodes := by
  unfold overflowIt at h
  split at h
  · exact StableList.front?_mem h
  · exact StableList.back?_mem h

theorem store_moves (hq : Wf q) (m : QueuedMessage Msg) :
    Moves q.contents (q.store m).2 (q.store m).1.contents := by
  let pushed : Queue Desc Msg := { q with messages := q.messages.pushBack m }
  have hpush : Move q.contents (.stored q.messages.next m.dcclMsg) pushed.contents := .stored m rfl rfl
  have hremove : ∀ n ∈ pushed.messages.nodes, Moves q.contents
      [.stored q.messages.next m.dcclMsg, .evicted n.1]
      ⟨pushed.messages.erase n.1, pushed.eraseAck n.1⟩ := by
    intro n hn
    refine .step hpush (.single (.removed rfl (StableList.mem_addrs_of_mem hn) ?_ ?_ rfl ?_))
    · intro msg h
      cases h
    · intro frame msg h
      cases h
    · exact eraseAck_eq_filter (hpush.wf hq) n.1
  unfold store
  dsimp only
  split
  · cases ho : pushed.overflowIt with
    | none => simpa only [pushed, ho] using Moves.single hpush
    | some n => simpa only [pushed, ho] using hremove n (overflowIt_mem ho)
  · exact .single hpush

theorem pushMessage_moves (hq : Wf q) (parent : Parent Msg)
    (clock : ℕ → ℕ) (n : ℕ) (msg : Msg) (given : QueuedMessageMeta) :
    Moves q.contents (q.pushMessage parent clock n msg given).events
      (q.pushMessage parent clock n msg given).queue.contents := by
  unfold pushMessage
  dsimp only
  split_ifs
  all_goals first
    | exact .refl _
    | exact store_moves hq _

section

variable (q : Queue Desc Msg) (m : QueuedMessage Msg)

theorem store_nodes : ∀ n ∈ (q.store m).1.messages.nodes, n ∈ q.messages.nodes ∨ n.2 = m := by
  have hpush : ∀ n ∈ (q.messages.pushBack m).nodes, n ∈ q.messages.nodes ∨ n.2 = m := by
    intro n hn
    rcases List.mem_append.mp hn with hn | hn
    · exact .inl hn
    · rw [List.mem_singleton.mp hn]
      exact .inr rfl
  unfold store
  dsimp only
  split
  · split
    · exact hpush
    · exact fun n hn => hpush n (List.mem_of_mem_filter hn)
  · exact hpush

theorem store_desc : (q.store m).1.desc = q.desc := by
  unfold store
  dsimp only
  split
  · split <;> rfl
  · rfl

theorem store_events : ∀ e ∈ (q.store m).2, ∃ it, e = .stored it m.dcclMsg ∨ e = .evicted it := by
  unfold store
  dsimp only
  split
  · split <;> simp
  · simp

end

section

variable (q : Queue Desc Msg) (parent : Parent Msg) (clock : ℕ → ℕ) (n : ℕ) (msg : Msg)
  (given : QueuedMessageMeta)

theorem pushMessage_desc : (q.pushMessage parent clock n msg given).queue.desc = q.desc := by
  unfold pushMessage
  dsimp only
  split_ifs
  all_goals first
    | rfl
    | exact store_desc q _

theorem pushMessage_events :
    ∀ e ∈ (q.pushMessage parent clock n msg given).events, ∃ it, e = .stored it msg ∨ e = .evicted it := by
  unfold pushMessage
  dsimp only
  split_ifs
  all_goals first
    | exact store_events q _
    | simp

end

theorem giveData_some (h : q.giveData frame now = some (it, m, q')) :
    ∃ before after m₀, q.searchOrder = before ++ (it, m₀) :: after ∧
      (∀ d ∈ before, (q.findAckValue d.1).isSome) ∧ q.findAckValue it = none ∧
      m = givenMessage m₀ now ∧ q' = { q with
        messages := q.messages.modify it (fun _ => m)
        waitingForAck := if m.msgMeta.ackRequestedD
          then q.waitingForAck.insert frame it else q.waitingForAck
        lastSendTime := unixMicrosec2ptime now } := by
  unfold giveData at h
  cases hn : q.nextMessageIt with
  | none => simp [hn] at h
  | some d =>
    obtain ⟨before, after, he, hfree, hb⟩ := skipWaiting_some hn
    simp only [hn, Option.some.injEq, Prod.mk.injEq] at h
    obtain ⟨rfl, rfl, rfl⟩ := h
    exact ⟨before, after, d.2, he, hb, hfree, rfl, rfl⟩

theorem giveData_move (h : q.giveData frame now = some (it, m, q')) :
    Move q.contents (.gave it frame m.dcclMsg) q'.contents := by
  obtain ⟨before, after, m₀, hs, -, hfree, hm, rfl⟩ := giveData_some h
  have hmem : (it, m₀) ∈ q.messages.nodes := mem_searchOrder.mp (by simp [hs])
  have hsame : m₀.dcclMsg = m.dcclMsg := by rw [hm]; rfl
  exact .gave m₀ m (StableList.get?_of_mem_nodes hmem) hsame rfl (findAckValue_eq_none.mp hfree) rfl rfl

theorem giveData_desc (h : q.giveData frame now = some (it, m, q')) : q'.desc = q.desc := by
  obtain ⟨before, after, m₀, -, -, -, -, rfl⟩ := giveData_some h
  rfl

theorem findUnacked_append {before after : List (ℕ × QueuedMessage Msg)}
    (hb : ∀ d ∈ before, d.2.msgMeta.ackRequestedD = true)
    (hm : m.msgMeta.ackRequestedD = false) : findUnacked (before ++ (it, m) :: after) = some it := by
  induction before with
  | nil => simp [findUnacked, hm]
  | cons d before ih =>
    rw [List.cons_append, findUnacked, if_pos (hb d List.mem_cons_self)]
    exact ih (fun e he => hb e (List.mem_cons_of_mem _ he))

theorem searchOrder_modify {f : QueuedMessage Msg → QueuedMessage Msg}
    (hm : q'.messages = q.messages.modify it f) (hc : q'.cfg = q.cfg) :
    q'.searchOrder = q.searchOrder.map (fun n => if n.1 = it then (n.1, f n.2) else n) := by
  unfold searchOrder
  rw [hm, hc, StableList.nodes_modify]
  split
  · rw [List.map_reverse]
  · rfl

/-- In search order, the messages before the given one are all awaiting acknowledgments, so
the search for a message without one stops at the given message too. -/
theorem popMessage_of_giveData (hq : Wf q) (h : q.giveData frame now = some (it, m, q'))
    (hack : m.msgMeta.ackRequestedD = false) :
    q'.popMessage = some (some it, { q' with messages := q'.messages.erase it }) := by
  obtain ⟨before, after, m₀, hs, hb, hfree, hm, hq'⟩ := giveData_some h
  have hmsgs : q'.messages = q.messages.modify it (fun _ => m) := by rw [hq']
  have hcfg : q'.cfg = q.cfg := by rw [hq']
  have hbefore : ∀ d ∈ before, d.1 ≠ it ∧ d.2.msgMeta.ackRequestedD = true := by
    intro d hd
    obtain ⟨e, he⟩ := Option.isSome_iff_exists.mp (hb d hd)
    have hed : e.2 = d.1 := by simpa using List.find?_some he
    refine ⟨?_, ?_⟩
    · rintro rfl
      simp [hfree] at he
    · obtain ⟨x, hx, hxa⟩ := hq.live e (List.mem_of_find?_eq_some he)
      have hdn : d ∈ q.messages.nodes := mem_searchOrder.mp (by simp [hs, hd])
      rw [hed, StableList.get?_of_mem_nodes hdn, Option.some.injEq] at hx
      rwa [hx]
  have horder : q'.searchOrder =
      before ++ (it, m) :: after.map (fun n => if n.1 = it then (n.1, m) else n) := by
    rw [searchOrder_modify hmsgs hcfg, hs, List.map_append, List.map_cons]
    congr 1
    · conv_rhs => rw [← List.map_id before]
      apply List.map_congr_left
      intro d hd
      simp [(hbefore d hd).1]
    · simp
  have hne : q'.messages.nodes.isEmpty = false := by
    rw [List.isEmpty_eq_false_iff]
    exact List.ne_nil_of_mem (mem_searchOrder.mp (horder ▸ List.mem_append_right _ List.mem_cons_self))
  rw [popMessage, hne, horder, findUnacked_append (fun d hd => (hbefore d hd).2) hack]
  rfl

theorem findUnacked_some {l : List (ℕ × QueuedMessage Msg)}
    (h : findUnacked l = some it) : ∃ m, (it, m) ∈ l ∧ m.msgMeta.ackRequestedD = false := by
  induction l with
  | nil => simp [findUnacked] at h
  | cons d rest ih =>
    by_cases hd : d.2.msgMeta.ackRequestedD = true
    · rw [findUnacked, if_pos hd] at h
      obtain ⟨m, hm, ha⟩ := ih h
      exact ⟨m, List.mem_cons_of_mem _ hm, ha⟩
    · rw [findUnacked, if_neg hd, Option.some.injEq] at h
      subst h
      exact ⟨d.2, List.mem_cons_self, by simpa using hd⟩

theorem popMessage_eq (hp : q.popMessage = some (popped, q')) :
    q' = q ∨ ∃ it, q' = { q with messages := q.messages.erase it } := by
  unfold popMessage at hp
  split at hp
  · cases hp
  · split at hp
    · cases hp
      exact .inl rfl
    · cases hp
      exact .inr ⟨_, rfl⟩

theorem popMessage_waiting
    (h : q.popMessage = some (popped, q')) : q'.waitingForAck = q.waitingForAck := by
  rcases popMessage_eq h with rfl | ⟨it, rfl⟩ <;> rfl

theorem popMessage_move (hq : Wf q)
    (h : q.popMessage = some (some it, q'))
    (frame : ℕ) : Move q.contents (.popped it frame) q'.contents := by
  unfold popMessage at h
  split_ifs at h
  cases hf : findUnacked q.searchOrder with
  | none => simp [hf] at h
  | some i =>
    simp only [hf, Option.some.injEq, Prod.mk.injEq] at h
    obtain ⟨rfl, rfl⟩ := h
    obtain ⟨m, hm, hack⟩ := findUnacked_some hf
    have hn := mem_searchOrder.mp hm
    refine .removed rfl (StableList.mem_addrs_of_mem hn) (by intro _ h; cases h)
      (by intro _ _ h; cases h) rfl ?_
    -- the popped message asks for no acknowledgment, so no entry points at it
    symm
    rw [List.filter_eq_self]
    intro e he
    obtain ⟨x, hx, hxa⟩ := hq.live e he
    have hne : e.2 ≠ i := by
      rintro rfl
      rw [StableList.get?_of_mem_nodes hn, Option.some.injEq] at hx
      simp [← hx, hack] at hxa
    simpa using hne

theorem popMessageAck_move (hq : Wf q) {frame it : ℕ} {msg : Msg}
    (h : q.popMessageAck frame = some (some (it, msg), q')) :
    Move q.contents (.ackPopped it frame msg) q'.contents := by
  unfold popMessageAck at h
  cases hf : q.waitingForAck.find frame with
  | none => simp [hf] at h
  | some e =>
    obtain ⟨f, i⟩ := e
    obtain ⟨he, hkey⟩ := Multimap.mem_of_find hf
    obtain ⟨m, hget, hack⟩ := hq.live _ he
    simp only [hf, hget, Option.some.injEq, Prod.mk.injEq] at h
    obtain ⟨⟨rfl, rfl⟩, rfl⟩ := h
    simp only at hkey
    subst hkey
    refine .removed rfl (StableList.mem_addrs.mpr ⟨m, hget⟩) ?_ ?_ rfl
      (Multimap.eraseP_eq_filter hq.injective hf)
    · rintro msg ⟨⟩
      exact ⟨m, hget, rfl⟩
    · rintro frame msg ⟨⟩
      exact he

theorem popMessageAck_desc {frame : ℕ} {removed : Option (ℕ × Msg)}
    (h : q.popMessageAck frame = some (removed, q')) : q'.desc = q.desc := by
  unfold popMessageAck at h
  split at h
  · cases h; rfl
  · split at h
    · cases h
    · cases h; rfl

theorem popMessageAck_none {frame : ℕ} (h : q.popMessageAck frame = some (none, q')) :
    q' = q ∧ q.waitingForAck.count frame = 0 := by
  unfold popMessageAck at h
  cases hf : q.waitingForAck.find frame with
  | none =>
    simp only [hf, Option.some.injEq, Prod.mk.injEq, true_and] at h
    exact ⟨h.symm, Multimap.count_eq_zero_of_find hf⟩
  | some e => cases hg : q.messages.get? e.2 <;> simp [hf, hg] at h

theorem popMessageAck_isSome (hq : Wf q) (frame : ℕ) : ∃ r, q.popMessageAck frame = some r := by
  unfold popMessageAck
  cases hf : q.waitingForAck.find frame with
  | none => exact ⟨_, rfl⟩
  | some e =>
    obtain ⟨m, hget, -⟩ := hq.live e (Multimap.mem_of_find hf).1
    rw [← Option.isSome_iff_exists]
    simp [hget]

theorem expireLoop_moves (clock : ℕ → ℕ) (fuel n : ℕ) (hq : Wf q) :
    Moves q.contents ((expireLoop clock fuel n q).1.map (fun e => .expired e.1 e.2))
      (expireLoop clock fuel n q).2.1.contents := by
  induction fuel generalizing n q with
  | zero => exact .refl _
  | succ fuel ih =>
    cases hf : q.messages.front? with
    | none => simpa [expireLoop, hf] using Moves.refl q.contents
    | some d =>
      by_cases he : q.isExpired d.2 (clock n) = true
      · let q₁ : Queue Desc Msg :=
          { q with waitingForAck := q.eraseAck d.1, messages := q.messages.erase d.1 }
        have hmem := StableList.front?_mem hf
        have hmove : Move q.contents (.expired d.1 d.2.dcclMsg) q₁.contents := by
          refine .removed rfl (StableList.mem_addrs_of_mem hmem) ?_ (by intro _ _ h; cases h) rfl
            (eraseAck_eq_filter hq d.1)
          rintro msg ⟨⟩
          exact ⟨d.2, StableList.get?_of_mem_nodes hmem, rfl⟩
        simpa [expireLoop, hf, he] using Moves.step hmove (ih (n + 1) (hmove.wf hq))
      · simpa [expireLoop, hf, he] using Moves.refl q.contents

theorem expire_moves (hq : Wf q) (clock : ℕ → ℕ) (n : ℕ) :
    Moves q.contents ((q.expire clock n).1.map (fun e => .expired e.1 e.2))
      (q.expire clock n).2.1.contents :=
  expireLoop_moves clock q.size n hq

theorem expireLoop_desc (clock : ℕ → ℕ) (fuel n : ℕ) (q : Queue Desc Msg) :
    (expireLoop clock fuel n q).2.1.desc = q.desc := by
  induction fuel generalizing n q with
  | zero => rfl
  | succ fuel ih =>
    unfold expireLoop
    split
    · rfl
    · split
      · exact ih _ _
      · rfl

theorem expire_desc (q : Queue Desc Msg) (clock : ℕ → ℕ) (n : ℕ) :
    (q.expire clock n).2.1.desc = q.desc := expireLoop_desc clock q.size n q

theorem expire_of_empty (h : q.messages.front? = none) (clock : ℕ → ℕ) (n : ℕ) :
    q.expire clock n = ([], q, n) := by
  have hsize : q.size = 0 := by
    simpa [size, StableList.size, StableList.front?, List.head?_eq_none_iff] using h
  simp [expire, hsize, expireLoop]

theorem size_eq_succ {m : ℕ × QueuedMessage Msg} (h : q.messages.front? = some m) :
    ∃ fuel, q.size = fuel + 1 :=
  Nat.exists_eq_add_one.mpr (List.length_pos_of_mem (StableList.front?_mem h))

theorem expire_of_not_expired {n : ℕ} {m : ℕ × QueuedMessage Msg} (h : q.messages.front? = some m)
    (hx : q.isExpired m.2 (clock n) = false) : q.expire clock n = ([], q, n + 1) := by
  obtain ⟨fuel, hsize⟩ := size_eq_succ h
  simp [expire, hsize, expireLoop, h, hx]

theorem expire_of_expired {n : ℕ} {m : ℕ × QueuedMessage Msg} (h : q.messages.front? = some m)
    (hx : q.isExpired m.2 (clock n) = true) :
    ∃ rest, (q.expire clock n).1 = (m.1, m.2.dcclMsg) :: rest := by
  obtain ⟨fuel, hsize⟩ := size_eq_succ h
  simp [expire, hsize, expireLoop, h, hx]

theorem flush_moves (hq : Wf q) :
    Moves q.contents (q.messages.addrs.map .flushed) q.flush.contents := by
  induction hn : q.messages.nodes generalizing q with
  | nil =>
    have ha : q.messages.addrs = [] := by simp [StableList.addrs, hn]
    have hw : q.waitingForAck = [] := by
      rw [List.eq_nil_iff_forall_not_mem]
      intro e he
      obtain ⟨m, hget, -⟩ := hq.live e he
      have := StableList.mem_addrs.mpr ⟨m, hget⟩
      simp [ha] at this
    rw [ha]
    have hm : q.messages = q.messages.clear :=
      StableList.ext (by simp [StableList.clear, hn]) rfl
    have hc : q.contents = q.flush.contents := by
      rw [contents, hw]
      exact congrArg (fun m => (⟨m, []⟩ : Contents Msg)) hm
    rw [← hc]
    exact .refl _
  | cons d rest ih =>
    have hd : d ∈ q.messages.nodes := by simp [hn]
    let q₁ : Queue Desc Msg := { q with
      messages := q.messages.erase d.1
      waitingForAck := q.waitingForAck.filter (fun e => e.2 ≠ d.1) }
    have hmove : Move q.contents (.flushed d.1) q₁.contents :=
      .removed rfl (StableList.mem_addrs_of_mem hd) (by intro _ h; cases h) (by intro _ _ h; cases h)
        rfl rfl
    have hrest : q₁.messages.nodes = rest := StableList.nodes_erase_front hn
    have hm := Moves.step hmove (ih (hmove.wf hq) hrest)
    have ha : q.messages.addrs = d.1 :: q₁.messages.addrs := by
      simp only [StableList.addrs, hrest, hn, List.map_cons]
    rw [ha]
    exact hm

/-- Of some entries those that are erased and those that are kept, which are all of a frame
before the first frame number. -/
structure Cleared (start : ℕ) (m kept erased : Multimap ℕ ℕ) : Prop where
  sublist : erased.Sublist m
  kept_eq : kept = m.filter (fun e => e.2 ∉ erased.map Prod.snd)
  kept_lt : ∀ e ∈ kept, e.1 < start

theorem Cleared.erase {e : ℕ × ℕ}
    (h : Cleared start rest kept erased) (he : e.2 ∉ rest.map Prod.snd) :
    Cleared start (e :: rest) kept (e :: erased) := by
  refine ⟨h.sublist.cons_cons e, ?_, h.kept_lt⟩
  rw [List.filter_cons_of_neg (by simp), h.kept_eq]
  apply List.filter_congr
  intro c hc
  have hne : c.2 ≠ e.2 := fun heq => he (heq ▸ List.mem_map_of_mem hc)
  simp [hne]

theorem Cleared.keep {e : ℕ × ℕ}
    (h : Cleared start rest kept erased) (he : e.2 ∉ rest.map Prod.snd) (hlt : e.1 < start) :
    Cleared start (e :: rest) (e :: kept) erased := by
  have hmem : e.2 ∉ erased.map Prod.snd := fun hm => he ((h.sublist.map _).subset hm)
  refine ⟨h.sublist.trans (List.sublist_cons_self _ _), ?_, List.forall_mem_cons.mpr ⟨hlt, h.kept_lt⟩⟩
  rw [List.filter_cons_of_pos (by simpa using hmem), ← h.kept_eq]

theorem clearAckEntries_spec {m kept erased : Multimap ℕ ℕ} (hn : (m.map Prod.snd).Nodup)
    (h : clearAckEntries messages clock wait start m n = some (kept, erased, n')) :
    Cleared start m kept erased := by
  induction m generalizing kept erased n n' with
  | nil =>
    simp only [clearAckEntries, Option.some.injEq, Prod.mk.injEq] at h
    obtain ⟨rfl, rfl, -⟩ := h
    exact ⟨.slnil, rfl, nofun⟩
  | cons e rest ih =>
    rw [List.map_cons, List.nodup_cons] at hn
    rw [clearAckEntries] at h
    split_ifs at h with hstart
    · simp only [Option.map_eq_some_iff, Prod.mk.injEq] at h
      obtain ⟨⟨k, d, x⟩, hr, rfl, rfl, rfl⟩ := h
      exact (ih hn.2 hr).erase hn.1
    · cases hg : messages.get? e.2 with
      | none => simp [hg] at h
      | some qm =>
        simp only [hg, Option.map_eq_some_iff] at h
        obtain ⟨⟨k, d, x⟩, hr, he⟩ := h
        split_ifs at he
        · simp only [Prod.mk.injEq] at he
          obtain ⟨rfl, rfl, -⟩ := he
          exact (ih hn.2 hr).erase hn.1
        · simp only [Prod.mk.injEq] at he
          obtain ⟨rfl, rfl, -⟩ := he
          exact (ih hn.2 hr).keep hn.1 (Nat.lt_of_not_le hstart)

theorem clearAckEntries_isSome (clock : ℕ → ℕ)
    (wait : ℚ) (start n : ℕ) {m : Multimap ℕ ℕ}
    (h : ∀ e ∈ m, ∃ x, messages.get? e.2 = some x) :
    ∃ r, clearAckEntries messages clock wait start m n = some r := by
  induction m generalizing n with
  | nil => exact ⟨_, rfl⟩
  | cons e rest ih =>
    have hrest : ∀ c ∈ rest, ∃ x, messages.get? c.2 = some x :=
      fun c hc => h c (List.mem_cons_of_mem _ hc)
    obtain ⟨x, hx⟩ := h e List.mem_cons_self
    obtain ⟨r, hr⟩ := ih n hrest
    obtain ⟨r', hr'⟩ := ih (n + 1) hrest
    rw [← Option.isSome_iff_exists, clearAckEntries]
    split_ifs
    · simp [hr]
    · simp [hx, hr']

theorem clearEntries_moves (erased : Multimap ℕ ℕ) (q : Queue Desc Msg)
    (hsub : ∀ e ∈ erased, e ∈ q.waitingForAck) (hn : (erased.map Prod.snd).Nodup) :
    Moves q.contents (erased.map (fun e => .ackCleared e.2 e.1))
      ⟨q.messages, q.waitingForAck.filter (fun e => e.2 ∉ erased.map Prod.snd)⟩ := by
  induction erased generalizing q with
  | nil => simpa using Moves.refl q.contents
  | cons e rest ih =>
    rw [List.map_cons, List.nodup_cons] at hn
    let q₁ : Queue Desc Msg := { q with
      waitingForAck := q.waitingForAck.filter (fun d => d.2 ≠ e.2) }
    have hmove : Move q.contents (.ackCleared e.2 e.1) q₁.contents :=
      .ackCleared (hsub e List.mem_cons_self) rfl rfl
    have hsub' : ∀ d ∈ rest, d ∈ q₁.waitingForAck := by
      intro d hd
      have hne : d.2 ≠ e.2 := fun he => hn.1 (he ▸ List.mem_map_of_mem hd)
      exact List.mem_filter.mpr ⟨hsub d (List.mem_cons_of_mem _ hd), by simpa using hne⟩
    have hm := Moves.step hmove (ih q₁ hsub' hn.2)
    have hf : q₁.waitingForAck.filter (fun d => d.2 ∉ rest.map Prod.snd) =
        q.waitingForAck.filter (fun d => d.2 ∉ (e :: rest).map Prod.snd) := by
      rw [List.filter_filter]
      apply List.filter_congr
      intro d _
      simp only [List.map_cons, List.mem_cons, not_or, ← Bool.decide_and]
      exact decide_eq_decide.mpr and_comm
    rw [hf] at hm
    exact hm

theorem clearAckQueue_moves (hq : Wf q) {erased : Multimap ℕ ℕ}
    (h : q.clearAckQueue clock n wait start = some (q', erased, n')) :
    Moves q.contents (erased.map (fun e => .ackCleared e.2 e.1)) q'.contents ∧
      ∀ e ∈ q'.waitingForAck, e.1 < start := by
  simp only [clearAckQueue, Option.map_eq_some_iff, Prod.mk.injEq] at h
  obtain ⟨⟨kept, d, x⟩, hr, rfl, rfl, rfl⟩ := h
  obtain ⟨hsub, hkept, hlt⟩ := clearAckEntries_spec hq.injective hr
  refine ⟨?_, hlt⟩
  have hm := clearEntries_moves erased q (fun e he => hsub.subset he)
    ((hsub.map _).nodup hq.injective)
  rw [← hkept] at hm
  exact hm

theorem clearAckQueue_desc {erased : Multimap ℕ ℕ}
    (h : q.clearAckQueue clock n wait start = some (q', erased, n')) : q'.desc = q.desc := by
  simp only [clearAckQueue, Option.map_eq_some_iff, Prod.mk.injEq] at h
  obtain ⟨r, -, rfl, -⟩ := h
  rfl

theorem clearAckQueue_isSome (hq : Wf q) (clock : ℕ → ℕ) (n : ℕ)
    (wait : ℚ) (start : ℕ) : ∃ r, q.clearAckQueue clock n wait start = some r := by
  obtain ⟨r, hr⟩ := clearAckEntries_isSome clock wait start n (m := q.waitingForAck)
    (fun e he => (hq.live e he).imp fun _ h => h.1)
  rw [← Option.isSome_iff_exists]
  simp [clearAckQueue, hr]

end Goby.Queue
