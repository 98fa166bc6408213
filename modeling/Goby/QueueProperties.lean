import Goby.CodecStability
import Goby.DataRequestRefinement

/-! A property of single queues that giving a message and popping it keep holds of every queue of
the manager throughout a request, as long as it holds of what is pushed on demand. -/

namespace Goby

namespace Queue

variable {Desc Msg : Type} {q q' : Queue Desc Msg} {P : QueuedMessageMeta → Prop}
  {m : QueuedMessage Msg}

def All (P : QueuedMessageMeta → Prop) (q : Queue Desc Msg) : Prop :=
  ∀ n ∈ q.messages.nodes, P n.2.msgMeta

theorem All.next (h : q.All P) {it : ℕ} (hm : q.nextMessageIt = some (it, m)) : P m.msgMeta := by
  obtain ⟨before, after, horder, -⟩ := skipWaiting_some hm
  exact h (it, m) (mem_searchOrder.mp (by rw [horder]; simp))

theorem All.giveData (hP : ∀ (m : QueuedMessage Msg) now, P m.msgMeta → P (givenMessage m now).msgMeta)
    (h : q.All P) {frame now it : ℕ}
    (hg : q.giveData frame now = some (it, m, q')) : q'.All P := by
  obtain ⟨before, after, m₀, hs, -, -, hm, rfl⟩ := giveData_some hg
  have hm₀ : P m₀.msgMeta := h (it, m₀) (mem_searchOrder.mp (by rw [hs]; simp))
  intro node hnode
  obtain ⟨node₀, hnode₀, rfl⟩ := List.mem_map.mp hnode
  dsimp only
  split
  · rw [hm]
    exact hP m₀ now hm₀
  · exact h node₀ hnode₀

theorem All.popMessage (h : q.All P) {popped : Option ℕ} (hp : q.popMessage = some (popped, q')) :
    q'.All P := by
  rcases popMessage_eq hp with rfl | ⟨it, rfl⟩
  · exact h
  · exact fun n hn => h n (List.mem_of_mem_filter hn)

theorem clearAckQueue_eq {clock : ℕ → ℕ} {n n' start : ℕ} {wait : ℚ} {erased : Multimap ℕ ℕ}
    (hc : q.clearAckQueue clock n wait start = some (q', erased, n')) :
    ∃ waiting, q' = { q with waitingForAck := waiting } := by
  obtain ⟨r, -, hr⟩ := Option.map_eq_some_iff.mp hc
  exact ⟨r.1, (congrArg Prod.fst hr).symm⟩

end Queue

namespace QueueManager

variable {Desc Msg : Type} {env : Environment Desc Msg} {s s' : QueueManager Desc Msg}
  {C : Queue Desc Msg → Prop} {k : ℕ}

def Each (C : Queue Desc Msg → Prop) (s : QueueManager Desc Msg) : Prop :=
  ∀ (k : ℕ) (q : Queue Desc Msg), s.queues[k]? = some q → C q

theorem each_of_toList (h : ∀ e ∈ s.queues.toList, C e.2) : s.Each C :=
  fun _ _ hq => h _ (Std.TreeMap.mem_toList_iff_getElem?_eq_some.mpr hq)

theorem Each.of_queues (h : s.Each C) (hq : s'.queues = s.queues) : s'.Each C := by
  unfold Each
  rwa [hq]

theorem Each.insert (h : s.Each C) {q : Queue Desc Msg} (hq : C q)
    (hs : s'.queues = s.queues.insert k q) : s'.Each C := by
  intro j p hp
  rw [hs, Std.TreeMap.getElem?_insert] at hp
  split at hp
  · cases hp
    exact hq
  · exact h j p hp

theorem each_qsize (k : ℕ) : Guarantees (Preserves (Each C)) (qsize env k) :=
  .bind (reads_getQueue k) fun _ => .modify fun _ h => h.of_queues rfl

theorem each_address (i : ℕ) (m : QueuedMessage Msg) (msg : ModemTransmission) :
    Guarantees (Preserves (Each C)) (address i m msg : Code Desc Msg _) := by
  unfold address
  split
  · refine .bind .get fun s => .bind (.modify fun t h => ?_) fun _ => .pure _
    split
    · exact h.of_queues rfl
    · exact h
  · exact .pure _

theorem each_applyRule [DecidableEq Desc] (modem : ℤ) :
    Guarantees (Preserves (Each C)) (applyRule env modem) := by
  refine .modify fun s h => ?_
  split
  · exact h
  · exact h.of_queues rfl

/-- Clearing acknowledgments changes nothing else of a queue. -/
theorem each_clearPacket (hclear : ∀ {q waiting}, C q → C { q with waitingForAck := waiting })
    (msg : ModemTransmission) : Guarantees (Preserves (Each C)) (clearPacket env msg) := by
  have hqueue : ∀ k start, Guarantees (Preserves (Each C)) (clearAckQueue env k start) := by
    intro k start s
    refine Ensures.finalState (.bind ?_)
    cases hq : s.queues[k]? with
    | none => simp [Ensures, getQueue, hq, Preserves]
    | some q =>
      refine .of_run (getQueue_run hq) (.bind (.get ?_))
      split
      · exact .throw id
      next q' erased n hc =>
        obtain ⟨waiting, rfl⟩ := Queue.clearAckQueue_eq hc
        exact .bind (.modify (.bind (.modify (.pure fun h => h.insert (hclear (h k q hq)) rfl))))
  have hentries : ∀ es, Guarantees (Preserves (Each C)) (clearEntries env msg.frameStart es) := by
    intro es
    induction es with
    | nil => exact .pure _
    | cons e rest ih => exact .bind (hqueue _ _) fun _ => .bind ih fun _ => .pure _
  exact .bind .get fun _ => .bind (hentries _) fun _ => .modify fun _ h => h.of_queues rfl

/-- Messages are stored that have the property if all others have it. -/
def KeptByPush (env : Environment Desc Msg) (C : Queue Desc Msg → Prop) : Prop :=
  ∀ {q : Queue Desc Msg} parent n msg given, C q → C (q.pushMessage parent env.clock n msg given).queue

theorem each_pushMessage (hpush : KeptByPush env C) (msg : Msg) (given : Option QueuedMessageMeta) :
    Guarantees (Preserves (Each C)) (pushMessage env msg given) := by
  have hmeta : ∀ q, Guarantees Eq (pushMeta env q msg given) := by
    intro q
    cases given with
    | some given => exact .pure _
    | none => exact .bind .get fun _ => reads_lift _
  intro s hs
  refine Ensures.finalState (.bind (.get ?_))
  split
  · exact .throw hs
  next q hq =>
    refine .bind (((hmeta q).ensures s).mono ?_ fun _ _ h => h ▸ hs)
    rintro msgMeta s' rfl
    refine .bind (.get (.bind (.modify (.bind (.modify (.bind (.modify (.bind (.modify ?_)))))))))
    exact .of_finalState (each_qsize _ _ (hs.insert (hpush _ _ _ _ (hs _ q hq)) rfl))

theorem each_findNextSender (hpush : KeptByPush env C) (request : ModemTransmission) (data : Bytes) :
    Guarantees (Preserves (Each C)) (findNextSender env request data) :=
  guarantees_findNextSender (fun _ => .modify fun _ h => h.of_queues rfl)
    (fun _ => .modify fun _ h => h.of_queues rfl) (each_pushMessage hpush) request data

section Taking

variable (hgive : ∀ {q q' : Queue Desc Msg} {frame now it m}, C q →
    q.giveData frame now = some (it, m, q') → C q')
  (hpop : ∀ {q q' : Queue Desc Msg} {popped}, C q → q.popMessage = some (popped, q') → C q')
include hgive hpop

theorem each_takeUserFrame (k frame : ℕ) : Guarantees (Preserves (Each C))
    (takeUserFrame env k frame) := by
  have hsettle {given : Queue Desc Msg} (hgiven : C given) (m : QueuedMessage Msg) :
      Guarantees (Preserves (Each C)) (settleGiven env k frame m given) := by
    unfold settleGiven
    split
    · exact .modify fun _ h => h.of_queues rfl
    · unfold popGiven
      split
      · exact .throw _
      · exact each_qsize k
      next hp => exact .bind (.modify fun _ h => h.insert (hpop hgiven hp) rfl) fun _ => each_qsize k
  intro s hs
  refine Ensures.finalState (.bind ?_)
  cases hq : s.queues[k]? with
  | none => simpa [Ensures, getQueue, hq] using hs
  | some q =>
    refine .of_run (getQueue_run hq) (.bind (.get ?_))
    split
    · exact .throw hs
    next it m given hg =>
      have hgiven : C given := hgive (hs k q hq) hg
      refine .bind (.modify (.bind (.modify (.bind (.of_run (loopbackAsSent_run _ _ _) ?_)))))
      refine .bind (((hsettle hgiven m).ensures _).mono ?_ ?_)
      · intro _ s' h
        exact .bind (.modify (.pure ((h (hs.insert hgiven rfl)).of_queues rfl)))
      · exact fun _ _ h => h (hs.insert hgiven rfl)

end Taking

/-- No queue asks the application for data. -/
def NoDemand (s : QueueManager Desc Msg) : Prop := ∀ id, s.hasManip id .onDemand = false

theorem noDemand_of_nil (h : s.manips = []) : s.NoDemand := by
  intro id
  rw [hasManip, h, List.any_nil]

theorem NoDemand.of_manips (h : s.NoDemand) (hm : s'.manips = s.manips) : s'.NoDemand := by
  unfold NoDemand hasManip at h ⊢
  rwa [hm]

theorem NoDemand.findNextSender (h : s.NoDemand) (request : ModemTransmission) (data : Bytes) :
    Ensures (findNextSender env request data) s (fun _ => Quiet s) (fun _ => Quiet s) := by
  have hdemand : ∀ t : QueueManager Desc Msg, t.NoDemand → ∀ k,
      Ensures (encodeOnDemand env request k) t (fun _ => Eq t) (fun _ => Eq t) := by
    intro t ht k
    cases hq : t.queues[k]? with
    | none => simp [Ensures, encodeOnDemand, getQueue, hq]
    | some q => simp [Ensures, encodeOnDemand, getQueue, hq, ht (env.id q.desc)]
  have hcontest : ∀ ks w, ∀ t : QueueManager Desc Msg, t.NoDemand →
      Ensures (contest env request data ks w) t (fun _ => Quiet t) (fun _ => Quiet t) := by
    intro ks
    induction ks with
    | nil => exact fun _ t _ => .pure (refl_of Quiet t)
    | cons k rest ih =>
      intro w t ht
      refine .bind ((hdemand t ht k).mono ?_ fun _ _ h => h ▸ refl_of Quiet t)
      rintro - _ rfl
      refine .bind (((reads_getQueue (R := Eq) k).ensures t).mono ?_ fun _ _ h => h ▸ refl_of Quiet t)
      rintro q _ rfl
      refine .bind (.get ?_)
      split
      · exact .throw (refl_of Quiet t)
      next v _ =>
        have hread : Quiet t { t with readings := v.readings } := ⟨rfl, rfl, rfl, rfl⟩
        exact .bind (.modify ((ih _ { t with readings := v.readings } (ht.of_manips rfl)).mono
          (fun _ _ h => trans_of Quiet hread h) fun _ _ h => trans_of Quiet hread h))
  exact .bind (.get (.bind ((hcontest _ _ s h).mono (fun _ _ hq => .pure hq) fun _ _ hq => hq)))

end QueueManager
end Goby
