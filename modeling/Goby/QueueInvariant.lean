import Goby.ExceptionState
import Goby.QueueRefinement

/-! The entries of `waitingForAck` are iterators into the list of messages. Whatever is done
to a queue, and however its configuration is changed in between, they point at distinct
messages that are still there and ask for an acknowledgment. The comparison of sizes
before the search for the next message therefore keeps the search within the list. -/

namespace Goby.Queue

variable {Desc Msg : Type} {q : Queue Desc Msg}

def SameContents (q q' : Queue Desc Msg) : Prop :=
  q'.desc = q.desc ∧ q'.contents = q.contents

instance : IsPreorder (Queue Desc Msg) SameContents where
  refl _ := ⟨rfl, rfl⟩
  trans _ _ _ h h' := ⟨h'.1.trans h.1, h'.2.trans h.2⟩

section Configuration

variable (lib : Library Desc Msg)

theorem settleRole_sameContents (role : Role) : Guarantees SameContents (settleRole lib role) := by
  unfold settleRole
  cases role.setting with
  | static =>
    cases role.staticValue with
    | none => exact .throw _
    | some value =>
      cases role.type with
      | timestamp => exact .throw _
      | destinationId | sourceId => exact .bind (.modify fun _ => ⟨rfl, rfl⟩) (fun _ => .pure _)
  | fieldValue =>
    refine .bind .get fun q => ?_
    cases findQueueField lib role.field (lib.newMessage q.desc) with
    | error e => exact .throw _
    | ok v => exact .pure _

theorem processRole_sameContents (role : Role) : Guarantees SameContents (processRole lib role) := by
  refine .bind (settleRole_sameContents lib role) fun field => .get_bind fun q => ?_
  split
  · exact .throw (refl_of SameContents q)
  · exact .set ⟨rfl, rfl⟩

theorem processRoles_sameContents (roles : List Role) :
    Guarantees SameContents (processRoles lib roles) := by
  induction roles with
  | nil => exact .pure _
  | cons role rest ih => exact .bind (processRole_sameContents lib role) (fun _ => ih)

theorem processCfg_sameContents : Guarantees SameContents (processCfg lib) := by
  refine .get_bind fun q => .bind (.set ?_)
  exact ((processRoles_sameContents lib q.cfg.role).ensures _).mono (fun _ _ h => h) (fun _ _ h => h)

theorem setCfg_sameContents (cfg : QueuedMessageEntry) : Guarantees SameContents (setCfg lib cfg) :=
  .bind (.modify fun _ => ⟨rfl, rfl⟩) (fun _ => processCfg_sameContents lib)

end Configuration

/-- One call of a member function, whatever the clock, the manager and the arguments
are. A call that stops at an undefined step leads nowhere. -/
inductive Step (lib : Library Desc Msg) : Queue Desc Msg → Queue Desc Msg → Prop where
  | pushMessage (q : Queue Desc Msg) (parent : Parent Msg) (clock : ℕ → ℕ) (n : ℕ) (msg : Msg)
      (given : QueuedMessageMeta) : Step lib q (q.pushMessage parent clock n msg given).queue
  | giveData {q q' : Queue Desc Msg} {frame now it : ℕ} {m : QueuedMessage Msg}
      (h : q.giveData frame now = some (it, m, q')) : Step lib q q'
  | popMessage {q q' : Queue Desc Msg} {popped : Option ℕ}
      (h : q.popMessage = some (popped, q')) : Step lib q q'
  | popMessageAck {q q' : Queue Desc Msg} {frame : ℕ} {removed : Option (ℕ × Msg)}
      (h : q.popMessageAck frame = some (removed, q')) : Step lib q q'
  | expire (q : Queue Desc Msg) (clock : ℕ → ℕ) (n : ℕ) : Step lib q (q.expire clock n).2.1
  | clearAckQueue {q q' : Queue Desc Msg} {clock : ℕ → ℕ} {n n' start : ℕ} {wait : ℚ}
      {erased : Multimap ℕ ℕ} (h : q.clearAckQueue clock n wait start = some (q', erased, n')) :
      Step lib q q'
  | flush (q : Queue Desc Msg) : Step lib q q.flush
  | setCfg (q : Queue Desc Msg) (cfg : QueuedMessageEntry) :
      Step lib q (finalState (setCfg lib cfg) q)

inductive Reachable (lib : Library Desc Msg) : Queue Desc Msg → Prop where
  | new {desc : Desc} {cfg : QueuedMessageEntry} {now : Ptime} {q : Queue Desc Msg}
      (h : processCfg lib { desc := desc, cfg := cfg, lastSendTime := now } = .ok () q) :
      Reachable lib q
  | step {q q' : Queue Desc Msg} (h : Reachable lib q) (t : Step lib q q') : Reachable lib q'

variable {lib : Library Desc Msg}

theorem popMessage_none {q q' : Queue Desc Msg} (h : q.popMessage = some (none, q')) : q' = q := by
  unfold popMessage at h
  split_ifs at h
  cases hf : findUnacked q.searchOrder <;> simp_all

theorem Step.wf {q q' : Queue Desc Msg} (h : Step lib q q') (hq : Wf q) : Wf q' := by
  cases h with
  | pushMessage parent clock n msg given => exact (pushMessage_moves hq parent clock n msg given).wf hq
  | giveData h => exact (giveData_move h).wf hq
  | @popMessage _ popped h =>
    cases popped with
    | none => exact popMessage_none h ▸ hq
    | some it => exact (popMessage_move hq h 0).wf hq
  | @popMessageAck _ frame removed h =>
    cases removed with
    | none => exact (popMessageAck_none h).1 ▸ hq
    | some r => exact (popMessageAck_move hq h).wf hq
  | expire clock n => exact (expire_moves hq clock n).wf hq
  | clearAckQueue h => exact (clearAckQueue_moves hq h).1.wf hq
  | flush => exact (flush_moves hq).wf hq
  | setCfg cfg =>
    have hs := setCfg_sameContents lib cfg q
    rw [Wf, hs.2]
    exact hq

theorem processCfg_new {desc : Desc} {cfg : QueuedMessageEntry} {now : Ptime}
    (h : processCfg lib { desc := desc, cfg := cfg, lastSendTime := now } = .ok () q) :
    q.desc = desc ∧ q.contents = {} := by
  have hs := processCfg_sameContents lib { desc := desc, cfg := cfg, lastSendTime := now }
  simp only [finalState, h] at hs
  exact hs

theorem Reachable.wf (h : Reachable lib q) : Wf q := by
  induction h with
  | new h =>
    rw [Wf, (processCfg_new h).2]
    exact Contents.wf_empty
  | step _ t ih => exact t.wf ih

/-- In every reachable state the entries awaiting acknowledgments are sound, and while
there are more messages than entries the search finds a message that is not waiting, in
either order. -/
theorem reachable_invariant {q : Queue Desc Msg} (h : Reachable lib q) :
    Wf q ∧ (q.waitingForAck.length < q.size → ∀ newestFirst : Bool, ∃ it m,
      nextMessageIt { q with cfg := { q.cfg with newestFirst := newestFirst } } = some (it, m) ∧
      q.messages.get? it = some m ∧ it ∉ q.waitingForAck.map Prod.snd) := by
  refine ⟨h.wf, fun hlt newestFirst => ?_⟩
  obtain ⟨⟨it, m⟩, hm⟩ := nextMessageIt_isSome
    (q := { q with cfg := { q.cfg with newestFirst := newestFirst } }) hlt
  obtain ⟨hmem, hfree⟩ := nextMessageIt_some hm
  exact ⟨it, m, hm, StableList.get?_of_mem_nodes hmem, findAckValue_eq_none.mp hfree⟩

def sampleQueue : Queue SampleDesc SampleMsg :=
  let parent : Parent SampleMsg := ⟨false, false, 1, 1, fun _ given _ _ => given⟩
  let q : Queue SampleDesc SampleMsg :=
    { desc := .status, cfg := { protobufName := "Status" }, lastSendTime := some 0 }
  let given : QueuedMessageMeta := { nonRepeatedSize := some 4, dest := some 3 }
  let q := (q.pushMessage parent id 1 { dest := 3, body := 7 } given).queue
  (q.pushMessage parent id 3 { dest := 3, body := 8 } given).queue

theorem sampleQueue_reachable : Reachable sampleLibrary sampleQueue := by
  let q : Queue SampleDesc SampleMsg :=
    { desc := .status, cfg := { protobufName := "Status" }, lastSendTime := some 0 }
  have hnew : processCfg sampleLibrary q = .ok () q := rfl
  exact .step (.step (.new hnew) (.pushMessage _ _ _ _ _ _)) (.pushMessage _ _ _ _ _ _)

/-- The newer message is sent with an acknowledgment requested; the older one is next. -/
theorem reachable_invariant_sample : ∃ q m, sampleQueue.giveData 2 9 = some (1, m, q) ∧
    q.waitingForAck = [(2, 1)] ∧ Wf q ∧ ∀ newestFirst : Bool, ∃ it m,
      nextMessageIt { q with cfg := { q.cfg with newestFirst := newestFirst } } = some (it, m) ∧
      q.messages.get? it = some m ∧ it ∉ q.waitingForAck.map Prod.snd := by
  have hgive : ∃ q m, sampleQueue.giveData 2 9 = some (1, m, q) ∧ q.waitingForAck = [(2, 1)] ∧
      q.size = 2 := ⟨_, _, rfl, rfl, rfl⟩
  obtain ⟨q, m, h, hw, hs⟩ := hgive
  have hq := reachable_invariant (sampleQueue_reachable.step (.giveData h))
  exact ⟨q, m, h, hw, hq.1, hq.2 (by simp [hw, hs])⟩

end Goby.Queue
