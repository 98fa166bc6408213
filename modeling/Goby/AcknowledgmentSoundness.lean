import Goby.QueueManagerRuns

/-! The manager lists the queues that await acknowledgments under each frame number, and each
queue lists its messages. The two lists are kept by different functions and only agree up
to entries that the manager has in excess. That is enough for a request to reach every
queue that has old entries to clear, so that an acknowledgment can only remove a message
sent in the latest use of its frame number. -/

namespace Goby.QueueManager

variable {Desc Msg : Type} [DecidableEq Desc] {env : Environment Desc Msg} {s : QueueManager Desc Msg}
  {k f it : ℕ} {msg : Msg} {rs : List (Record Desc Msg)} {r : Record Desc Msg}

omit [DecidableEq Desc] in
theorem Agreement.count_eq_zero (h : s.Agreement) {frame : ℕ}
    (hf : s.waitingForAck.count frame = 0) (k : ℕ) :
    (s.contents k).waitingForAck.count frame = 0 := by
  have hle : s.ackCount frame k ≤ s.waitingForAck.count frame := by
    apply List.countP_mono_left
    rintro ⟨f, j⟩ - he
    simp_all
  have := h k frame
  omega

/-- After every run the manager lists every queue that awaits acknowledgments, as often
as the queue does under each frame number. So the queues that clearing goes through are
all that have something to clear, and an acknowledgment to us that is handled leaves no
message waiting under its frames. -/
theorem agreement_run (env : Environment Desc Msg) (modemId : ℤ) (codec : DcclCodec Desc)
    (calls : List (Call Msg)) :
    let s := stateAfter env modemId codec calls
    (∀ (k : ℕ) (q : Queue Desc Msg), s.queues[k]? = some q → ∀ frame,
      q.waitingForAck.count frame ≤ List.countP (fun e => e = (frame, k)) s.waitingForAck) ∧
    (∀ (k : ℕ) (q : Queue Desc Msg), s.queues[k]? = some q → q.waitingForAck ≠ [] →
      ∃ e ∈ s.waitingForAck, e.2 = k) ∧
    ∀ ack s', processModemAck env ack s = .ok () s' → ack.destD = s.modemId →
      ∀ f ∈ ack.ackedFrame, ∀ (k : ℕ) (q : Queue Desc Msg), s'.queues[k]? = some q →
        q.waitingForAck.count (toUnsigned f) = 0 := by
  intro s
  have hs : Inv env s := inv_stateAfter modemId codec calls
  refine ⟨?_, ?_, ?_⟩
  · intro k q hq frame
    have hk := hs.agreement k frame
    rwa [contents_eq hq] at hk
  · intro k q hq hne
    obtain ⟨e, he⟩ := List.exists_mem_of_ne_nil _ hne
    exact ⟨(e.1, k), hs.agreement.listed (by rwa [contents_eq hq]), rfl⟩
  · intro ack s' hrun hd f hf k q hq
    have hpost := processModemAck_ensures ack hs
    simp only [Ensures, hrun] at hpost
    obtain ⟨hreach, hzero⟩ := hpost
    have hc := (hreach.inv hs).agreement.count_eq_zero (hzero hd f hf) k
    rwa [contents_eq hq] at hc

/-- In the sample run a message awaits an acknowledgment under frame 5; the
acknowledgment for that frame is handled and leaves none. -/
theorem agreement_run_sample :
    (stateAfter sampleEnvironment 0 sampleCodec sampleCalls).waitingForAck = [(5, 1)] ∧
    ∃ s', processModemAck sampleEnvironment sampleAck
        (stateAfter sampleEnvironment 0 sampleCodec sampleCalls) = .ok () s' ∧
      ∀ (k : ℕ) (q : Queue SampleDesc SampleMsg), s'.queues[k]? = some q →
        q.waitingForAck.count (toUnsigned 5) = 0 := by
  have hok : (match processModemAck sampleEnvironment sampleAck
      (stateAfter sampleEnvironment 0 sampleCodec sampleCalls) with
      | .ok _ _ => true
      | .error _ _ => false) = true := by decide +kernel
  have hmodem : sampleAck.destD = (stateAfter sampleEnvironment 0 sampleCodec sampleCalls).modemId := by
    decide +kernel
  refine ⟨by decide +kernel, ?_⟩
  split at hok
  next u s' hrun =>
    exact ⟨s', hrun, (agreement_run sampleEnvironment 0 sampleCodec sampleCalls).2.2 sampleAck s' hrun
      hmodem 5 (by simp [sampleAck])⟩
  next => simp at hok

def Record.Requests (r : Record Desc Msg) (frame : ℕ) : Prop :=
  ∃ fuel msg, r.call = .handleModemDataRequest fuel msg ∧ msg.frameStart ≤ frame ∧
    frame < msg.frameStart + msg.maxNumFrames

def LatestRequest (rs : List (Record Desc Msg)) (frame i : ℕ) (r : Record Desc Msg) : Prop :=
  rs[i]? = some r ∧ r.Requests frame ∧ ∀ j r', i < j → rs[j]? = some r' → ¬ r'.Requests frame

/-- The message was given under the frame number in the latest request for it. -/
def GivenLatest (rs : List (Record Desc Msg)) (k frame it : ℕ) : Prop :=
  ∃ i r, LatestRequest rs frame i r ∧ ∃ msg, .queue k (.gave it frame msg) ∈ r.events

omit [DecidableEq Desc] in
theorem GivenLatest.append {k frame it : ℕ}
    (h : GivenLatest rs k frame it) (hr : ¬ r.Requests frame) :
    GivenLatest (rs ++ [r]) k frame it := by
  obtain ⟨i, r₀, ⟨hi, hreq, hlast⟩, hgave⟩ := h
  have hlt : i < rs.length := (List.getElem?_eq_some_iff.mp hi).1
  refine ⟨i, r₀, ⟨by rwa [List.getElem?_append_left hlt], hreq, fun j r' hij hj => ?_⟩, hgave⟩
  rcases Nat.lt_or_ge j rs.length with hjl | hjl
  · exact hlast j r' hij (by rwa [List.getElem?_append_left hjl] at hj)
  · rw [List.getElem?_append_right hjl, List.getElem?_singleton] at hj
    split at hj
    · exact Option.some.inj hj ▸ hr
    · cases hj

omit [DecidableEq Desc] in
theorem GivenLatest.last {k frame it : ℕ}
    (hr : r.Requests frame) (hgave : .queue k (.gave it frame msg) ∈ r.events) :
    GivenLatest (rs ++ [r]) k frame it := by
  refine ⟨rs.length, r, ⟨by simp, hr, fun j r' hj hr' => ?_⟩, msg, hgave⟩
  rw [List.getElem?_eq_none (by simp; omega)] at hr'
  cases hr'

omit [DecidableEq Desc] in
theorem Allows.of_gave {c : Call Msg} {k it frame : ℕ} {given : Msg}
    (h : Allows c (.queue k (.gave it frame given))) :
    ∃ fuel msg, c = .handleModemDataRequest fuel msg ∧ msg.frameStart ≤ frame ∧
      frame < msg.frameStart + msg.maxNumFrames := by
  cases c with
  | handleModemDataRequest fuel msg => exact ⟨fuel, msg, rfl, h.resolve_left id⟩
  | _ => exact h.elim

theorem record_requested (hs : Inv env s) (fuel : ℕ) (msg : ModemTransmission)
    (hm : (f, it) ∈ ((record env s (.handleModemDataRequest fuel msg)).after.contents k).waitingForAck) :
    f < msg.frameStart ∨ ∃ given,
      .queue k (.gave it f given) ∈ (record env s (.handleModemDataRequest fuel msg)).events := by
  have hfinal : (record env s (.handleModemDataRequest fuel msg)).after =
      finalState (handleModemDataRequest env fuel msg) s.begin := by
    rw [record_after, finalState, finalState, code, run_bind]
    cases handleModemDataRequest env fuel msg s.begin <;> rfl
  have hreq : Requested env msg.frameStart msg.maxNumFrames s.begin
      (finalState (handleModemDataRequest env fuel msg) s.begin) :=
    handleModemDataRequest_requested fuel msg s.begin
  obtain ⟨es, -, hlog, -, hentries⟩ := hreq hs.begin
  rw [← hfinal] at hlog hentries
  have he : (record env s (.handleModemDataRequest fuel msg)).events = es := by
    simpa [begin] using hlog
  rw [he]
  exact hentries k f it hm

/-- After a call, an entry is an old one that the call did not ask for frames of, or it
was made by the call, which then asked for its frame. -/
theorem record_entries (hs : Inv env s) (c : Call Msg)
    (hm : (f, it) ∈ ((record env s c).after.contents k).waitingForAck) :
    ((f, it) ∈ (s.contents k).waitingForAck ∧ ¬ (record env s c).Requests f) ∨
      ((record env s c).Requests f ∧ ∃ given, .queue k (.gave it f given) ∈ (record env s c).events) := by
  obtain ⟨hsteps, hallows⟩ := record_steps hs c
  have hgave : ∀ given, .queue k (.gave it f given) ∈ (record env s c).events →
      (record env s c).Requests f := by
    intro given hmem
    obtain ⟨fuel, msg, hc, hrange⟩ := (hallows _ hmem).of_gave
    exact ⟨fuel, msg, (record_call s c).trans hc, hrange⟩
  by_cases hreq : (record env s c).Requests f
  · right
    obtain ⟨fuel, msg, hc, hlow, -⟩ := id hreq
    rw [record_call] at hc
    subst hc
    exact ⟨hreq, (record_requested hs fuel msg hm).resolve_left (by omega)⟩
  · rcases (hsteps.project k).mem_waiting hm with hold | hnew
    · exact .inl ⟨hold, hreq⟩
    · obtain ⟨given, hnew⟩ := hnew
      exact absurd (hgave given (Event.mem_queueEvents.mp hnew)) hreq

theorem record_ackPopped (hs : Inv env s) (c : Call Msg)
    (he : .queue k (.ackPopped it f msg) ∈ (record env s c).events) :
    (f, it) ∈ (s.contents k).waitingForAck := by
  obtain ⟨hsteps, hallows⟩ := record_steps hs c
  rcases (hsteps.project k).ackPopped (Event.mem_queueEvents.mpr he) with hold | ⟨given, hnew⟩
  · exact hold
  · obtain ⟨fuel, msg, rfl, -⟩ := (hallows _ (Event.mem_queueEvents.mp hnew)).of_gave
    exact (hallows _ he).elim False.elim False.elim

/-- Every message that awaits an acknowledgment was given in the latest request for its frame. -/
def Run.EntriesLatest (t : Run Desc Msg) : Prop :=
  ∀ k f it, (f, it) ∈ (t.state.contents k).waitingForAck → GivenLatest t.records k f it

omit [DecidableEq Desc] in
theorem entriesLatest_initial (modemId : ℤ) (codec : DcclCodec Desc) :
    (⟨[], initial modemId codec⟩ : Run Desc Msg).EntriesLatest := by
  simp [Run.EntriesLatest, contents, initial]

theorem Run.EntriesLatest.extend {t : Run Desc Msg} (h : t.EntriesLatest) (hs : Inv env t.state)
    (c : Call Msg) : (t.extend env c).EntriesLatest := by
  intro k f it hm
  rcases record_entries hs c hm with ⟨hold, hreq⟩ | ⟨hreq, given, hgave⟩
  · exact (h k f it hold).append hreq
  · exact .last hreq hgave

/-- Only an acknowledgment removes messages as acknowledged, and only under its frames. -/
theorem record_ackPopped_type (hs : Inv env s) {m : ModemTransmission}
    (he : .queue k (.ackPopped it f msg) ∈ (record env s (.handleModemReceive m)).events) :
    m.type = .ack ∧ ∃ f' ∈ m.ackedFrame, toUnsigned f' = f := by
  refine ⟨?_, (record_steps hs _).2 _ he⟩
  by_contra htype
  have hcode : Guarantees (Signals IsReception) (code env (.handleModemReceive m)) := by
    rw [code, handleModemReceive, if_neg htype]
    exact .bind (receiveFrames_signals m m.frame) fun _ => .pure _
  obtain ⟨es, hlog, hes⟩ := (hcode s.begin).log
  rw [← record_after] at hlog
  have hmem : .queue k (.ackPopped it f msg) ∈ es := by
    rw [Record.events, hlog] at he
    simpa [begin] using he
  exact (hes _ hmem).2

/-- In every run, a message that an acknowledgment of frame `f` removes was given under
`f` by the latest request made before with `f` among its frames. -/
theorem ackPopped_givenLatest (env : Environment Desc Msg) (modemId : ℤ) (codec : DcclCodec Desc)
    (calls : List (Call Msg)) (j : ℕ) (r : Record Desc Msg) (k f it : ℕ) (msg : Msg)
    (hr : (run env (initial modemId codec) calls).records[j]? = some r)
    (hack : .queue k (.ackPopped it f msg) ∈ r.events) :
    GivenLatest ((run env (initial modemId codec) calls).records.take j) k f it := by
  let P : Run Desc Msg → Prop := fun t => t.EntriesLatest ∧
    ∀ j r k f it msg, t.records[j]? = some r → .queue k (.ackPopped it f msg) ∈ r.events →
      GivenLatest (t.records.take j) k f it
  have hrun : P (run env (initial modemId codec) calls) := by
    refine (run_induction ?_ (inv_initial modemId codec) ?_ calls).2
    · exact ⟨entriesLatest_initial modemId codec, by simp⟩
    · rintro t c hs ⟨hentries, hacks⟩
      refine ⟨hentries.extend hs c, fun j r k f it msg hj he => ?_⟩
      rw [extend_records] at hj ⊢
      rcases Nat.lt_or_ge j t.records.length with hlt | hge
      · rw [List.getElem?_append_left hlt] at hj
        rw [List.take_append_of_le_length (Nat.le_of_lt hlt)]
        exact hacks j r k f it msg hj he
      · rw [List.getElem?_append_right hge, List.getElem?_singleton] at hj
        split at hj
        · obtain rfl := Option.some.inj hj
          have hje : j = t.records.length := by omega
          rw [hje, List.take_left]
          exact hentries k f it (record_ackPopped hs c he)
        · cases hj
  exact hrun.2 j r k f it msg hr hack

/-- The sample message is acknowledged under the frame number it was given under. -/
theorem ackPopped_givenLatest_sample : ∃ r,
    (run sampleEnvironment (initial 0 sampleCodec)
      (sampleCalls ++ [.handleModemReceive sampleAck])).records[3]? = some r ∧
    .queue 1 (.ackPopped 0 5 { src := 1, dest := 3, body := 7 }) ∈ r.events ∧
    GivenLatest ((run sampleEnvironment (initial 0 sampleCodec)
      (sampleCalls ++ [.handleModemReceive sampleAck])).records.take 3) 1 5 0 := by
  have hacked : (run sampleEnvironment (initial 0 sampleCodec)
      (sampleCalls ++ [.handleModemReceive sampleAck])).records[3]?.any
        (fun r => .queue 1 (.ackPopped 0 5 { src := 1, dest := 3, body := 7 }) ∈ r.events) = true := by decide +kernel
  cases hr : (run sampleEnvironment (initial 0 sampleCodec)
      (sampleCalls ++ [.handleModemReceive sampleAck])).records[3]? with
  | none => simp [hr] at hacked
  | some r =>
    have hack : .queue 1 (.ackPopped 0 5 { src := 1, dest := 3, body := 7 }) ∈ r.events := by simpa [hr] using hacked
    exact ⟨r, rfl, hack, ackPopped_givenLatest sampleEnvironment 0 sampleCodec _ 3 r 1 5 0 _ hr hack⟩

end Goby.QueueManager
