import Goby.BluefinHeartbeat
import Goby.LatestEvents

/-! A heartbeat should tell the newest report of each payload that has not expired. Since the multimap
is gone through by the times of expiry, it tells the oldest, which is the newest only while it is
the only one. -/

namespace Goby.BluefinSeat

variable (env : SeatEnv) {id : ℤ}

def reportOf : SeatEvent → Option PayloadStatus
  | .reported p => some p
  | .beat _ => none

def reportsOf (log : List SeatEvent) : List PayloadStatus := log.filterMap reportOf

def unexpired (moment : ℕ) (reports : List PayloadStatus) : List PayloadStatus :=
  reports.filter fun p => moment < p.expireTime

def withId (id : ℤ) (reports : List PayloadStatus) : List PayloadStatus :=
  reports.filter fun p => p.id = id

def oldestOf (reports : List PayloadStatus) (id : ℤ) : Option PayloadStatus := (withId id reports).head?

def newestOf (reports : List PayloadStatus) (id : ℤ) : Option PayloadStatus :=
  (withId id reports).getLast?

/-- One report for each id that has any, in the order of the ids. -/
structure Chooses (pick : ℤ → Option PayloadStatus) (chosen : List PayloadStatus) : Prop where
  ascending : chosen.Pairwise fun p q => p.id < q.id
  mem_iff : ∀ p, p ∈ chosen ↔ pick p.id = some p

/-- The heartbeat has been made from one unexpired report for each id. -/
def Tells (pick : List PayloadStatus → ℤ → Option PayloadStatus) (before : List SeatEvent)
    (b : Heartbeat) : Prop :=
  ∃ chosen, Chooses (pick (unexpired b.moment (reportsOf before))) chosen ∧
    b.nmea = heartbeatSentence env b.sent (stateOk b.state && chosen.all PayloadStatus.allOk)
      (b.stamp ++ chosen.flatMap fun p => ascii "; " ++ p.msg)

def AllTell (pick : List PayloadStatus → ℤ → Option PayloadStatus) (log : List SeatEvent) : Prop :=
  ∀ before b after, log = before ++ .beat b :: after → Tells env pick before b

/-- Later reports of an id have later expire times. -/
def InOrder (reports : List PayloadStatus) : Prop :=
  reports.Pairwise fun p q => p.id = q.id → p.expireTime < q.expireTime

section Summary

variable {env} {ok : Bool} {reports chosen : List PayloadStatus} {p : PayloadStatus}

def summaryOf (ok : Bool) (chosen : List PayloadStatus) : Summary :=
  ⟨ok && chosen.all PayloadStatus.allOk, chosen.map fun p => (p.id, p.msg)⟩

theorem withId_concat_of_ne (h : p.id ≠ id) : withId id (reports ++ [p]) = withId id reports := by
  simp [withId, h]

theorem withId_concat (reports : List PayloadStatus) (p : PayloadStatus) :
    withId p.id (reports ++ [p]) = withId p.id reports ++ [p] := by simp [withId]

theorem id_of_mem_withId (h : p ∈ withId id reports) : p.id = id := by
  simpa using List.of_mem_filter h

theorem id_of_oldestOf (h : oldestOf reports id = some p) : p.id = id :=
  id_of_mem_withId (List.mem_of_head? h)

theorem any_seenIds (id : ℤ) :
    (summaryOf ok chosen).seenIds.any (fun seen => seen.1 = id) = true ↔ ∃ c ∈ chosen, c.id = id := by
  simp [summaryOf]

theorem Chooses.concat_of_mem (h : Chooses (oldestOf reports) chosen) {c : PayloadStatus}
    (hc : c ∈ chosen)
    (hid : c.id = p.id) : Chooses (oldestOf (reports ++ [p])) chosen := by
  refine ⟨h.ascending, fun q => ?_⟩
  rw [h.mem_iff]
  by_cases hq : p.id = q.id
  · have hfirst : oldestOf reports q.id = some c := by
      rw [← hq, ← hid]
      exact (h.mem_iff c).mp hc
    have hmore : oldestOf (reports ++ [p]) q.id = some c := by
      unfold oldestOf at hfirst ⊢
      rw [← hq, withId_concat, List.head?_append, hq, hfirst]
      rfl
    rw [hfirst, hmore]
  · rw [oldestOf, oldestOf, withId_concat_of_ne hq]

theorem pairwise_orderedInsert (h : chosen.Pairwise fun p q => p.id < q.id)
    (hnew : ∀ c ∈ chosen, c.id ≠ p.id) :
    (chosen.orderedInsert (fun p q => p.id ≤ q.id) p).Pairwise fun p q => p.id < q.id := by
  induction chosen with
  | nil => exact List.pairwise_singleton _ _
  | cons c chosen ih =>
    obtain ⟨hfirst, hrest⟩ := List.pairwise_cons.mp h
    obtain ⟨hc, hchosen⟩ := List.forall_mem_cons.mp hnew
    rw [List.orderedInsert_cons]
    split_ifs with hle
    · have hlt : p.id < c.id := lt_of_le_of_ne hle hc.symm
      refine List.pairwise_cons.mpr ⟨fun q hq => ?_, h⟩
      rcases List.mem_cons.mp hq with rfl | hq
      · exact hlt
      · exact hlt.trans (hfirst q hq)
    · refine List.pairwise_cons.mpr ⟨fun q hq => ?_, ih hrest hchosen⟩
      rcases (List.mem_orderedInsert _).mp hq with rfl | hq
      · exact lt_of_not_ge hle
      · exact hfirst q hq

theorem Chooses.concat_of_notMem (h : Chooses (oldestOf reports) chosen)
    (hnew : ∀ c ∈ chosen, c.id ≠ p.id) :
    Chooses (oldestOf (reports ++ [p])) (chosen.orderedInsert (fun p q => p.id ≤ q.id) p) := by
  refine ⟨pairwise_orderedInsert h.ascending hnew, fun q => ?_⟩
  rw [List.mem_orderedInsert, h.mem_iff]
  by_cases hq : p.id = q.id
  · have hnone : oldestOf reports p.id = none := by
      refine Option.eq_none_iff_forall_ne_some.mpr fun c hc => ?_
      have hid := id_of_oldestOf hc
      exact hnew c ((h.mem_iff c).mpr (hid.symm ▸ hc)) hid
    have hone : oldestOf (reports ++ [p]) q.id = some p := by
      unfold oldestOf at hnone ⊢
      rw [← hq, withId_concat, List.head?_append, hnone]
      rfl
    rw [hone, ← hq, hnone]
    simp [eq_comm]
  · have hne : q ≠ p := fun heq => hq (heq ▸ rfl)
    rw [oldestOf, oldestOf, withId_concat_of_ne hq]
    simp [hne]

theorem add_summaryOf (hnew : ∀ c ∈ chosen, c.id ≠ p.id) :
    (summaryOf ok chosen).add p = summaryOf ok (chosen.orderedInsert (fun p q => p.id ≤ q.id) p) := by
  have hunseen : ¬ (summaryOf ok chosen).seenIds.any (fun seen => seen.1 = p.id) = true := by
    rw [any_seenIds]
    rintro ⟨c, hc, hid⟩
    exact hnew c hc hid
  have hall : (chosen.orderedInsert (fun p q => p.id ≤ q.id) p).all PayloadStatus.allOk =
      (chosen.all PayloadStatus.allOk && p.allOk) := by
    rw [(List.perm_orderedInsert _ p chosen).all_eq, List.all_cons, Bool.and_comm]
  have hmap := List.map_orderedInsert (fun p q : PayloadStatus => p.id ≤ q.id)
    (fun a b : ℤ × Bytes => a.1 ≤ b.1)
    (fun p => (p.id, p.msg)) chosen p (fun _ _ => Iff.rfl) fun _ _ => Iff.rfl
  rw [Summary.add, if_neg hunseen, summaryOf, summaryOf, hall, hmap, Bool.and_assoc]

theorem foldl_add (ok : Bool) (reports : List PayloadStatus) :
    ∃ chosen, Chooses (oldestOf reports) chosen ∧
      reports.foldl Summary.add ⟨ok, []⟩ = summaryOf ok chosen := by
  induction reports using List.reverseRecOn with
  | nil => exact ⟨[], ⟨List.Pairwise.nil, by simp [oldestOf, withId]⟩, by simp [summaryOf]⟩
  | append_singleton reports p ih =>
    obtain ⟨chosen, hchosen, hfold⟩ := ih
    rw [List.foldl_append, hfold, List.foldl_cons, List.foldl_nil]
    by_cases hseen : ∃ c ∈ chosen, c.id = p.id
    · obtain ⟨c, hc, hid⟩ := hseen
      refine ⟨chosen, hchosen.concat_of_mem hc hid, ?_⟩
      rw [Summary.add, if_pos ((any_seenIds p.id).mpr ⟨c, hc, hid⟩)]
    · have hnew : ∀ c ∈ chosen, c.id ≠ p.id := fun c hc hid => hseen ⟨c, hc, hid⟩
      exact ⟨_, hchosen.concat_of_notMem hnew, add_summaryOf hnew⟩

end Summary

section Invariant

variable {env} {s : BluefinSeat} {log : List SeatEvent} {p : PayloadStatus}

theorem reportsOf_reported (log : List SeatEvent) (p : PayloadStatus) :
    reportsOf (log ++ [.reported p]) = reportsOf log ++ [p] := by simp [reportsOf, reportOf]

theorem reportsOf_beat (log : List SeatEvent) (b : Heartbeat) :
    reportsOf (log ++ [.beat b]) = reportsOf log := by simp [reportsOf, reportOf]

/-- What the multimap holds: for each id the reports that have not expired, in the order in which
they were received. -/
structure Holds (env : SeatEnv) (s : BluefinSeat) : Prop where
  ordered : s.payloadStatus.Ordered
  keyed : ∀ e ∈ s.payloadStatus, e.1 = e.2.expireTime ∧ e.2 ∈ reportsOf s.log
  kept : ∀ n, s.readings ≤ n → ∀ id,
    withId id ((s.payloadStatus.eraseUpTo (env.micros n)).map Prod.snd) =
      withId id (unexpired (env.micros n) (reportsOf s.log))

structure SeatInv (env : SeatEnv) (s : BluefinSeat) : Prop where
  holds : Holds env s
  tells : AllTell env oldestOf s.log

def isLasting (id : ℤ) (moment : ℕ) (e : ℕ × PayloadStatus) : Bool := e.2.id = id && moment < e.1

theorem withId_eraseUpTo {m : Multimap ℕ PayloadStatus} (h : m.Ordered) (moment : ℕ) (id : ℤ) :
    withId id ((m.eraseUpTo moment).map Prod.snd) = (m.filter (isLasting id moment)).map Prod.snd := by
  rw [withId, List.filter_map, h.eraseUpTo_eq, List.filter_filter]
  rfl

theorem AllTell.concat {pick : List PayloadStatus → ℤ → Option PayloadStatus} {e : SeatEvent}
    (h : AllTell env pick log) (he : ∀ b, e = .beat b → Tells env pick log b) :
    AllTell env pick (log ++ [e]) := by
  have hall := forall_events_concat (P := fun before e => ∀ b, e = .beat b → Tells env pick before b)
    (fun before e after hlog b hb => h before b after (hb ▸ hlog)) he
  exact fun before b after hlog => hall before _ after hlog b rfl

theorem withId_unexpired_append (id : ℤ) (moment : ℕ) (reports reports' : List PayloadStatus) :
    withId id (unexpired moment (reports ++ reports')) =
      withId id (unexpired moment reports) ++ withId id (unexpired moment reports') := by
  simp only [withId, unexpired, List.filter_append]

section

variable (h : Holds env s) (hp : InOrder (reportsOf s.log ++ [p]))
include h hp

theorem Holds.filter_insert (id : ℤ)
    (moment : ℕ) :
    (s.payloadStatus.insert p.expireTime p).filter (isLasting id moment) =
      s.payloadStatus.filter (isLasting id moment) ++ [(p.expireTime, p)].filter (isLasting id moment) := by
  by_cases hid : p.id = id
  · refine h.ordered.filter_insert p fun e he hlasting => ?_
    obtain ⟨hkey, hreported⟩ := h.keyed e he
    have hsame : e.2.id = p.id := (of_decide_eq_true (Bool.and_eq_true_iff.mp hlasting).1).trans hid.symm
    have hlater := (List.pairwise_append.mp hp).2.2 e.2 hreported p (List.mem_singleton_self p)
    exact hkey ▸ (hlater hsame).le
  · have hother : isLasting id moment (p.expireTime, p) = false := by simp [isLasting, hid]
    rw [Multimap.filter_insert_of_neg hother, List.filter_cons_of_neg (by simp [hother]), List.filter_nil,
      List.append_nil]

theorem Holds.insertStatus : Holds env (BluefinSeat.insertStatus s p) := by
  have hreports : reportsOf (BluefinSeat.insertStatus s p).log = reportsOf s.log ++ [p] :=
    reportsOf_reported s.log p
  refine ⟨h.ordered.insert _ _, fun e he => ?_, fun n hn id => ?_⟩
  · rw [hreports, List.mem_append, List.mem_singleton]
    rcases Multimap.mem_insert.mp he with rfl | he
    · exact ⟨rfl, .inr rfl⟩
    · exact ⟨(h.keyed e he).1, .inl (h.keyed e he).2⟩
  · have hone : ([(p.expireTime, p)].filter (isLasting id (env.micros n))).map Prod.snd =
        withId id (unexpired (env.micros n) [p]) := by
      rw [withId, unexpired, List.filter_filter, List.filter_singleton, List.filter_singleton]
      change _ = bif isLasting id (env.micros n) (p.expireTime, p) then [p] else []
      cases isLasting id (env.micros n) (p.expireTime, p) <;> rfl
    rw [hreports, withId_unexpired_append, ← h.kept n hn id, withId_eraseUpTo h.ordered, ← hone]
    refine (withId_eraseUpTo (h.ordered.insert p.expireTime p) (env.micros n) id).trans ?_
    rw [h.filter_insert hp, List.map_append]

end

theorem Holds.erase (h : Holds env s) (hclock : Monotone env.micros) {n : ℕ} (hn : s.readings ≤ n)
    {readings : ℕ} (hlater : n ≤ readings) :
    Holds env { s with payloadStatus := s.payloadStatus.eraseUpTo (env.micros n), readings := readings } := by
  refine ⟨h.ordered.eraseUpTo _, fun e he => h.keyed e (List.dropWhile_sublist _ |>.subset he), ?_⟩
  intro n' hn' id
  have hle : env.micros n ≤ env.micros n' := hclock (hlater.trans hn')
  rw [← h.kept n' (hn.trans (hlater.trans hn')) id]
  simp only [h.ordered.eraseUpTo_eraseUpTo hle]

theorem Holds.tells (h : Holds env s) {n : ℕ} (hn : s.readings ≤ n) {b : Heartbeat}
    (hmoment : b.moment = env.micros n)
    (hnmea : b.nmea =
      let m := ((s.payloadStatus.eraseUpTo (env.micros n)).map Prod.snd).foldl Summary.add
        ⟨stateOk b.state, []⟩
      heartbeatSentence env b.sent m.ok (b.stamp ++ m.text)) :
    Tells env oldestOf s.log b := by
  obtain ⟨chosen, hchosen, hfold⟩ :=
    foldl_add (stateOk b.state) ((s.payloadStatus.eraseUpTo (env.micros n)).map Prod.snd)
  refine ⟨chosen, ⟨hchosen.ascending, fun p => ?_⟩, ?_⟩
  · rw [hchosen.mem_iff, oldestOf, oldestOf, h.kept n hn, hmoment]
  · rw [hnmea, hfold]
    simp [summaryOf, Summary.text, List.flatMap_map]

end Invariant

section Runs

variable {env} {s : BluefinSeat}

def Inv (env : SeatEnv) (s : BluefinSeat) : Prop := InOrder (reportsOf s.log) → SeatInv env s

theorem inv_new : Inv env {} := by
  refine fun _ => ⟨⟨List.Pairwise.nil, by simp, fun _ _ _ => rfl⟩, fun before b after hlog => ?_⟩
  simp at hlog

theorem Inv.congr {s' : BluefinSeat} (h : Inv env s) (hstatus : s'.payloadStatus = s.payloadStatus)
    (hlog : s'.log = s.log) (hreadings : s.readings ≤ s'.readings) : Inv env s' := by
  intro horder
  obtain ⟨hholds, htells⟩ := h (hlog ▸ horder)
  refine ⟨⟨hstatus ▸ hholds.ordered, ?_, fun n hn id => ?_⟩, hlog ▸ htells⟩
  · rw [hstatus, hlog]
    exact hholds.keyed
  · rw [hstatus, hlog]
    exact hholds.kept n (hreadings.trans hn) id

theorem readMicros_inv : Guarantees (Preserves (Inv env)) (readMicros env) :=
  fun s hs => hs.congr rfl rfl (Nat.le_succ s.readings)

theorem onDriver_inv {α : Type} (m : BluefinM α) : Guarantees (Preserves (Inv env)) (onDriver m) := by
  intro s hs
  unfold finalState onDriver
  cases m s.driver with
  | ok a d => exact hs.congr rfl rfl le_rfl
  | error e d => exact hs.congr rfl rfl le_rfl

theorem sendTimed_inv (bare : NmeaSentence) (fields : Option (List Bytes)) :
    Guarantees (Preserves (Inv env)) (sendTimed env bare fields) := by
  cases fields with
  | none => exact Guarantees.pure _
  | some fields => exact readMicros_inv.bind fun _ => onDriver_inv _

theorem Inv.insertStatus (h : Inv env s) (p : PayloadStatus) : Inv env (insertStatus s p) := by
  intro horder
  have hreports : InOrder (reportsOf s.log ++ [p]) := by rwa [← reportsOf_reported]
  obtain ⟨hholds, htells⟩ := h (List.pairwise_append.mp hreports).1
  exact ⟨hholds.insertStatus hreports, htells.concat (by rintro _ ⟨⟩)⟩

theorem sendDataToFrontseat_inv (data : FrontSeatInterfaceData) :
    Guarantees (Preserves (Inv env)) (sendDataToFrontseat env data) := by
  refine (sendTimed_inv _ _).bind fun _ => (sendTimed_inv _ _).bind fun _ => ?_
  unfold sendExtraData
  cases data.bluefinData with
  | none => exact Guarantees.pure _
  | some extra =>
    refine (sendTimed_inv _ _).bind fun _ => Guarantees.modify fun s hs => ?_
    exact List.foldlRecOn extra.payloadStatus _ hs fun s hs p _ => hs.insertStatus p

theorem Inv.beat (h : Inv env s) (hclock : Monotone env.micros) {n readings : ℕ} (hn : s.readings ≤ n)
    (hlater : n ≤ readings) {b : Heartbeat} (hmoment : b.moment = env.micros n)
    (hnmea : b.nmea =
      let m := ((s.payloadStatus.eraseUpTo (env.micros n)).map Prod.snd).foldl Summary.add
        ⟨stateOk b.state, []⟩
      heartbeatSentence env b.sent m.ok (b.stamp ++ m.text)) :
    Inv env
      { s with
        payloadStatus := s.payloadStatus.eraseUpTo (env.micros n)
        readings := readings
        log := s.log ++ [.beat b] } := by
  intro horder
  have hreports := reportsOf_beat s.log b
  obtain ⟨hholds, htells⟩ := h (hreports ▸ horder)
  have herased := hholds.erase hclock hn hlater
  refine ⟨⟨herased.ordered, ?_, ?_⟩, htells.concat ?_⟩
  · rw [hreports]
    exact herased.keyed
  · rw [hreports]
    exact herased.kept
  · rintro _ ⟨⟩
    exact hholds.tells hn hmoment hnmea

section

variable (hclock : Monotone env.micros)
include hclock

theorem checkSendHeartbeat_inv (state : InterfaceState) :
    Guarantees (Preserves (Inv env)) (checkSendHeartbeat env state) := by
  have hend : ∀ (nmea : NmeaSentence) (last : ℚ), Guarantees (Preserves (Inv env))
      (append env nmea >>= fun _ => modify fun s => { s with lastHeartbeatTime := last }) := fun nmea last =>
    (onDriver_inv _).bind fun _ => Guarantees.modify fun s hs => hs.congr rfl rfl le_rfl
  intro s hs
  apply Ensures.finalState
  apply Ensures.bind
  refine Ensures.of_run rfl ?_
  apply Ensures.get_bind
  split_ifs
  · apply Ensures.bind
    refine Ensures.of_run rfl ?_
    apply Ensures.bind
    apply Ensures.get_bind
    split_ifs with hempty
    · -- nothing is stored, and nothing would be left at the time of the sentence
      have hstatus : s.payloadStatus = [] := List.length_eq_zero_iff.mp hempty
      apply Ensures.pure
      apply Ensures.modify_bind
      refine .of_finalState (hend _ _ _ ?_)
      have hbeat := hs.beat hclock (n := s.readings + 1) (Nat.le_succ _) (Nat.le_succ _)
        (b := ⟨state, env.micros (s.readings + 1), [], env.micros (s.readings + 1),
          heartbeatSentence env (env.micros (s.readings + 1)) (stateOk state) []⟩) rfl (by rw [hstatus]; rfl)
      exact hbeat.congr (by simp [hstatus, Multimap.eraseUpTo]) rfl le_rfl
    · apply Ensures.bind
      refine Ensures.of_run rfl ?_
      apply Ensures.bind
      refine Ensures.of_run rfl ?_
      apply Ensures.modify_bind
      apply Ensures.get_bind
      apply Ensures.pure
      apply Ensures.modify_bind
      refine .of_finalState (hend _ _ _ ?_)
      exact hs.beat hclock (n := s.readings + 3) (Nat.le_add_right _ _) (Nat.le_succ _)
        (b := ⟨state, _, _, _, _⟩) rfl rfl
  · exact Ensures.pure (hs.congr rfl rfl (Nat.le_succ s.readings))

theorem step_inv (c : Call) (hs : Inv env s) : Inv env (step env c s) := by
  cases c with
  | sendData data => exact sendDataToFrontseat_inv data s hs
  | heartbeat state => exact checkSendHeartbeat_inv hclock state s hs
  | other action => exact onDriver_inv action s hs

theorem performAll_inv (calls : List Call) (hs : Inv env s) :
    Inv env (performAll (step env) calls s) :=
  List.foldlRecOn calls _ hs fun _ hs c _ => step_inv hclock c hs

/-- Every heartbeat tells the oldest reports that have not expired. -/
theorem allTell_oldest {calls : List Call}
    (horder : InOrder (reportsOf (performAll (step env) calls {}).log)) :
    AllTell env oldestOf (performAll (step env) calls {}).log :=
  (performAll_inv hclock calls inv_new horder).tells

end

end Runs

def Single (reports : List PayloadStatus) : Prop := reports.Pairwise fun p q => p.id ≠ q.id

instance (reports : List PayloadStatus) : Decidable (Single reports) :=
  inferInstanceAs (Decidable (reports.Pairwise fun p q => p.id ≠ q.id))

instance (reports : List PayloadStatus) : Decidable (InOrder reports) :=
  inferInstanceAs (Decidable (reports.Pairwise fun p q => p.id = q.id → p.expireTime < q.expireTime))

theorem newestOf_eq_oldestOf {reports : List PayloadStatus} (h : Single reports) :
    newestOf reports = oldestOf reports := by
  funext id
  have hsingle : (withId id reports).Pairwise fun p q => p.id ≠ q.id := List.Pairwise.filter _ h
  have hid : ∀ p ∈ withId id reports, p.id = id := fun _ => id_of_mem_withId
  unfold newestOf oldestOf
  cases hreports : withId id reports with
  | nil => rfl
  | cons p rest =>
    cases rest with
    | nil => rfl
    | cons q rest =>
      rw [hreports] at hsingle hid
      have hne := (List.pairwise_cons.mp hsingle).1 q List.mem_cons_self
      exact absurd ((hid p (by simp)).trans (hid q (by simp)).symm) hne

theorem Single.before {log before rest : List SeatEvent} (h : Single (reportsOf log))
    (hlog : log = before ++ rest) (moment : ℕ) : Single (unexpired moment (reportsOf before)) := by
  rw [hlog, reportsOf, List.filterMap_append] at h
  exact List.Pairwise.filter _ (List.pairwise_append.mp h).1

def sampleFormats : DataFormats where
  nmeaTime _ := ascii "0"
  double _ := []
  double10 _ := []
  base64 message := message
  timeString _ := ascii "now"

def sampleEnv : SeatEnv where
  formats := sampleFormats
  clock n := n
  micros n := 5000000 + n

theorem sampleEnv_monotone : Monotone sampleEnv.micros := fun _ _ h => Nat.add_le_add_left h _

def takeReports (reports : List PayloadStatus) : Call :=
  .sendData { bluefinData := some { payloadStatus := reports } }

def goodReport : PayloadStatus := ⟨1, 100000000, ascii "good", true⟩

def failedReport : PayloadStatus := ⟨1, 200000000, ascii "bad", false⟩

def otherFailedReport : PayloadStatus := ⟨2, 200000000, ascii "bad", false⟩

def oneEach : List Call := [takeReports [goodReport, otherFailedReport], .heartbeat .command]

def twoOfOne : List Call := [takeReports [goodReport], takeReports [failedReport], .heartbeat .command]

def beatOfTwo : Heartbeat where
  state := .command
  sent := 5000001
  stamp := ascii "now"
  moment := 5000003
  nmea := { bpsts with rest := [ascii "0", ascii "1", ascii "now; good"] }

/-- If no id has two reports that have not expired, every heartbeat tells the newest. -/
theorem allTell_newest {env : SeatEnv} (hclock : Monotone env.micros) {calls : List Call}
    (horder : InOrder (reportsOf (performAll (step env) calls {}).log))
    (hsingle : ∀ before b after, (performAll (step env) calls {}).log = before ++ .beat b :: after →
      Single (unexpired b.moment (reportsOf before))) :
    AllTell env newestOf (performAll (step env) calls {}).log := by
  intro before b after hlog
  obtain ⟨chosen, hchosen, hnmea⟩ := allTell_oldest hclock horder before b after hlog
  rw [← newestOf_eq_oldestOf (hsingle before b after hlog)] at hchosen
  exact ⟨chosen, hchosen, hnmea⟩

theorem allTell_newest_oneEach :
    InOrder (reportsOf (performAll (step sampleEnv) oneEach {}).log) ∧
      AllTell sampleEnv newestOf (performAll (step sampleEnv) oneEach {}).log := by
  have hsingle : Single (reportsOf (performAll (step sampleEnv) oneEach {}).log) := by decide +kernel
  refine ⟨by decide +kernel, allTell_newest sampleEnv_monotone (by decide +kernel) ?_⟩
  exact fun before b after hlog => hsingle.before hlog b.moment

/-- Of two reports of an id the first is told, and the failure in the second is not. -/
theorem not_allTell_newest :
    InOrder (reportsOf (performAll (step sampleEnv) twoOfOne {}).log) ∧
      ¬ AllTell sampleEnv newestOf (performAll (step sampleEnv) twoOfOne {}).log := by
  refine ⟨by decide +kernel, fun h => ?_⟩
  have hlog : (performAll (step sampleEnv) twoOfOne {}).log =
      [.reported goodReport, .reported failedReport] ++ [.beat beatOfTwo] := by decide +kernel
  obtain ⟨chosen, hchosen, hnmea⟩ := h _ _ _ hlog
  have hmem : failedReport ∈ chosen := (hchosen.mem_iff failedReport).mpr (by decide +kernel)
  have hfailed : chosen.all PayloadStatus.allOk = false := List.all_eq_false.mpr ⟨failedReport, hmem, by decide⟩
  rw [hfailed, Bool.and_false] at hnmea
  have hflag : beatOfTwo.nmea.rest[1]? = some (ascii "0") := by
    rw [hnmea]
    rfl
  exact absurd hflag (by decide)

end Goby.BluefinSeat
