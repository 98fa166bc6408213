import Goby.QueueManagerRuns

/-! Over any run, a message that was stored is still queued or has left its queue by exactly
one exit, for good. Leaving on an acknowledgment is signalled once, with that message. A
message that expires is signalled at most once, and always if the call of `do_work` that
expired it returns; an exception, as when a network acknowledgment cannot be made, cuts
the remaining signals off. A message popped without an acknowledgment is in a frame that
the request returns. -/

namespace Goby

namespace Event

variable {Msg : Type}

def expiryOf : Event Msg → Option ((ℕ × ℕ) × Msg)
  | queue k (.expired it msg) => some ((k, it), msg)
  | _ => none

def expirySignalled : Event Msg → Option ((ℕ × ℕ) × Msg)
  | signalExpire origin msg => some (origin, msg)
  | _ => none

def about (origin : ℕ × ℕ) (l : List ((ℕ × ℕ) × Msg)) : List Msg :=
  l.filterMap fun p => if p.1 = origin then some p.2 else none

theorem mem_about {origin : ℕ × ℕ} {l : List ((ℕ × ℕ) × Msg)} {msg : Msg} :
    msg ∈ about origin l ↔ (origin, msg) ∈ l := by
  simp [about]

theorem expiryOf_eq_some {k it : ℕ} {msg : Msg} {e : Event Msg} :
    expiryOf e = some ((k, it), msg) ↔ e = queue k (.expired it msg) := by
  cases e with
  | queue j e => cases e <;> simp [expiryOf, and_assoc]
  | _ => simp [expiryOf]

theorem about_filterMap {k it : ℕ} {g : Event Msg → Option ((ℕ × ℕ) × Msg)}
    {g' : QueueEvent Msg → Option Msg}
    (h : ∀ e, (g e).bind (fun p => if p.1 = (k, it) then some p.2 else none) = (e.ofQueue k).bind g')
    (es : List (Event Msg)) : about (k, it) (es.filterMap g) = (queueEvents k es).filterMap g' := by
  rw [about, queueEvents, List.filterMap_filterMap, List.filterMap_filterMap]
  exact List.filterMap_congr fun e _ => h e

theorem about_ackRemoved (k it : ℕ) (es : List (Event Msg)) :
    about (k, it) (es.filterMap ackRemoved) = (queueEvents k es).filterMap (QueueEvent.ackedOf it) := by
  refine about_filterMap (fun e => ?_) es
  cases e with
  | queue j e => cases e <;> by_cases hj : j = k <;> simp [ackRemoved, ofQueue, QueueEvent.ackedOf, hj]
  | _ => rfl

theorem about_expiryOf (k it : ℕ) (es : List (Event Msg)) :
    about (k, it) (es.filterMap expiryOf) = (queueEvents k es).filterMap (QueueEvent.expiredOf it) := by
  refine about_filterMap (fun e => ?_) es
  cases e with
  | queue j e => cases e <;> by_cases hj : j = k <;> simp [expiryOf, ofQueue, QueueEvent.expiredOf, hj]
  | _ => rfl

end Event

namespace QueueManager

open Event (expiryOf expirySignalled about queueEvents)

variable {Desc Msg : Type} {env : Environment Desc Msg} {s : QueueManager Desc Msg} {k it : ℕ} {msg : Msg}
  {f : Fate}

/-- The log grows by events that say these messages have expired and signal those. -/
def Expires (expired signalled : List ((ℕ × ℕ) × Msg)) (s s' : QueueManager Desc Msg) : Prop :=
  ∃ es, s'.log = s.log ++ es ∧ es.filterMap expiryOf = expired ∧
    es.filterMap expirySignalled = signalled

theorem Expires.trans {x x' y y' : List ((ℕ × ℕ) × Msg)} {s s₁ s₂ : QueueManager Desc Msg}
    (h : Expires x y s s₁) (h' : Expires x' y' s₁ s₂) : Expires (x ++ x') (y ++ y') s s₂ := by
  obtain ⟨es, hlog, rfl, rfl⟩ := h
  obtain ⟨fs, hlog', rfl, rfl⟩ := h'
  exact ⟨es ++ fs, by rw [hlog', hlog, List.append_assoc], List.filterMap_append, List.filterMap_append⟩

theorem Expires.of_signals {s s' : QueueManager Desc Msg} (h : Signals IsReception s s') :
    Expires [] [] s s' := by
  obtain ⟨es, hlog, hes⟩ := h.log
  refine ⟨es, hlog, ?_, ?_⟩
  · apply List.filterMap_eq_nil_iff.mpr
    intro e he
    have := (hes e he).2
    cases e <;> first | rfl | exact this.elim
  · apply List.filterMap_eq_nil_iff.mpr
    intro e he
    have := (hes e he).2
    cases e <;> first | rfl | exact this.elim

abbrev ofExpired (k : ℕ) (expired : List (ℕ × Msg)) : List ((ℕ × ℕ) × Msg) :=
  expired.map fun e => ((k, e.1), e.2)

theorem signalExpired_ensures (k : ℕ) (expired : List (ℕ × Msg)) (s : QueueManager Desc Msg) :
    Ensures (signalExpired env k expired) s
      (fun _ s' => Expires [] (ofExpired k expired) s s')
      (fun _ s' => ∃ l, l <+: ofExpired k expired ∧ Expires [] l s s') := by
  induction expired generalizing s with
  | nil => exact .pure ⟨[], by simp, rfl, rfl⟩
  | cons e rest ih =>
    have hemit : Expires [] [((k, e.1), e.2)] s
        { s with log := s.log ++ [.signalExpire (k, e.1) e.2] } := ⟨_, rfl, rfl, rfl⟩
    refine .bind (.modify (.bind (.get (.bind
      (((acknowledgeSource_signals _ e.2 .expire).ensures _).mono ?_ ?_)))))
    · intro _ s₁ h₁
      have h₁' := hemit.trans (.of_signals h₁)
      refine (ih s₁).mono ?_ ?_
      · intro _ s₂ h₂
        exact h₁'.trans h₂
      · rintro _ s₂ ⟨l, hl, h₂⟩
        exact ⟨_, List.cons_prefix_cons.mpr ⟨rfl, hl⟩, h₁'.trans h₂⟩
    · intro _ s₁ h₁
      exact ⟨_, List.cons_prefix_cons.mpr ⟨rfl, List.nil_prefix⟩, hemit.trans (.of_signals h₁)⟩

theorem expireQueue_ensures (k : ℕ) (s : QueueManager Desc Msg) :
    Ensures (expireQueue env k) s (fun _ s' => ∃ x, Expires x x s s')
      (fun _ s' => ∃ x y, y <+: x ∧ Expires x y s s') := by
  cases hq : s.queues[k]? with
  | none => simp [Ensures, expireQueue, getQueue, hq, Expires]
  | some q =>
    refine .of_eq (expireQueue_run hq) ?_
    generalize q.expire env.clock s.readings = x
    have h₁ : Expires (ofExpired k x.1) [] s (s.withoutExpired k x) := by
      refine ⟨_, rfl, ?_, ?_⟩
      · simp [List.filterMap_map, Function.comp_def, expiryOf]
      · simp [List.filterMap_map, Function.comp_def, expirySignalled]
    refine (signalExpired_ensures k x.1 _).mono ?_ ?_
    · intro _ s₂ h₂
      have h := h₁.trans h₂
      rw [List.append_nil] at h
      exact ⟨_, h⟩
    · rintro _ s₂ ⟨l, hl, h₂⟩
      have h := h₁.trans h₂
      rw [List.append_nil] at h
      exact ⟨_, _, hl, h⟩

theorem expireQueues_ensures (ks : List ℕ) (s : QueueManager Desc Msg) :
    Ensures (expireQueues env ks) s (fun _ s' => ∃ x, Expires x x s s')
      (fun _ s' => ∃ x y, y <+: x ∧ Expires x y s s') := by
  induction ks generalizing s with
  | nil => exact .pure ⟨[], [], by simp, rfl, rfl⟩
  | cons k rest ih =>
    refine (expireQueue_ensures k s).andThen ?_
    rintro _ s₁ ⟨x, h₁⟩
    refine (ih s₁).mono ?_ ?_
    · rintro _ s₂ ⟨x', h₂⟩
      exact ⟨_, h₁.trans h₂⟩
    · rintro _ s₂ ⟨x', y', hy, h₂⟩
      exact ⟨_, _, (List.prefix_append_right_inj x).mpr hy, h₁.trans h₂⟩

theorem Allows.not_expiry {c : Call Msg} (hc : c ≠ .doWork) {e : Event Msg} (h : Allows c e) :
    expiryOf e = none ∧ expirySignalled e = none := by
  have hexpired : ∀ k it msg, ¬Allows c (.queue k (.expired it msg)) := by
    intro k it msg h
    cases c with
    | doWork => exact hc rfl
    | handleModemDataRequest fuel msg => exact h.elim id id
    | _ => exact h
  have hsignal : ∀ o m, ¬Allows c (.signalExpire o m) := by
    intro o m h
    cases c with
    | doWork => exact hc rfl
    | handleModemDataRequest fuel msg => exact h.elim id id
    | _ => exact h
  cases e with
  | queue k e =>
    cases e with
    | expired it msg => exact absurd h (hexpired k it msg)
    | _ => exact ⟨rfl, rfl⟩
  | signalExpire o m => exact absurd h (hsignal o m)
  | _ => exact ⟨rfl, rfl⟩

variable [DecidableEq Desc]

/-- A call signals, of the messages it expires, the first few, and all if it returns. -/
theorem record_expires (hs : Inv env s) (c : Call Msg) :
    (record env s c).events.filterMap expirySignalled <+: (record env s c).events.filterMap expiryOf ∧
      ∀ o, (record env s c).outcome = .ok o →
        (record env s c).events.filterMap expirySignalled = (record env s c).events.filterMap expiryOf := by
  by_cases hc : c = .doWork
  · subst hc
    have hcode : code env .doWork s.begin =
        (do expireQueues env s.queues.keys; pure none : Code Desc Msg _) s.begin := rfl
    have hens : Ensures (expireQueues env s.queues.keys) s.begin (fun _ s' => ∃ x, Expires x x s.begin s')
        (fun _ s' => ∃ x y, y <+: x ∧ Expires x y s.begin s') := expireQueues_ensures _ _
    rw [run_bind] at hcode
    unfold Ensures at hens
    cases hrun : expireQueues env s.queues.keys s.begin with
    | ok u s' =>
      rw [hrun] at hens hcode
      obtain ⟨x, es, hlog, hx, hy⟩ := hens
      have hrec : record env s .doWork = ⟨.doWork, .ok none, s'⟩ := by
        rw [record, hcode]
        rfl
      have hev : (record env s .doWork).events = es := by
        rw [hrec]
        simpa [begin] using hlog
      rw [hev, hx, hy]
      exact ⟨List.prefix_rfl, fun _ _ => rfl⟩
    | error e s' =>
      rw [hrun] at hens hcode
      obtain ⟨x, y, hpre, es, hlog, hx, hy⟩ := hens
      have hrec : record env s .doWork = ⟨.doWork, .error e, s'⟩ := by rw [record, hcode]
      have hev : (record env s .doWork).events = es := by
        rw [hrec]
        simpa [begin] using hlog
      rw [hev, hx, hy, hrec]
      exact ⟨hpre, fun o ho => by cases ho⟩
  · have hnone : ∀ e ∈ (record env s c).events, expiryOf e = none ∧ expirySignalled e = none :=
      fun e he => ((record_steps hs c).2 e he).not_expiry hc
    have hx : (record env s c).events.filterMap expiryOf = [] :=
      List.filterMap_eq_nil_iff.mpr fun e he => (hnone e he).1
    have hy : (record env s c).events.filterMap expirySignalled = [] :=
      List.filterMap_eq_nil_iff.mpr fun e he => (hnone e he).2
    rw [hx, hy]
    exact ⟨List.prefix_rfl, fun _ _ => rfl⟩

/-- What is known of a run: each record is made by a call from a state with the invariant, the
events of each queue lead to its contents, and signals are raised for what leaves. -/
structure Known (env : Environment Desc Msg) (t : Run Desc Msg) : Prop where
  records : ∀ r ∈ t.records, ∃ s c, Inv env s ∧ r = record env s c
  moves : ∀ k, Contents.Moves {} (queueEvents k t.events) (t.state.contents k)
  acks : t.events.filterMap Event.ackRemoved = t.events.filterMap Event.ackSignalled
  expiries : (t.events.filterMap expirySignalled).Sublist (t.events.filterMap expiryOf)

theorem run_known (modemId : ℤ) (codec : DcclCodec Desc) (calls : List (Call Msg)) :
    Known env (run env (initial modemId codec) calls) := by
  have hempty : ∀ k, (initial modemId codec : QueueManager Desc Msg).contents k = {} := by
    simp [contents, initial]
  refine (run_induction ⟨by simp, fun k => ?_, rfl, .refl _⟩ (inv_initial modemId codec) ?_ calls).2
  · intro t c hs h
    have hsteps := (record_steps hs c).1
    refine ⟨fun r hr => ?_, fun k => ?_, ?_, ?_⟩
    · rcases List.mem_append.mp hr with hr | hr
      · exact h.records r hr
      · exact ⟨t.state, c, hs, List.mem_singleton.mp hr⟩
    · rw [extend_events, extend_state, Event.queueEvents_append]
      exact (h.moves k).trans (hsteps.project k)
    · rw [extend_events, List.filterMap_append, List.filterMap_append, h.acks, hsteps.acks]
    · rw [extend_events, List.filterMap_append, List.filterMap_append]
      exact h.expiries.append (record_expires hs c).1.sublist
  · rw [hempty]
    exact .refl _

theorem run_events_append (s : QueueManager Desc Msg) (calls more : List (Call Msg)) :
    ∃ es, (run env s (calls ++ more)).events = (run env s calls).events ++ es := by
  induction more using List.reverseRecOn with
  | nil => exact ⟨[], by simp⟩
  | append_singleton more c ih =>
    obtain ⟨es, hes⟩ := ih
    rw [← List.append_assoc, run_append_singleton, extend_events, hes, List.append_assoc]
    exact ⟨_, rfl⟩

def Run.fates (t : Run Desc Msg) (k it : ℕ) : List Fate :=
  (if it ∈ (t.state.contents k).messages.addrs then [.queued] else []) ++
    QueueEvent.exits it (queueEvents k t.events)

def Run.ackSignals (t : Run Desc Msg) (k it : ℕ) : List Msg :=
  about (k, it) (t.events.filterMap Event.ackSignalled)

def Run.expireSignals (t : Run Desc Msg) (k it : ℕ) : List Msg :=
  about (k, it) (t.events.filterMap expirySignalled)

def Record.Returns (r : Record Desc Msg) : Prop := ∃ o, r.outcome = .ok o

/-- The message was popped by a request and, if that returns, is in the frame it was given
to, whose bytes carry it. -/
def Run.Sent (env : Environment Desc Msg) (t : Run Desc Msg) (k it : ℕ) (msg : Msg) : Prop :=
  ∃ r ∈ t.records, ∃ fuel request frame, r.call = .handleModemDataRequest fuel request ∧
    .queue k (.popped it frame) ∈ r.events ∧
    ∀ filled packs, r.outcome = .ok (some (filled, packs)) →
      ∃ packed, packs[frame - request.frameStart]? = some packed ∧
        (∃ m ∈ packed, m.origin = (k, it) ∧ m.message.dcclMsg = msg) ∧
        Carries env (fun _ => True) (request.frame.getD (frame - request.frameStart) []) packed
          (filled.frame.getD (frame - request.frameStart) [])

section

variable {t : Run Desc Msg} (ht : Known env t) (hs : .queue k (.stored it msg) ∈ t.events)
include ht hs

theorem Known.ackSignals (hf : t.fates k it = [f]) :
    t.ackSignals k it = if f = .acked then [msg] else [] := by
  rw [Run.ackSignals, ← ht.acks, Event.about_ackRemoved]
  refine (ht.moves k).handed_over (Event.mem_queueEvents.mpr hs) hf (by decide)
    (QueueEvent.ackedOf_isSome it) ?_
  intro e m he
  cases e <;> simp_all [QueueEvent.ackedOf, QueueEvent.handed]

theorem Known.expired (hf : t.fates k it = [f]) :
    about (k, it) (t.events.filterMap expiryOf) = if f = .expired then [msg] else [] := by
  rw [Event.about_expiryOf]
  refine (ht.moves k).handed_over (Event.mem_queueEvents.mpr hs) hf (by decide)
    (QueueEvent.expiredOf_isSome it) ?_
  intro e m he
  cases e <;> simp_all [QueueEvent.expiredOf, QueueEvent.handed]

/-- A message that expired is signalled, if the call that expired it returns. -/
theorem Known.expireSignals (hf : t.fates k it = [.expired])
    (hret : ∀ r ∈ t.records, .queue k (.expired it msg) ∈ r.events → r.Returns) :
    t.expireSignals k it = [msg] := by
  have hexp := ht.expired hs hf
  -- the call that expired the message
  rw [if_pos rfl] at hexp
  have hmem : msg ∈ about (k, it) (t.events.filterMap expiryOf) := by simp [hexp]
  obtain ⟨e, he, hep⟩ := List.mem_filterMap.mp (Event.mem_about.mp hmem)
  obtain rfl := Event.expiryOf_eq_some.mp hep
  obtain ⟨r, hr, her⟩ := List.mem_flatMap.mp he
  obtain ⟨o, ho⟩ := hret r hr her
  obtain ⟨s, c, hinv, rfl⟩ := ht.records r hr
  -- its signal is among those of the run
  have hsig : ((k, it), msg) ∈ (record env s c).events.filterMap expirySignalled := by
    rw [(record_expires hinv c).2 o ho]
    exact List.mem_filterMap.mpr ⟨_, her, rfl⟩
  obtain ⟨e', he', hep'⟩ := List.mem_filterMap.mp hsig
  have hin : msg ∈ t.expireSignals k it := by
    apply Event.mem_about.mpr
    exact List.mem_filterMap.mpr ⟨e', List.mem_flatMap.mpr ⟨_, hr, he'⟩, hep'⟩
  have hsub : (t.expireSignals k it).Sublist (about (k, it) (t.events.filterMap expiryOf)) :=
    ht.expiries.filterMap _
  rw [hexp, List.sublist_singleton] at hsub
  exact hsub.resolve_left (List.ne_nil_of_mem hin)

end

/-- A message that has left its queue has left it by the same exit ever after. -/
theorem Known.fates_eq {t t' : Run Desc Msg} (ht' : Known env t') {es : List (Event Msg)}
    (hes : t'.events = t.events ++ es) (hs : .queue k (.stored it msg) ∈ t.events)
    (hf : t.fates k it = [f]) (hne : f ≠ .queued) : t'.fates k it = [f] := by
  have hstored : .stored it msg ∈ queueEvents k t'.events := by
    rw [Event.mem_queueEvents, hes]
    exact List.mem_append_left _ hs
  obtain ⟨f', hf'⟩ := (ht'.moves k).one_fate hstored
  change Run.fates _ k it = [f'] at hf'
  -- the exit is among those of the longer run, of which there is one
  have hexit : f ∈ t.fates k it := by simp [hf]
  rcases List.mem_append.mp hexit with hq | hx
  · split at hq
    · exact absurd (List.mem_singleton.mp hq) hne
    · cases hq
  · have hmem : f ∈ t'.fates k it := by
      apply List.mem_append_right
      rw [hes, Event.queueEvents_append, QueueEvent.exits_append]
      exact List.mem_append_left _ hx
    rw [hf'] at hmem ⊢
    rw [List.mem_singleton.mp hmem]

theorem record_returned {fuel : ℕ} {request : ModemTransmission} {filled : Filled Msg}
    (ho : (record env s (.handleModemDataRequest fuel request)).outcome = .ok (some filled)) :
    handleModemDataRequest env fuel request s.begin =
      .ok filled (record env s (.handleModemDataRequest fuel request)).after := by
  have hcode : code env (.handleModemDataRequest fuel request) s.begin =
      (do pure (some (← handleModemDataRequest env fuel request)) : Code Desc Msg _) s.begin := rfl
  rw [run_bind] at hcode
  rw [record] at ho ⊢
  cases hrun : handleModemDataRequest env fuel request s.begin with
  | ok a s' =>
    rw [hrun] at hcode
    rw [hcode] at ho ⊢
    cases ho
    rfl
  | error e s' =>
    rw [hrun] at hcode
    rw [hcode] at ho
    cases ho

theorem record_filled (hs : Inv env s) {fuel : ℕ}
    {request filled : ModemTransmission} {packs : List (List (Packed Msg))}
    (ho : (record env s (.handleModemDataRequest fuel request)).outcome = .ok (some (filled, packs))) :
    (Encodes env (fun _ => True) → ∀ j packed, packs[j]? = some packed →
      Carries env (fun _ => True) (request.frame.getD j []) packed (filled.frame.getD j [])) ∧
    ((placed request.frameStart packs).map Given.origin).Nodup ∧
    (record env s (.handleModemDataRequest fuel request)).events.filterMap givenBy =
      placed request.frameStart packs := by
  have hens := handleModemDataRequest_ensures fuel request hs.begin
  rw [Ensures, record_returned ho] at hens
  obtain ⟨-, -, hcarries, hnodup, hgives⟩ := hens
  refine ⟨fun henc j packed hj => ?_, hnodup, ?_⟩
  · exact ((hcarries j packed hj).mono fun _ _ => trivial).carries henc
  obtain ⟨es, -, hlog, -, hgiven⟩ := hgives hs.begin
  have hev : (record env s (.handleModemDataRequest fuel request)).events = es := by
    simpa [begin] using hlog
  rw [hev, hgiven]

theorem record_popped (hs : Inv env s) {c : Call Msg} {k it frame : ℕ}
    (h : .queue k (.popped it frame) ∈ (record env s c).events) :
    (∃ fuel request, c = .handleModemDataRequest fuel request) ∧
      ∃ msg, .queue k (.gave it frame msg) ∈ (record env s c).events := by
  obtain ⟨hsteps, hallows⟩ := record_steps hs c
  constructor
  · have hc := hallows _ h
    cases c with
    | handleModemDataRequest fuel request => exact ⟨fuel, request, rfl⟩
    | _ => exact hc.elim
  · obtain ⟨before, after, heq⟩ := List.append_of_mem h
    obtain ⟨msg, hlast⟩ := hsteps.popsGiven before k it frame after heq
    refine ⟨msg, ?_⟩
    rw [heq]
    exact List.mem_append_left _ (List.mem_of_mem_filter (List.mem_of_getLast? hlast))

theorem Known.sent {t : Run Desc Msg} (ht : Known env t) (henc : Encodes env fun _ => True)
    (hs : .queue k (.stored it msg) ∈ t.events) (hf : t.fates k it = [.sent]) : t.Sent env k it msg := by
  -- the event that popped the message, and its call
  have hexit : Fate.sent ∈ t.fates k it := by simp [hf]
  obtain ⟨frame, hpop⟩ : ∃ frame, .queue k (.popped it frame) ∈ t.events := by
    rcases List.mem_append.mp hexit with hq | hx
    · split at hq <;> simp at hq
    · obtain ⟨e, he, hsent⟩ := List.mem_filterMap.mp hx
      cases e <;> simp [QueueEvent.exitOf] at hsent
      next i frame => exact ⟨frame, Event.mem_queueEvents.mp (hsent ▸ he)⟩
  obtain ⟨r, hr, hpop⟩ := List.mem_flatMap.mp hpop
  obtain ⟨s, c, hinv, rfl⟩ := ht.records r hr
  obtain ⟨⟨fuel, request, rfl⟩, given, hgave⟩ := record_popped hinv hpop
  -- the message given is the one stored
  have hall : .gave it frame given ∈ queueEvents k t.events :=
    Event.mem_queueEvents.mpr (List.mem_flatMap.mpr ⟨_, hr, hgave⟩)
  have hstored := (ht.moves k).handed Contents.named_empty hall rfl
  obtain rfl : given = msg :=
    (ht.moves k).stored_unique (by simpa using hstored) (Event.mem_queueEvents.mpr hs)
  refine ⟨_, hr, fuel, request, frame, record_call _ _, hpop, fun filled packs ho => ?_⟩
  obtain ⟨hcarries, -, hgiven⟩ := record_filled hinv ho
  have hplaced : (⟨(k, it), frame, given⟩ : Given Msg) ∈ placed request.frameStart packs := by
    rw [← hgiven]
    exact List.mem_filterMap.mpr ⟨_, hgave, rfl⟩
  obtain ⟨-, packed, hpacked, m, hm, hgm⟩ := mem_placed hplaced
  have horigin : m.origin = (k, it) := congrArg Given.origin hgm
  have hmsg : m.message.dcclMsg = given := congrArg Given.msg hgm
  exact ⟨packed, hpacked, ⟨m, hm, horigin, hmsg⟩, hcarries henc _ _ hpacked⟩

/-- Every stored message has exactly one fate, for good once it has left its queue. An
acknowledged one is signalled once; an expired one at most once, and once if the call that
expired it returns; a popped one is in a returned frame. A message popped is always the
one given last, and no request places a message twice. -/
theorem message_fates (env : Environment Desc Msg) (henc : Encodes env fun _ => True) (modemId : ℤ)
    (codec : DcclCodec Desc) (calls more : List (Call Msg)) :
    let t := run env (initial modemId codec) calls
    (∀ k it msg, .queue k (.stored it msg) ∈ t.events → ∃ f, t.fates k it = [f] ∧
      (f ≠ .queued → (run env (initial modemId codec) (calls ++ more)).fates k it = [f]) ∧
      (t.ackSignals k it = if f = .acked then [msg] else []) ∧
      (t.expireSignals k it).Sublist (if f = .expired then [msg] else []) ∧
      (f = .expired → (∀ r ∈ t.records, .queue k (.expired it msg) ∈ r.events → r.Returns) →
        t.expireSignals k it = [msg]) ∧
      (f = .sent → t.Sent env k it msg)) ∧
    ∀ r ∈ t.records, Event.PopsGiven r.events ∧
      ∀ fuel request filled packs, r.call = .handleModemDataRequest fuel request →
        r.outcome = .ok (some (filled, packs)) →
        ((placed request.frameStart packs).map Given.origin).Nodup := by
  intro t
  have ht : Known env t := run_known modemId codec calls
  constructor
  · intro k it msg hs
    obtain ⟨f, hf⟩ := (ht.moves k).one_fate (Event.mem_queueEvents.mpr hs)
    change t.fates k it = [f] at hf
    refine ⟨f, hf, fun hne => ?_, ht.ackSignals hs hf, ?_, ?_, ?_⟩
    · obtain ⟨es, hes⟩ := run_events_append (initial modemId codec) calls more
      exact (run_known modemId codec (calls ++ more)).fates_eq hes hs hf hne
    · rw [← ht.expired hs hf]
      exact ht.expiries.filterMap _
    · rintro rfl hret
      exact ht.expireSignals hs hf hret
    · rintro rfl
      exact ht.sent henc hs hf
  · intro r hr
    obtain ⟨s, c, hinv, rfl⟩ := ht.records r hr
    refine ⟨(record_steps hinv c).1.popsGiven, fun fuel request filled packs hc ho => ?_⟩
    rw [record_call] at hc
    subst hc
    exact (record_filled hinv ho).2.1

/-- A message pushed without an acknowledgment is sent in the first frame of a request. -/
def unackedCalls : List (Call SampleMsg) :=
  [.setCfg { modemId := some 1, messageEntry := [{ sampleEntry with ack := false }] },
    .pushMessage { src := 1, dest := 3, body := 7 } none,
    .handleModemDataRequest 9 sampleRequest]

theorem sampleEnvironment_encodes (clock : ℕ → ℕ) :
    Encodes { sampleEnvironment with clock := clock } fun _ => True := fun _ _ _ _ => ⟨_, rfl⟩

theorem message_fates_sample :
    (run sampleEnvironment (initial 0 sampleCodec) unackedCalls).fates 1 0 = [.sent] ∧
    (run sampleEnvironment (initial 0 sampleCodec) unackedCalls).Sent sampleEnvironment 1 0
      { src := 1, dest := 3, body := 7 } ∧
    (run sampleEnvironment (initial 0 sampleCodec) (unackedCalls ++ [.flushQueue 1])).fates 1 0 =
      [.sent] := by
  have hstored : .queue 1 (.stored 0 { src := 1, dest := 3, body := 7 }) ∈
      (run sampleEnvironment (initial 0 sampleCodec) unackedCalls).events := by decide +kernel
  have hsent : (run sampleEnvironment (initial 0 sampleCodec) unackedCalls).fates 1 0 = [.sent] := by
    decide +kernel
  obtain ⟨f, hf, hkeep, -, -, -, hframe⟩ := (message_fates sampleEnvironment
    (sampleEnvironment_encodes _) 0 sampleCodec unackedCalls [.flushQueue 1]).1 1 0 _ hstored
  obtain rfl : Fate.sent = f := by simpa [hsent] using hf
  exact ⟨hsent, hframe rfl, hkeep (by decide)⟩

/-- Two messages of node 1, which asks for network acknowledgments, have passed their time
to live; there is no queue for network acknowledgments. -/
def lostSignalCalls : List (Call SampleMsg) :=
  [.setCfg {
      modemId := some 1
      messageEntry := [{ sampleEntry with ttl := 60 }]
      makeNetworkAckForSrcId := [1] },
    .pushMessage { src := 1, dest := 3, body := 7 } none,
    .pushMessage { src := 1, dest := 3, body := 8 } none,
    .doWork]

/-- The second message has expired, and no signal says so: the exception thrown for the
network acknowledgment of the first one ends `do_work`. -/
theorem expireSignal_lost :
    Encodes { sampleEnvironment with clock := fun n => 90000000 * n } (fun _ => True) ∧
    .queue 1 (.stored 1 { src := 1, dest := 3, body := 8 }) ∈
      (run { sampleEnvironment with clock := fun n => 90000000 * n } (initial 0 sampleCodec)
        lostSignalCalls).events ∧
    (run { sampleEnvironment with clock := fun n => 90000000 * n } (initial 0 sampleCodec)
      lostSignalCalls).fates 1 1 = [.expired] ∧
    (run { sampleEnvironment with clock := fun n => 90000000 * n } (initial 0 sampleCodec)
      lostSignalCalls).expireSignals 1 1 = [] :=
  ⟨sampleEnvironment_encodes _, by decide +kernel, by decide +kernel, by decide +kernel⟩

end QueueManager
end Goby
