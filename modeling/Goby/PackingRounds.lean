import Goby.FramePacking
import Goby.NextSender
import Goby.QueueProperties

/-! A round of the loop takes the message that the winning queue offers, addresses the packet and
looks for the next sender. A property of the loop that a round keeps, and that neither the bytes
of the frame nor the search for a sender matter to, holds after the loop, and so at the end of
each frame. -/

namespace Goby.QueueManager

variable {Desc Msg : Type} {env : Environment Desc Msg}
  {K : List (List (Packed Msg)) → ModemTransmission → QueueManager Desc Msg → Prop}
  {s : QueueManager Desc Msg} {msg : ModemTransmission} {packs : List (List (Packed Msg))}
  {m : QueuedMessage Msg}

structure KeepsPacket (s s' : QueueManager Desc Msg) : Prop where
  packetAck : s'.packetAck = s.packetAck
  packetDest : s'.packetDest = s.packetDest
  manips : s'.manips = s.manips

instance : IsPreorder (QueueManager Desc Msg) KeepsPacket where
  refl _ := ⟨rfl, rfl, rfl⟩
  trans _ _ _ h h' := ⟨h'.packetAck.trans h.packetAck, h'.packetDest.trans h.packetDest,
    h'.manips.trans h.manips⟩

theorem keepsPacket_overlooks : Overlooks (@KeepsPacket Desc Msg) := fun _ _ _ _ => ⟨rfl, rfl, rfl⟩

theorem keepsPacket_applyRule [DecidableEq Desc] (modem : ℤ) :
    Guarantees KeepsPacket (applyRule env modem) := by
  refine .modify fun s => ?_
  split <;> exact ⟨rfl, rfl, rfl⟩

/-- Part of a request, with its events: what is awaited stays so unless it is evicted. -/
structure Continues (env : Environment Desc Msg) (s : QueueManager Desc Msg) (es : List (Event Msg))
    (s' : QueueManager Desc Msg) : Prop where
  steps : Steps env s es s'
  log : s'.log = s.log ++ es
  kept : ∀ k, ∀ e ∈ (s.contents k).waitingForAck,
    e ∈ (s'.contents k).waitingForAck ∨ .queue k (.evicted e.2) ∈ es

theorem Reaches.continues {s s' : QueueManager Desc Msg} (h : Reaches env IsPush s s') (hs : Inv env s) :
    ∃ es, Continues env s es s' := by
  obtain ⟨es, hsteps, hlog, hpush⟩ := h hs
  refine ⟨es, hsteps, hlog, fun k e he => ?_⟩
  have hes : ∀ {e}, e ∈ Event.queueEvents k es → IsPush (.queue k e : Event Msg) :=
    fun h => hpush _ (Event.mem_queueEvents.mp h)
  refine ((hsteps.project k).kept (fun it frame h => hes h) he).imp_right ?_
  rintro ⟨e', hm, hremoved⟩
  cases e' with
  | evicted it =>
    obtain rfl : it = e.2 := by simpa [QueueEvent.removes] using hremoved
    exact Event.mem_queueEvents.mp hm
  | _ => first | exact (hes hm).elim | cases hremoved

/-- What changes beside the data that a packet consists of: messages are pushed, and others may
leave their queues for them. -/
structure Sought (env : Environment Desc Msg) (s s' : QueueManager Desc Msg) : Prop
    extends KeepsPacket s s' where
  waiting : ∀ k, (s'.contents k).waitingForAck ⊆ (s.contents k).waitingForAck
  continues : ∃ es, Continues env s es s'
  each : ∀ {C : Queue Desc Msg → Prop}, KeptByPush env C → s.Each C → s'.Each C
  noDemand : s.NoDemand → s'.queues = s.queues

theorem Quiet.sought {s s' : QueueManager Desc Msg} (h : Quiet s s') (hp : KeepsPacket s s') :
    Sought env s s' := by
  have hc : ∀ k, s'.contents k = s.contents k := contents_congr h.queues
  exact ⟨hp, fun k e he => hc k ▸ he, ⟨[], .single (.signals (by simp) h.queues h.waiting), by simp [h.log],
    fun k e he => .inl (hc k ▸ he)⟩, fun _ hs => hs.of_queues h.queues, fun _ => h.queues⟩

theorem findNextSender_sought (hd : DemandsInPlace env) (request : ModemTransmission) (data : Bytes)
    (hs : Inv env s) :
    Yields (findNextSender env request data) s
      (fun next s' => (Inv env s' ∧ Sought env s s') ∧ ∀ k, next = some k → s'.Offers request data k) := by
  have hoffers := findNextSender_ensures (J := fun _ => True) hd (fun _ _ _ _ => trivial)
    (fun _ _ _ _ _ => trivial) request data hs trivial
  refine ((hoffers.and ((findNextSender_reaches request data).ensures s)).and
    ((keepsPacket_overlooks.findNextSender request data).ensures s)).with_run.yields ?_
  rintro next s' ⟨hrun, ⟨⟨-, ho⟩, hr⟩, hp⟩
  have hfinal : finalState (findNextSender env request data) s = s' := by rw [finalState, hrun]
  refine ⟨⟨hr.inv hs, hp, fun k => (hr.waiting_sublist hs (fun _ _ _ _ h => h) k).subset, hr.continues hs,
    fun hC h => ?_, fun h => ?_⟩, ho⟩
  · rw [← hfinal]
    exact each_findNextSender hC request data s h
  · rw [← hfinal]
    exact (h.findNextSender request data).finalState.queues

/-- The message given is entered as waiting, by the manager and by its queue, if and only if it
asks for an acknowledgment as it is given. -/
structure Settled (k frame it : ℕ) (m : QueuedMessage Msg) (q q' : Queue Desc Msg)
    (s s' : QueueManager Desc Msg) : Prop where
  queue : Inserted s s' k q'
  entered : m.msgMeta.ackRequestedD = true →
    s'.waitingForAck = s.waitingForAck.insert frame k ∧
      q'.waitingForAck = q.waitingForAck.insert frame it
  popped : m.msgMeta.ackRequestedD = false →
    s'.waitingForAck = s.waitingForAck ∧ q'.waitingForAck = q.waitingForAck
  packetAck : s'.packetAck = (s.packetAck || m.msgMeta.ackRequestedD)
  packetDest : s'.packetDest = s.packetDest
  manips : s'.manips = s.manips

theorem popGiven_ensures (k frame : ℕ) (given : Queue Desc Msg) {s₀ s : QueueManager Desc Msg}
    (h : Inserted s₀ s k given) :
    Yields (popGiven env k frame given) s
      (fun _ s' => KeepsPacket s s' ∧ s'.waitingForAck = s.waitingForAck ∧
        ∃ q', Inserted s₀ s' k q' ∧ q'.waitingForAck = given.waitingForAck) := by
  have hqsize : ∀ t : QueueManager Desc Msg, Yields (qsize env k) t
      (fun _ t' => ∃ events, t' = { t with log := events }) := by
    intro t
    cases hq : t.queues[k]? with
    | none => simp [Ensures, qsize, getQueue, hq]
    | some q => exact .bind (.of_run (getQueue_run hq) (.modify ⟨_, rfl⟩))
  unfold popGiven
  split
  · exact .throw trivial
  · refine (hqsize s).mono ?_ fun _ _ h => h
    rintro - _ ⟨events, rfl⟩
    exact ⟨⟨rfl, rfl, rfl⟩, rfl, given, h, rfl⟩
  next it left hp =>
    refine .bind (.modify ((hqsize _).mono ?_ fun _ _ h => h))
    rintro - _ ⟨events, rfl⟩
    exact ⟨⟨rfl, rfl, rfl⟩, rfl, left, h.trans (.of_insert rfl), Queue.popMessage_waiting hp⟩

theorem takeUserFrame_settled (k frame : ℕ) (s : QueueManager Desc Msg) :
    Yields (takeUserFrame env k frame) s
      (fun r s' => ∃ q q' m, s.queues[k]? = some q ∧ q.nextMessageIt = some (r.1, m) ∧
        r.2 = Queue.givenMessage m (env.clock s.readings) ∧ Settled k frame r.1 r.2 q q' s s') := by
  refine .bind ?_
  cases hq : s.queues[k]? with
  | none => simp [Ensures, getQueue, hq]
  | some q =>
    refine .of_run (getQueue_run hq) (.bind (.get ?_))
    cases hm : q.nextMessageIt with
    | none =>
      have hg : q.giveData frame (env.clock s.readings) = none := by rw [Queue.giveData, hm]
      rw [hg]
      exact .throw trivial
    | some next =>
      obtain ⟨it, m⟩ := next
      let given := Queue.givenMessage m (env.clock s.readings)
      let q₁ : Queue Desc Msg := { q with
        messages := q.messages.modify it (fun _ => given)
        waitingForAck :=
          if given.msgMeta.ackRequestedD then q.waitingForAck.insert frame it else q.waitingForAck
        lastSendTime := unixMicrosec2ptime (env.clock s.readings) }
      have hg : q.giveData frame (env.clock s.readings) = some (it, given, q₁) := by
        rw [Queue.giveData, hm]
      rw [hg]
      refine .bind (.modify (.bind (.modify (.bind (.of_run (loopbackAsSent_run _ _ _) (.bind ?_))))))
      unfold settleGiven
      split
      next hack =>
        refine .modify (.bind (.modify (.pure
          ⟨q, q₁, m, rfl, hm, rfl, .of_insert rfl, fun _ => ⟨rfl, if_pos hack⟩, ?_, rfl, rfl, rfl⟩)))
        intro h
        rw [hack] at h
        cases h
      next hack =>
        refine (popGiven_ensures k frame q₁ (.of_insert rfl)).mono ?_ fun _ _ h => h
        rintro - s₁ ⟨hpacket, hwaiting, q', hqueue, hq'⟩
        refine .bind (.modify (.pure
          ⟨q, q', m, rfl, hm, rfl, hqueue, fun h => absurd h hack, fun _ => ⟨hwaiting, ?_⟩, ?_,
            hpacket.packetDest, hpacket.manips⟩))
        · exact hq'.trans (if_neg hack)
        · exact congrArg (· || given.msgMeta.ackRequestedD) hpacket.packetAck

/-- What addressing does to the packet, for a message with this destination. -/
structure Addressed (i : ℕ) (dest : ℤ) (msg msg' : ModemTransmission) (s s' : QueueManager Desc Msg) :
    Prop where
  frameStart : msg'.frameStart = msg.frameStart
  frame : msg'.frame = msg.frame
  maxFrameBytes : msg'.maxFrameBytes = msg.maxFrameBytes
  ackRequested : msg'.ackRequested = msg.ackRequested
  dest : msg'.dest = if i = 0 ∧ msg.destD = queryDestinationId then some dest else msg.dest
  packetDest : s'.packetDest =
    if i = 0 ∧ (s.packetDest = broadcastId ∨ s.packetDest = queryDestinationId) then msg'.destD
    else s.packetDest
  packetAck : s'.packetAck = s.packetAck
  manips : s'.manips = s.manips

theorem address_addressed (i : ℕ) (m : QueuedMessage Msg) (msg : ModemTransmission)
    (s : QueueManager Desc Msg) :
    Yields (address i m msg) s (fun msg' s' => Addressed i m.msgMeta.destD msg msg' s s') := by
  unfold address
  by_cases hi : i = 0
  · rw [if_pos hi]
    refine .bind (.get (.bind (.modify (.pure ?_))))
    by_cases hq : msg.destD = queryDestinationId <;> by_cases hsrc : msg.src = querySourceId <;>
      by_cases hp : s.packetDest = broadcastId ∨ s.packetDest = queryDestinationId <;>
      simp only [hi, hq, hsrc, hp, if_true, if_false] <;>
      exact ⟨rfl, rfl, rfl, rfl, by simp [hq], by simp [hp], rfl, rfl⟩
  · rw [if_neg hi]
    exact .pure ⟨rfl, rfl, rfl, rfl, by simp [hi], by simp [hi], rfl, rfl⟩

/-- A round that takes the message `m` from its queue. -/
structure Round (env : Environment Desc Msg) (i : ℕ) (m : QueuedMessage Msg) (taken : Packed Msg)
    (p p' : Packing Msg) (s s' : QueueManager Desc Msg) : Prop where
  offered : ∃ q, s.queues[taken.origin.1]? = some q ∧ q.nextMessageIt = some (taken.origin.2, m)
  packed : p'.packed = p.packed ++ [taken]
  sentMeta : ∃ now, taken.sentMeta = (Queue.givenMessage m now).msgMeta
  addressed : ∃ s₁, Addressed i taken.sentMeta.destD p.msg p'.msg s₁ s' ∧
    s₁.packetAck = (s.packetAck || taken.sentMeta.ackRequestedD) ∧ s₁.packetDest = s.packetDest
  manips : s'.manips = s.manips
  all : ∀ {P : QueuedMessageMeta → Prop},
    (∀ (m : QueuedMessage Msg) now, P m.msgMeta → P (Queue.givenMessage m now).msgMeta) →
    s.Each (·.All P) → s'.Each (·.All P)
  waiting : ∀ k, ∀ {e}, e ∈ (s'.contents k).waitingForAck ↔ e ∈ (s.contents k).waitingForAck ∨
    taken.sentMeta.ackRequestedD = true ∧ taken.origin = (k, e.2) ∧ e.1 = p.msg.frameStart + i
  continues : ∃ es, Continues env s es s' ∧ (taken.sentMeta.ackRequestedD = false →
    .queue taken.origin.1 (.popped taken.origin.2 (p.msg.frameStart + i)) ∈ es)

/-- The frames `frame` differ from those of the packet in number `i` at most, and only if something
is packed into it. -/
def Refills (i : ℕ) (p : Packing Msg) (frame : List Bytes) : Prop :=
  ∀ j, (j = i → p.packed = []) → frame.getD j [] = p.msg.frame.getD j []

theorem refills_set (i : ℕ) {p : Packing Msg} (hp : p.packed ≠ []) (data : Bytes) :
    Refills i p (p.msg.frame.set i data) := by
  intro j hj
  have hne : i ≠ j := fun h => hp (hj h.symm)
  simp [List.getD, List.getElem?_set_ne hne]

/-- A property that rounds keep, whatever senders are sought and what the bytes of the frame become. -/
structure RoundInvariant (env : Environment Desc Msg) (i : ℕ)
    (I : Packing Msg → QueueManager Desc Msg → Prop) : Prop where
  round : ∀ {m taken p p' s s'} (data : Bytes), Round env i m taken p p' s s' →
    (p.packed = [] → data = p.msg.frame.getD i []) → Queue.Eligible p.msg data m.msgMeta → I p s → I p' s'
  frame : ∀ {p s frame}, Refills i p frame → I p s → I { p with msg := { p.msg with frame := frame } } s
  sought : ∀ {p s s'}, Sought env s s' → I p s → I p s'

/-- There is one more entry for a message given with the flag. -/
theorem Settled.mem_waiting {k frame it : ℕ} {q q' : Queue Desc Msg}
    {s s' : QueueManager Desc Msg} (h : Settled k frame it m q q' s s') (hq : s.queues[k]? = some q)
    (j : ℕ) {e : ℕ × ℕ} : e ∈ (s'.contents j).waitingForAck ↔ e ∈ (s.contents j).waitingForAck ∨
      m.msgMeta.ackRequestedD = true ∧ (k, it) = (j, e.2) ∧ e.1 = frame := by
  rw [h.queue.contents]
  split
  next hk =>
    subst hk
    rw [contents_eq hq]
    show e ∈ q'.waitingForAck ↔ e ∈ q.waitingForAck ∨ _
    cases hack : m.msgMeta.ackRequestedD with
    | false => simp [(h.popped hack).2]
    | true =>
      obtain ⟨f, i⟩ := e
      rw [(h.entered hack).2, Multimap.mem_insert, or_comm]
      simp [and_comm, eq_comm]
  next hk => simp [hk]

section Rules

variable (hd : DemandsInPlace env) {i : ℕ} {I : Packing Msg → QueueManager Desc Msg → Prop}
  (hI : RoundInvariant env i I)
include hd hI

theorem packLoop_rule (original : Bytes) (fuel k : ℕ) {p : Packing Msg} {s : QueueManager Desc Msg}
    (hs : Inv env s) {q : Queue Desc Msg} {it : ℕ}
    (hq : s.queues[k]? = some q)
    (hm : q.nextMessageIt = some (it, m))
    (hp : ∀ {taken p' s'}, Round env i m taken p p' s s' → I p' s') :
    Yields (packLoop env i original fuel k p) s
      (fun p' s' => Inv env s' ∧ I p' s' ∧ p'.packed ≠ []) := by
  induction fuel generalizing k p s q it m with
  | zero => exact .throw trivial
  | succ fuel ih =>
    refine ((takeUserFrame_settled k (p.msg.frameStart + i) s).and
      (takeUserFrame_ensures hs k (p.msg.frameStart + i))).with_run.andThen_any ?_
    rintro ⟨it₀, given⟩ s₁ ⟨hrun, ⟨q₀, q', m₀, hq₀, hm₀, rfl, hsettled⟩, hgives, hpopped⟩
    have hall {P : QueuedMessageMeta → Prop}
        (hP : ∀ (m : QueuedMessage Msg) now, P m.msgMeta → P (Queue.givenMessage m now).msgMeta) :
        s.Each (·.All P) → s₁.Each (·.All P) := by
      have htake : Guarantees (Preserves (Each (·.All P))) (takeUserFrame env k (p.msg.frameStart + i)) :=
        each_takeUserFrame (fun h hg => h.giveData hP hg) (fun h hp => h.popMessage hp) _ _
      simpa [Preserves, finalState, hrun] using htake s
    have hs₁ := hgives.reaches.inv hs
    obtain rfl : q₀ = q := Option.some.inj (hq₀.symm.trans hq)
    obtain ⟨rfl, rfl⟩ : it₀ = it ∧ m₀ = m := by simpa using hm₀.symm.trans hm
    refine ((address_addressed i _ p.msg s₁).and (address_ensures i _ p.msg s₁)).andThen_any ?_
    rintro msg s₂ ⟨haddressed, hquiet, -⟩
    have hreach₂ : Reaches env IsPush s₁ s₂ := hquiet.reaches
    have hs₂ := hreach₂.inv hs₁
    refine (metaFromMsg_ensures _ s₂).andThen_any ?_
    intro msgMeta s' hmeta
    rw [hmeta]
    let taken : Packed Msg := ⟨(k, it₀), ⟨m₀.dcclMsg, msgMeta⟩, m₀.msgMeta.encodedMessage,
      (Queue.givenMessage m₀ (env.clock s.readings)).msgMeta⟩
    have hround : ∀ passthrough, I ⟨msg, p.packed ++ [taken], passthrough⟩ s₂ := by
      intro passthrough
      obtain ⟨es, hsteps, hlog, -⟩ := hgives hs
      have hcontents : ∀ j, s₂.contents j = s₁.contents j := contents_congr hquiet.queues
      have hwaiting := fun j {e} => (congrArg (e ∈ ·.waitingForAck) (hcontents j)).to_iff.trans
        (hsettled.mem_waiting hq j)
      refine hp ⟨⟨q₀, hq, hm⟩, rfl, ⟨_, rfl⟩, ⟨s₁, haddressed, hsettled.packetAck, hsettled.packetDest⟩,
        haddressed.manips.trans hsettled.manips, fun hP h => (hall hP h).of_queues hquiet.queues, hwaiting, es,
        ⟨?_, hquiet.log.trans hlog, fun j e he => .inl ((hwaiting j).mpr (.inl he))⟩, ?_⟩
      · simpa using hsteps.trans (.single (.signals (List.forall_mem_nil _) hquiet.queues hquiet.waiting))
      · intro hack
        obtain ⟨es', hlog', hmem⟩ := hpopped hack
        exact List.append_cancel_left (hlog.symm.trans hlog') ▸ hmem
    dsimp only
    split
    · exact .pure ⟨hs₂, hround _, by simp⟩
    · refine ((reads_sizeRepeated (R := Eq) _).ensures s₂).andThen_any ?_
      intro size s' hsize
      rw [← hsize]
      split
      · refine (findNextSender_sought hd _ _ hs₂).andThen_any ?_
        rintro next s₃ ⟨⟨hs₃, hsought⟩, hoffers⟩
        have hp₃ : ∀ data passthrough,
            I ⟨{ msg with frame := msg.frame.set i data }, p.packed ++ [taken], passthrough⟩ s₃ :=
          fun data passthrough => hI.sought hsought (hI.frame (refills_set i (by simp) data) (hround passthrough))
        cases next with
        | none => exact .pure ⟨hs₃, hp₃ _ _, by simp⟩
        | some k' =>
          obtain ⟨q₃, it₃, m₃, hq₃, hm₃, heligible⟩ := hoffers k' rfl
          exact ih k' hs₃ hq₃ hm₃ fun hround₃ => hI.round _ hround₃ (by simp) heligible (hp₃ _ _)
      · exact .pure ⟨hs₂, hI.frame (refills_set i (by simp) _) (hround _), by simp⟩

end Rules

def firstSender (env : Environment Desc Msg) (i : ℕ) (msg : ModemTransmission) : Code Desc Msg (Option ℕ) :=
  findNextSender env (opened i msg) ((opened i msg).frame.getD i [])

section Frame

variable [DecidableEq Desc] (hd : DemandsInPlace env) {i : ℕ}
  {I : Packing Msg → QueueManager Desc Msg → Prop} (hI : RoundInvariant env i I)
include hd hI

/-- A frame for which no sender is found only gets the destination of the packet; for another, it
is enough to know the property after the first round. -/
theorem packFrame_first (fuel : ℕ) {msg : ModemTransmission} {s : QueueManager Desc Msg}
    (hs : Inv env s)
    (hfirst : ∀ {k q it m s₁}, firstSender env i msg s = .ok (some k) s₁ → Sought env s s₁ →
      s₁.queues[k]? = some q → q.nextMessageIt = some (it, m) →
      Queue.Eligible (opened i msg) ((opened i msg).frame.getD i []) m.msgMeta →
      ∀ {taken p' s'}, Round env i m taken { msg := opened i msg } p' s₁ s' → I p' s') :
    Yields (packFrame env fuel i msg) s
      (fun r s' => Inv env s' ∧ ((firstSender env i msg s = .ok none s' ∧ Sought env s s' ∧
          r = ({ opened i msg with dest := some s'.packetDest }, [])) ∨
        r.2 ≠ [] ∧ ∃ passthrough, I ⟨r.1, r.2, passthrough⟩ s')) := by
  refine (findNextSender_sought hd (opened i msg) _ hs).with_run.andThen_any ?_
  rintro next s₁ ⟨hrun, ⟨hs₁, hsought⟩, hoffers⟩
  cases next with
  | none => exact .bind (.get (.pure ⟨hs₁, .inl ⟨hrun, hsought, rfl⟩⟩))
  | some k =>
    obtain ⟨q, it, m, hq, hm, heligible⟩ := hoffers k rfl
    refine (packLoop_rule hd hI _ fuel k hs₁ hq hm
      (hfirst hrun hsought hq hm heligible)).andThen_any ?_
    rintro p s₂ ⟨hs₂, hp₂, hne⟩
    refine .bind ((((guarantees_tryDccl (guarantees_encodeFrame quiet_applyRule _ p)).ensures s₂).and
      ((guarantees_tryDccl (guarantees_encodeFrame keepsPacket_applyRule _ p)).ensures s₂)).yields ?_)
    rintro encoded s₃ ⟨hquiet, hpacket⟩
    have hreach : Reaches env IsPush s₂ s₃ := hquiet.reaches
    have hp₃ : ∀ data, I ⟨{ p.msg with frame := p.msg.frame.set i data }, p.packed, p.passthrough⟩ s₃ :=
      fun data => hI.sought (hquiet.sought hpacket) (hI.frame (refills_set i hne data) hp₂)
    cases encoded with
    | ok data => exact .pure ⟨hreach.inv hs₂, .inr ⟨hne, _, hp₃ _⟩⟩
    | error what => exact .pure ⟨hreach.inv hs₂, .inr ⟨hne, _, hp₃ _⟩⟩

/-- At the end of a frame, the packet was left alone but for its destination, or messages were
packed and the property holds of what came of them. -/
theorem packFrame_rule (fuel : ℕ) {msg : ModemTransmission} {s : QueueManager Desc Msg}
    (hs : Inv env s) (hmsg : I { msg := msg } s) :
    Yields (packFrame env fuel i msg) s
      (fun r s' => Inv env s' ∧ ((r = ({ opened i msg with dest := some s'.packetDest }, []) ∧
          I { msg := opened i msg } s') ∨
        r.2 ≠ [] ∧ ∃ passthrough, I ⟨r.1, r.2, passthrough⟩ s')) := by
  have hopened : I { msg := opened i msg } s := by
    obtain ⟨frame, hframe⟩ := opened_eq i msg
    have hrefills := hI.frame (fun j _ => hframe ▸ opened_getD i msg j) hmsg
    rwa [← hframe] at hrefills
  refine (packFrame_first hd hI fuel hs ?_).yields ?_
  · intro k q it m s₁ _ hsought _ _ heligible taken p' s' hround
    exact hI.round _ hround (fun _ => rfl) heligible (hI.sought hsought hopened)
  · rintro r s' ⟨hs', ⟨-, hsought, hr⟩ | hpacked⟩
    · exact ⟨hs', .inl ⟨hr, hI.sought hsought hopened⟩⟩
    · exact ⟨hs', .inr hpacked⟩

end Frame

theorem packFrame_left [DecidableEq Desc] (hd : DemandsInPlace env) (fuel : ℕ) {i : ℕ}
    (hs : Inv env s)
    (hnone : ∀ {k q it m s₁}, firstSender env i msg s = .ok (some k) s₁ → s₁.queues[k]? = some q →
      q.nextMessageIt = some (it, m) →
      ¬ Queue.Eligible (opened i msg) ((opened i msg).frame.getD i []) m.msgMeta) :
    Yields (packFrame env fuel i msg) s
      (fun r s' => firstSender env i msg s = .ok none s' ∧ Inv env s' ∧ Sought env s s' ∧
        r = ({ opened i msg with dest := some s'.packetDest }, [])) := by
  have hI : RoundInvariant env i (fun (_ : Packing Msg) (_ : QueueManager Desc Msg) => False) :=
    ⟨fun _ _ _ _ h => h, fun _ h => h, fun _ h => h⟩
  refine (packFrame_first hd hI fuel hs ?_).yields ?_
  · intro k q it m s₁ hsender _ hq hm heligible
    exact absurd heligible (hnone hsender hq hm)
  · rintro r s' ⟨hs', ⟨hnone, hsought, hr⟩ | ⟨-, _, h⟩⟩
    · exact ⟨hnone, hs', hsought, hr⟩
    · exact h.elim

theorem mem_taken {packed : List (Packed Msg)} {taken m : Packed Msg}
    {j : ℕ} :
    m ∈ (packs ++ [packed ++ [taken]]).getD j [] ↔
      m ∈ (packs ++ [packed]).getD j [] ∨ j = packs.length ∧ m = taken := by
  rcases Nat.lt_trichotomy j packs.length with h | rfl | h
  · simp [List.getD, List.getElem?_append_left h, Nat.ne_of_lt h]
  · simp [List.getD]
  · have hpast : ∀ packed : List (Packed Msg), (packs ++ [packed])[j]? = none := fun packed =>
      List.getElem?_eq_none (by simpa using Nat.succ_le_of_lt h)
    simp [List.getD, hpast, Nat.ne_of_gt h]

theorem getD_opened (packs : List (List (Packed Msg))) (j : ℕ) :
    (packs ++ [[]]).getD j [] = packs.getD j [] := by
  rcases Nat.lt_trichotomy j packs.length with h | rfl | h
  · simp [List.getD, List.getElem?_append_left h]
  · simp [List.getD]
  · simp [List.getD, List.getElem?_eq_none (Nat.le_of_lt h), List.getElem?_append_right (Nat.le_of_lt h),
      Nat.sub_ne_zero_of_lt h]

/-- A property of the messages packed so far, frame by frame, that every frame from number `first`
on keeps. -/
structure PacketInvariant (env : Environment Desc Msg) (first : ℕ)
    (K : List (List (Packed Msg)) → ModemTransmission → QueueManager Desc Msg → Prop) : Prop where
  opened : ∀ {packs msg s}, K packs msg s → K (packs ++ [[]]) msg s
  rounds : ∀ packs, first ≤ packs.length →
    RoundInvariant env packs.length (fun p s => K (packs ++ [p.packed]) p.msg s)
  unsent : ∀ {packs msg s}, K packs msg s → K packs { msg with dest := some s.packetDest } s

theorem PacketInvariant.le {first first' : ℕ} (hle : first ≤ first')
    (h : PacketInvariant env first K) : PacketInvariant env first' K :=
  ⟨h.opened, fun packs hfirst => h.rounds packs (Nat.le_trans hle hfirst), h.unsent⟩

section Packet

variable [DecidableEq Desc] (hd : DemandsInPlace env) {first : ℕ}
  {K : List (List (Packed Msg)) → ModemTransmission → QueueManager Desc Msg → Prop}
  (hK : PacketInvariant env first K)
include hd hK

theorem packFrame_packet (fuel : ℕ) (hfirst : first ≤ packs.length)
    {msg : ModemTransmission} {s : QueueManager Desc Msg} (hs : Inv env s) (hmsg : K packs msg s) :
    Yields (packFrame env fuel packs.length msg) s
      (fun r s' => Inv env s' ∧ K (packs ++ [r.2]) r.1 s') := by
  refine (packFrame_rule hd (hK.rounds packs hfirst) fuel hs (hK.opened hmsg)).yields ?_
  rintro r s' ⟨hs', ⟨rfl, hleft⟩ | ⟨-, passthrough, hpacked⟩⟩
  · exact ⟨hs', hK.unsent hleft⟩
  · exact ⟨hs', hpacked⟩

theorem packFrames_packet (fuel count : ℕ)
    (hfirst : first ≤ packs.length) {msg : ModemTransmission} {s : QueueManager Desc Msg}
    (hs : Inv env s) (hmsg : K packs msg s) :
    Yields (packFrames env fuel count packs.length msg) s
      (fun r s' => Inv env s' ∧ K (packs ++ r.2) r.1 s') := by
  induction count generalizing packs msg s with
  | zero => exact .pure ⟨hs, by simpa using hmsg⟩
  | succ count ih =>
    refine (packFrame_packet hd hK fuel hfirst hs hmsg).andThen_any ?_
    rintro ⟨msg₁, packed⟩ s₁ ⟨hs₁, hmsg₁⟩
    have hlen : (packs ++ [packed]).length = packs.length + 1 := by simp
    have hrest := ih (hlen ▸ Nat.le_succ_of_le hfirst) hs₁ hmsg₁
    rw [hlen] at hrest
    refine hrest.andThen_any ?_
    rintro ⟨msg₂, rest⟩ s₂ ⟨hs₂, hmsg₂⟩
    exact .pure ⟨hs₂, by simpa using hmsg₂⟩

end Packet

/-- A packet is begun with the flag and the destination of the request, and with no
acknowledgment awaited for its frames. -/
structure Begun (env : Environment Desc Msg) (s₀ : QueueManager Desc Msg) (msg : ModemTransmission)
    (s : QueueManager Desc Msg) : Prop where
  steps : ∃ es, Steps env s₀ es s ∧ s.log = s₀.log ++ es
  manips : s.manips = s₀.manips
  all : ∀ {P : QueuedMessageMeta → Prop}, s₀.Each (·.All P) → s.Each (·.All P)
  packetAck : s.packetAck = msg.ackRequested.getD false
  packetDest : s.packetDest = msg.destD
  waiting : ∀ k, ∀ e ∈ (s.contents k).waitingForAck, e.1 < msg.frameStart

theorem clearPacket_begun (hs : Inv env s) (msg : ModemTransmission) :
    Ensures (clearPacket env msg) s (fun _ s' => Inv env s' ∧ Begun env s msg s') (fun _ _ => False) := by
  have hpacket : Yields (clearPacket env msg) s
      (fun _ s' => s'.packetAck = msg.ackRequested.getD false ∧ s'.packetDest = msg.destD) :=
    .bind_any fun _ _ => .bind_any fun _ _ => .modify ⟨rfl, rfl⟩
  refine (((clearPacket_ensures hs msg).and hpacket).and
    ((keepsCodec_clearPacket msg).ensures s)).with_run.mono ?_ fun _ _ h => h.2.1.1
  rintro ⟨⟩ s' ⟨hrun, ⟨⟨hreach, hwaiting⟩, hack, hdest⟩, hkeeps⟩
  obtain ⟨es, hsteps, hlog, -⟩ := hreach hs
  refine ⟨hreach.inv hs, ⟨es, hsteps, hlog⟩, hkeeps.manips, fun {P} h => ?_, hack, hdest, hwaiting⟩
  have hclear : Guarantees (Preserves (Each (·.All P))) (clearPacket env msg) := each_clearPacket (fun h => h) msg
  simpa [finalState, hrun] using hclear s h

theorem handleModemDataRequest_packet [DecidableEq Desc] (hd : DemandsInPlace env)
    (hK : PacketInvariant env 0 K) (fuel : ℕ)
    (hs : Inv env s) (hbegun : ∀ s₁, Begun env s msg s₁ → K [] msg s₁) :
    Yields (handleModemDataRequest env fuel msg) s
      (fun r s' => ∃ filled, r.1 = { filled with ackRequested := some s'.packetAck } ∧ K r.2 filled s') := by
  refine .bind ((clearPacket_begun hs msg).mono ?_ fun _ _ h => h.elim)
  rintro - s₁ ⟨hs₁, hmsg₁⟩
  have hnone : K [] msg s₁ := hbegun s₁ hmsg₁
  refine (packFrames_packet hd hK fuel (frameCount msg) (Nat.zero_le _) hs₁ hnone).andThen_any ?_
  rintro ⟨filled, packs⟩ s₂ ⟨-, hfilled⟩
  exact .bind (.get (.pure ⟨filled, rfl, hfilled⟩))

/-- As the previous rule, for a property that is known after the first frame. -/
theorem handleModemDataRequest_first [DecidableEq Desc] (hd : DemandsInPlace env)
    (hK : PacketInvariant env 1 K) (fuel : ℕ)
    (hs : Inv env s) (hfirst : ∀ {s₁}, clearPacket env msg s = .ok () s₁ → Inv env s₁ → Begun env s msg s₁ →
      Yields (packFrame env fuel 0 msg) s₁ (fun r s' => Inv env s' ∧ K [r.2] r.1 s')) :
    Yields (handleModemDataRequest env fuel msg) s
      (fun r s' => (r.2 = [] ∧ r.1.dest = msg.dest) ∨
        ∃ filled, r.1 = { filled with ackRequested := some s'.packetAck } ∧ K r.2 filled s') := by
  refine .bind ((clearPacket_begun hs msg).with_run.mono ?_ fun _ _ h => h.2.elim)
  rintro ⟨⟩ s₁ ⟨hrun, hs₁, hbegun⟩
  cases frameCount msg with
  | zero => exact .bind (.pure (.bind (.get (.pure (.inl ⟨rfl, rfl⟩)))))
  | succ count =>
    refine .bind (.bind ((hfirst hrun hs₁ hbegun).yields ?_))
    rintro ⟨msg₁, packed⟩ s₂ ⟨hs₂, hmsg₁⟩
    have hlen : 1 ≤ [packed].length := by simp
    refine (packFrames_packet hd hK fuel count hlen hs₂ hmsg₁).andThen_any ?_
    rintro ⟨filled, rest⟩ s₃ ⟨-, hfilled⟩
    exact .pure (.bind (.get (.pure (.inr ⟨filled, rfl, hfilled⟩))))

end Goby.QueueManager
