import Goby.PackingRounds
import Goby.QueueManagerRuns

/-! The acknowledgment flag of a packet, and its destination, are fixed while its frames are filled.
The flag says whether the request asked for an acknowledgment or a packed message awaits one.
The destination is that of the first message, if the request leaves it open, but only a message
in the first frame can settle it. -/

namespace Goby

variable {Desc Msg : Type} {env : Environment Desc Msg} {s : QueueManager Desc Msg}
  {msg : ModemTransmission} {m : QueuedMessage Msg} {own : QueuedMessage Msg}

/-- Under a request that refuses acknowledgments, what is given awaits none: it is for everyone. -/
theorem Queue.Eligible.not_acked {request : ModemTransmission} {data : Bytes}
    (h : Queue.Eligible request data m.msgMeta) (hrefused : request.ackRequested = some false)
    (now : ℕ) :
    (Queue.givenMessage m now).msgMeta.ackRequestedD = false := by
  rw [givenMessage_ackRequestedD]
  cases hack : m.msgMeta.ackRequestedD with
  | false => rfl
  | true =>
    have hrequest : request.destD = broadcastId := h.ack hrefused hack
    have hne : request.destD ≠ queryDestinationId := by
      rw [hrequest]
      decide
    have hdest : m.msgMeta.destD = broadcastId := by
      rcases h.dest (by simp [request.dest_eq_some hne]) with hquery | hnext | hsame
      · exact absurd hquery hne
      · exact hnext
      · rw [← hsame, hrequest]
    simp [hdest]

namespace QueueManager

theorem mem_flatten_of_getD {packs : List (List (Packed Msg))} {m : Packed Msg} {j : ℕ}
    (h : m ∈ packs.getD j []) : m ∈ packs.flatten := by
  cases hj : packs[j]? with
  | none => simp [List.getD, hj] at h
  | some packed =>
    rw [List.getD, hj] at h
    exact List.mem_flatten_of_mem (List.mem_of_getElem? hj) h

/-- A message of the packet that asks for an acknowledgment was taken from queue `k` for this
entry. -/
def Accounts (start : ℕ) (packs : List (List (Packed Msg))) (k : ℕ) (entry : ℕ × ℕ) : Prop :=
  ∃ j, ∃ m ∈ packs.getD j [], entry.1 = start + j ∧ m.origin = (k, entry.2) ∧
    m.sentMeta.ackRequestedD = true

/-- The message was taken when its queue offered it as `own`, in a state that the call came through;
`es` are the events of the call from then on. -/
def TakenFrom (env : Environment Desc Msg) (s s' : QueueManager Desc Msg) (m : Packed Msg)
    (own : QueuedMessage Msg) (es : List (Event Msg)) : Prop :=
  ∃ t before, Steps env s before t ∧ Steps env t es s' ∧ s'.log = s.log ++ (before ++ es) ∧
    ∃ q, t.queues[m.origin.1]? = some q ∧ q.nextMessageIt = some (m.origin.2, own)

/-- A message given with the flag is awaited under its frame number unless it is evicted later;
one given without it has left its queue. -/
structure Followed (s : QueueManager Desc Msg) (frame : ℕ) (m : Packed Msg) (own : QueuedMessage Msg)
    (es : List (Event Msg)) : Prop where
  sentMeta : ∃ now, m.sentMeta = (Queue.givenMessage own now).msgMeta
  waiting : m.sentMeta.ackRequestedD = true → (frame, m.origin.2) ∈ (s.contents m.origin.1).waitingForAck ∨
    .queue m.origin.1 (.evicted m.origin.2) ∈ es
  popped : m.sentMeta.ackRequestedD = false → .queue m.origin.1 (.popped m.origin.2 frame) ∈ es

theorem Followed.continues {s s' : QueueManager Desc Msg} {frame : ℕ} {m : Packed Msg}
    {es fs : List (Event Msg)} (h : Followed s frame m own es)
    (hc : Continues env s fs s') : Followed s' frame m own (es ++ fs) := by
  refine ⟨h.sentMeta, fun hack => ?_, fun hack => List.mem_append_left _ (h.popped hack)⟩
  rcases h.waiting hack with hw | he
  · exact (hc.kept _ _ hw).imp_right (List.mem_append_right _)
  · exact .inr (List.mem_append_left _ he)

/-- The flag says whether the request asked for an acknowledgment or a packed message wants one;
every message of the packet was taken in the course of the call and followed since; and what is
awaited under the numbers of its frames stems from messages in them. -/
structure Tracked (env : Environment Desc Msg) (request : ModemTransmission) (s₀ : QueueManager Desc Msg)
    (packs : List (List (Packed Msg))) (msg : ModemTransmission) (s : QueueManager Desc Msg) : Prop where
  frameStart : msg.frameStart = request.frameStart
  requested : msg.ackRequested = request.ackRequested
  packetAck : s.packetAck =
    (request.ackRequested.getD false || packs.flatten.any (·.sentMeta.ackRequestedD))
  refused : request.ackRequested = some false → ∀ m ∈ packs.flatten, m.sentMeta.ackRequestedD = false
  entry : ∀ k, ∀ e ∈ (s.contents k).waitingForAck,
    e.1 < request.frameStart ∨ Accounts request.frameStart packs k e
  steps : ∃ es, Steps env s₀ es s ∧ s.log = s₀.log ++ es
  message : ∀ j, ∀ m ∈ packs.getD j [], ∃ own es, TakenFrom env s₀ s m own es ∧
    Followed s (request.frameStart + j) m own es

section Tracking

variable {request : ModemTransmission} {s₀ s s' : QueueManager Desc Msg} {packs : List (List (Packed Msg))}
  {fs : List (Event Msg)}

theorem Tracked.later (h : Tracked env request s₀ packs msg s) (hc : Continues env s fs s') :
    (∃ es, Steps env s₀ es s' ∧ s'.log = s₀.log ++ es) ∧ ∀ j, ∀ m ∈ packs.getD j [],
      ∃ own es, TakenFrom env s₀ s' m own es ∧ Followed s' (request.frameStart + j) m own es := by
  obtain ⟨es, hsteps, hlog⟩ := h.steps
  refine ⟨⟨es ++ fs, hsteps.trans hc.steps, by simp [hc.log, hlog]⟩, fun j m hm => ?_⟩
  obtain ⟨own, es, ⟨t, before, hbefore, hafter, hlog, hoffered⟩, hfollowed⟩ := h.message j m hm
  exact ⟨own, es ++ fs, ⟨t, before, hbefore, hafter.trans hc.steps, by simp [hc.log, hlog], hoffered⟩,
    hfollowed.continues hc⟩

theorem tracked_packet : PacketInvariant env 0 (Tracked env request s₀) := by
  refine ⟨fun h => ⟨h.frameStart, h.requested, by simpa using h.packetAck, by simpa using h.refused,
      by simpa only [Accounts, getD_opened] using h.entry, h.steps, by simpa only [getD_opened] using h.message⟩,
    fun packs _ => ?_, fun h => ⟨h.frameStart, h.requested, h.packetAck, h.refused, h.entry, h.steps, h.message⟩⟩
  refine ⟨?_, fun _ h => ⟨h.frameStart, h.requested, h.packetAck, h.refused, h.entry, h.steps, h.message⟩,
    fun hs h => ?_⟩
  swap
  · obtain ⟨fs, hc⟩ := hs.continues
    obtain ⟨hsteps, hmessage⟩ := h.later hc
    exact ⟨h.frameStart, h.requested, hs.packetAck.trans h.packetAck, h.refused,
      fun k e he => h.entry k e (hs.waiting k he), hsteps, hmessage⟩
  intro m taken p p' s s' data hround _ heligible h
  obtain ⟨now, hmeta⟩ := hround.sentMeta
  obtain ⟨s₁, haddressed, hack, -⟩ := hround.addressed
  obtain ⟨fs, hc, hpopped⟩ := hround.continues
  obtain ⟨es, hsteps, hlog⟩ := h.steps
  obtain ⟨hsteps', hmessage⟩ := h.later hc
  have hsent : (packs ++ [p'.packed]).flatten = (packs ++ [p.packed]).flatten ++ [taken] := by
    simp [hround.packed]
  refine ⟨haddressed.frameStart.trans h.frameStart, haddressed.ackRequested.trans h.requested, ?_,
    fun hrefused => ?_, fun k e he => ?_, hsteps', fun j m' hm' => ?_⟩
  · rw [haddressed.packetAck, hack, h.packetAck, hsent, List.any_append, Bool.or_assoc]
    simp
  · rw [hsent, List.forall_mem_append, List.forall_mem_singleton, hmeta]
    exact ⟨h.refused hrefused, heligible.not_acked (h.requested.trans hrefused) now⟩
  · rw [hround.packed]
    rcases (hround.waiting k).mp he with he | ⟨hack, horigin, hframe⟩
    · refine (h.entry k e he).imp_right ?_
      rintro ⟨j, m, hm, hentry⟩
      exact ⟨j, m, mem_taken.mpr (.inl hm), hentry⟩
    · exact .inr ⟨packs.length, taken, mem_taken.mpr (.inr ⟨rfl, rfl⟩), h.frameStart ▸ hframe, horigin, hack⟩
  · rw [hround.packed] at hm'
    rcases mem_taken.mp hm' with hm' | ⟨rfl, rfl⟩
    · exact hmessage j m' hm'
    · rw [← h.frameStart]
      exact ⟨m, fs, ⟨s, es, hsteps, hc.steps, by simp [hc.log, hlog], hround.offered⟩, hround.sentMeta,
        fun hack => .inl ((hround.waiting _).mpr (.inr ⟨hack, rfl, rfl⟩)), hpopped⟩

end Tracking

theorem handleModemDataRequest_tracked [DecidableEq Desc] (hd : DemandsInPlace env) (fuel : ℕ)
    (msg : ModemTransmission) (hs : Inv env s) :
    Yields (handleModemDataRequest env fuel msg) s
      (fun r s' => ∃ filled, r.1 = { filled with ackRequested := some s'.packetAck } ∧
        Tracked env msg s r.2 filled s') :=
  handleModemDataRequest_packet hd tracked_packet fuel hs fun _ hbegun =>
    ⟨rfl, rfl, by simpa using hbegun.packetAck, by simp, fun k e he => .inl (hbegun.waiting k e he),
      hbegun.steps, by simp⟩

/-- The message was entered as waiting in the course of the call: its queue and the manager list it
under the frame number at the end, unless it was evicted since. -/
def Entered (s s' : QueueManager Desc Msg) (frame : ℕ) (m : Packed Msg) : Prop :=
  ((frame, m.origin.2) ∈ (s'.contents m.origin.1).waitingForAck ∧ (frame, m.origin.1) ∈ s'.waitingForAck) ∨
    .queue m.origin.1 (.evicted m.origin.2) ∈ s'.log.drop s.log.length

/-- A message leaves its queue once, so one that is popped is neither waiting nor evicted. -/
theorem entered_iff_ackRequested {s s' : QueueManager Desc Msg} {frame : ℕ} {m : Packed Msg}
    {es : List (Event Msg)} (hs' : Inv env s') (ht : TakenFrom env s s' m own es)
    (h : Followed s' frame m own es) : Entered s s' frame m ↔ m.sentMeta.ackRequestedD = true := by
  obtain ⟨t, before, hbefore, hafter, hlog, -⟩ := ht
  have hdrop : s'.log.drop s.log.length = before ++ es := by rw [hlog, List.drop_left]
  rw [Entered, hdrop]
  constructor
  · intro hentered
    by_contra hack
    have hpopped := List.mem_append_right before (h.popped (Bool.not_eq_true _ ▸ hack))
    have hexits := ((hbefore.trans hafter).project m.origin.1).exits_le_one m.origin.2
    have hsent : Fate.sent ∈ QueueEvent.exits m.origin.2 (Event.queueEvents m.origin.1 (before ++ es)) :=
      List.mem_filterMap.mpr ⟨_, Event.mem_queueEvents.mpr hpopped, if_pos rfl⟩
    have hone : (QueueEvent.exits m.origin.2 (Event.queueEvents m.origin.1 (before ++ es))).length = 1 := by
      have := List.length_pos_of_mem hsent
      omega
    rcases hentered with ⟨hw, -⟩ | hevicted
    · obtain ⟨m', hm', -⟩ := (hs'.wf m.origin.1).live _ hw
      rw [if_pos (StableList.mem_addrs.mpr ⟨m', hm'⟩)] at hexits
      omega
    · obtain ⟨f, hf⟩ := List.length_eq_one_iff.mp hone
      have hleft : Fate.evicted ∈ QueueEvent.exits m.origin.2 (Event.queueEvents m.origin.1 (before ++ es)) :=
        List.mem_filterMap.mpr ⟨_, Event.mem_queueEvents.mpr hevicted, if_pos rfl⟩
      rw [hf, List.mem_singleton] at hsent hleft
      cases hsent.trans hleft.symm
  · intro hack
    exact (h.waiting hack).imp (fun hw => ⟨hw, hs'.agreement.listed hw⟩) (List.mem_append_right _)

/-- The flag of a packet is raised if and only if the request asks for it or the call enters a
message of the packet as waiting; it enters a message if and only if that message, as its queue
offered it, asks for it and is not for everyone; and under a request that refuses acknowledgments
none. Only messages of the packet are awaited under its frame numbers. -/
theorem ackRequested_iff_entered [DecidableEq Desc] (hd : DemandsInPlace env) (modemId : ℤ)
    (codec : DcclCodec Desc) (calls : List (Call Msg)) (fuel : ℕ) (msg : ModemTransmission)
    {r : ModemTransmission × List (List (Packed Msg))} {s' : QueueManager Desc Msg}
    (hr : handleModemDataRequest env fuel msg (stateAfter env modemId codec calls) = .ok r s') :
    let s := stateAfter env modemId codec calls
    (r.1.ackRequestedD = true ↔ msg.ackRequested = some true ∨
      ∃ j, ∃ m ∈ r.2.getD j [], Entered s s' (msg.frameStart + j) m) ∧
    (∀ j, ∀ m ∈ r.2.getD j [], ∃ own es, TakenFrom env s s' m own es ∧
      (Entered s s' (msg.frameStart + j) m ↔
        own.msgMeta.ackRequestedD = true ∧ own.msgMeta.destD ≠ broadcastId)) ∧
    (msg.ackRequested = some false → ∀ j, ∀ m ∈ r.2.getD j [], ¬ Entered s s' (msg.frameStart + j) m) ∧
    ∀ k, ∀ e ∈ (s'.contents k).waitingForAck, msg.frameStart ≤ e.1 → Accounts msg.frameStart r.2 k e := by
  intro s
  have hs : Inv env s := inv_stateAfter modemId codec calls
  have htracked := handleModemDataRequest_tracked hd fuel msg hs
  simp only [Ensures, hr, s] at htracked
  obtain ⟨filled, hfilled, htracked⟩ := htracked
  have hs' : Inv env s' := by
    obtain ⟨es, hsteps, -⟩ := htracked.steps
    exact hsteps.inv hs
  have hiff {j m} (hm : m ∈ r.2.getD j []) :
      Entered s s' (msg.frameStart + j) m ↔ m.sentMeta.ackRequestedD = true := by
    obtain ⟨own, es, htaken, hfollowed⟩ := htracked.message j m hm
    exact entered_iff_ackRequested hs' htaken hfollowed
  refine ⟨?_, fun j m hm => ?_, fun hrefused j m hm => ?_,
    fun k e he hle => (htracked.entry k e he).resolve_left (Nat.not_lt.mpr hle)⟩
  · have hany : (∃ j, ∃ m ∈ r.2.getD j [], Entered s s' (msg.frameStart + j) m) ↔
        ∃ m ∈ r.2.flatten, m.sentMeta.ackRequestedD = true := by
      constructor
      · rintro ⟨j, m, hm, hentered⟩
        exact ⟨m, mem_flatten_of_getD hm, (hiff hm).mp hentered⟩
      · rintro ⟨m, hm, hack⟩
        obtain ⟨packed, hpacked, hm⟩ := List.mem_flatten.mp hm
        obtain ⟨j, hj⟩ := List.getElem?_of_mem hpacked
        have hm' : m ∈ r.2.getD j [] := by simpa [List.getD, hj] using hm
        exact ⟨j, m, hm', (hiff hm').mpr hack⟩
    rw [hany, hfilled]
    show s'.packetAck = true ↔ _
    rw [htracked.packetAck, Bool.or_eq_true, List.any_eq_true]
    refine or_congr_left ?_
    cases msg.ackRequested <;> simp
  · obtain ⟨own, es, htaken, hfollowed⟩ := htracked.message j m hm
    obtain ⟨now, hmeta⟩ := hfollowed.sentMeta
    refine ⟨own, es, htaken, (hiff hm).trans ?_⟩
    rw [hmeta, Queue.givenMessage_ackRequestedD]
    simp
  · rw [hiff hm, htracked.refused hrefused m (mem_flatten_of_getD hm)]
    simp

/-- A message is awaited under the first frame number, so the flag is raised. -/
theorem ackRequested_iff_entered_sample :
    ∃ r s', handleModemDataRequest sampleEnvironment 9 sampleRequest sampleState = .ok r s' ∧
      (s'.contents 1).waitingForAck = [(5, 0)] ∧ r.1.ackRequestedD = true := by
  have hwaiting : resultOf (handleModemDataRequest sampleEnvironment 9 sampleRequest) sampleState
      (fun _ s' => ((s'.contents 1).waitingForAck, s'.waitingForAck)) = some ([(5, 0)], [(5, 1)]) := by
    decide +kernel
  obtain ⟨r, s', hrun, hwaiting⟩ := resultOf_eq_some.mp hwaiting
  obtain ⟨hqueue, hmanager⟩ := Prod.mk.inj hwaiting
  obtain ⟨hflag, -, -, haccounts⟩ := ackRequested_iff_entered (fun _ _ _ => rfl) 0 sampleCodec
    (sampleCalls.take 2) 9 sampleRequest hrun
  obtain ⟨j, m, hm, hframe, horigin, -⟩ := haccounts 1 (5, 0) (by simp [hqueue]) (by decide)
  refine ⟨r, s', hrun, hqueue, hflag.mpr (.inr ⟨j, m, hm, .inl ?_⟩)⟩
  rw [← hframe, horigin, hqueue, hmanager]
  simp

/-- The packet is for this modem, and so are its messages unless they are for everyone. -/
structure Directed (modem : ℤ) (packs : List (List (Packed Msg))) (msg : ModemTransmission)
    (s : QueueManager Desc Msg) : Prop where
  ne_query : modem ≠ queryDestinationId
  dest : msg.dest = some modem
  packetDest : s.packetDest = modem
  sent : ∀ m ∈ packs.flatten, m.sentMeta.destD = broadcastId ∨ m.sentMeta.destD = modem

theorem directed_packet (modem : ℤ) : PacketInvariant env 0 (@Directed Desc Msg modem) := by
  refine ⟨fun h => ⟨h.ne_query, h.dest, h.packetDest, by simpa using h.sent⟩, fun packs _ => ?_,
    fun h => ⟨h.ne_query, by rw [h.packetDest], h.packetDest, h.sent⟩⟩
  refine ⟨?_, fun _ h => ⟨h.ne_query, h.dest, h.packetDest, h.sent⟩,
    fun hs h => ⟨h.ne_query, h.dest, hs.packetDest.trans h.packetDest, h.sent⟩⟩
  intro m taken p p' s s' data hround _ heligible h
  obtain ⟨now, hmeta⟩ := hround.sentMeta
  obtain ⟨s₁, haddressed, -, hkept⟩ := hround.addressed
  have hquery : p.msg.destD ≠ queryDestinationId := by
    simpa [ModemTransmission.destD, h.dest] using h.ne_query
  have hdest : p'.msg.dest = some modem := by
    rw [haddressed.dest, if_neg (fun hi => hquery hi.2), h.dest]
  refine ⟨h.ne_query, hdest, ?_, fun m' hm' => ?_⟩
  · rw [haddressed.packetDest, hkept, h.packetDest]
    split
    · simp [ModemTransmission.destD, hdest]
    · rfl
  · have hm' : m' ∈ (packs ++ [p.packed]).flatten ∨ m' = taken := by
      simpa [hround.packed, or_assoc] using hm'
    rcases hm' with hm' | rfl
    · exact h.sent m' hm'
    · rw [hmeta, Queue.givenMessage_destD]
      rcases heligible.dest (by simp [h.dest]) with hq | hb | hsame
      · exact absurd hq hquery
      · exact .inl hb
      · exact .inr (by simpa [ModemTransmission.destD, h.dest] using hsame.symm)

/-- The packet has no destination, which only the first frame can give it. -/
structure Undirected (msg : ModemTransmission) (s : QueueManager Desc Msg) : Prop where
  dest : msg.destD = queryDestinationId
  packetDest : s.packetDest = queryDestinationId

theorem undirected_packet : PacketInvariant env 1 (fun (_ : List (List (Packed Msg))) => @Undirected Desc Msg) := by
  refine ⟨id, fun packs hfirst => ?_, fun h => ⟨by simpa [ModemTransmission.destD] using h.packetDest,
    h.packetDest⟩⟩
  refine ⟨?_, fun _ h => ⟨h.dest, h.packetDest⟩, fun hs h => ⟨h.dest, hs.packetDest.trans h.packetDest⟩⟩
  intro m taken p p' s s' data hround _ heligible h
  obtain ⟨s₁, haddressed, -, hkept⟩ := hround.addressed
  have hne : packs.length ≠ 0 := by omega
  refine ⟨?_, ?_⟩
  · rw [ModemTransmission.destD, haddressed.dest, if_neg (fun hi => hne hi.1)]
    exact h.dest
  · rw [haddressed.packetDest, if_neg (fun hi => hne hi.1), hkept, h.packetDest]

/-- One of the messages has no destination itself. -/
theorem unaddressed_packet : PacketInvariant env 0 (fun (packs : List (List (Packed Msg))) _
    (_ : QueueManager Desc Msg) => ∃ m ∈ packs.flatten, m.sentMeta.destD = queryDestinationId) := by
  refine ⟨fun h => by simpa using h, fun packs _ => ⟨?_, fun _ h => h, fun _ h => h⟩, fun h => h⟩
  rintro m taken p p' s s' data hround - - ⟨m', hm', hquery⟩
  refine ⟨m', ?_, hquery⟩
  rw [hround.packed]
  simp only [List.flatten_append, List.flatten_singleton, List.mem_append] at hm' ⊢
  exact hm'.imp_right .inl

/-- The message that opens the packet: the next one of the queue that wins the first frame. -/
def openingMessage (env : Environment Desc Msg) (msg : ModemTransmission) (s : QueueManager Desc Msg) :
    Option (QueuedMessage Msg) :=
  match (do clearPacket env msg; firstSender env 0 msg) s with
  | .ok (some k) s' => (s'.queues[k]?.bind (·.nextMessageIt)).map (·.2)
  | _ => none

theorem openingMessage_eq {s s₁ : QueueManager Desc Msg} (h : clearPacket env msg s = .ok () s₁) :
    openingMessage env msg s = match firstSender env 0 msg s₁ with
      | .ok (some k) s' => (s'.queues[k]?.bind (·.nextMessageIt)).map (·.2)
      | _ => none := by
  simp [openingMessage, h]

/-- A property that the round of the opening message establishes and that frames keep. -/
theorem handleModemDataRequest_opening [DecidableEq Desc] (hd : DemandsInPlace env)
    {K : List (List (Packed Msg)) → ModemTransmission → QueueManager Desc Msg → Prop}
    (hK : PacketInvariant env 0 K) (fuel : ℕ)
    (hs : Inv env s) (hm : openingMessage env msg s = some m)
    (hround : ∀ {taken p' s₁ s'}, s₁.packetDest = msg.destD →
      Round env 0 m taken { msg := opened 0 msg } p' s₁ s' → K [p'.packed] p'.msg s') :
    Yields (handleModemDataRequest env fuel msg) s
      (fun r s' => (r.2 = [] ∧ r.1.dest = msg.dest) ∨
        ∃ filled, r.1 = { filled with ackRequested := some s'.packetAck } ∧ K r.2 filled s') := by
  refine handleModemDataRequest_first hd (hK.le (Nat.zero_le 1)) fuel hs ?_
  intro s₁ hrun hs₁ hbegun
  rw [openingMessage_eq hrun] at hm
  have hI : RoundInvariant env 0 (fun p s => K [p.packed] p.msg s) := hK.rounds [] (Nat.zero_le _)
  refine (packFrame_first hd hI fuel hs₁ ?_).yields ?_
  · intro k q it m' s₂ hsender hsought hq hnext _ taken p' s' hround'
    obtain rfl : m' = m := by simpa [hsender, hq, hnext] using hm
    exact hround (hsought.packetDest.trans hbegun.packetDest) hround'
  · rintro r s' ⟨hs', ⟨hnone, -, -⟩ | ⟨-, _, hpacked⟩⟩
    · simp [hnone] at hm
    · exact ⟨hs', hpacked⟩

/-- Without an opening message, a packet that has no destination gets none. -/
theorem handleModemDataRequest_unopened [DecidableEq Desc] (hd : DemandsInPlace env) (fuel : ℕ)
    (hs : Inv env s)
    (hm : openingMessage env msg s = none) (hquery : msg.destD = queryDestinationId) :
    Yields (handleModemDataRequest env fuel msg) s (fun r _ => r.1.destD = queryDestinationId) := by
  refine (handleModemDataRequest_first hd undirected_packet fuel hs ?_).yields ?_
  · intro s₁ hrun hs₁ hbegun
    rw [openingMessage_eq hrun] at hm
    refine (packFrame_left hd fuel hs₁ ?_).yields ?_
    · intro k q it m s₂ hsender hq hnext
      simp [hsender, hq, hnext] at hm
    · rintro r s' ⟨-, hs', hsought, rfl⟩
      have hpacket : s'.packetDest = queryDestinationId :=
        hsought.packetDest.trans (hbegun.packetDest.trans hquery)
      exact ⟨hs', by simpa [ModemTransmission.destD] using hpacket, hpacket⟩
  · rintro r s' (⟨-, hdest⟩ | ⟨filled, hfilled, hundirected⟩)
    · rw [ModemTransmission.destD, hdest]
      exact hquery
    · rw [hfilled]
      exact hundirected.dest

/-- Every message packed is for everyone or for the modem that the packet is for, which is known
if there is any. -/
structure DestinationCoherent (r : ModemTransmission × List (List (Packed Msg))) : Prop where
  sent : ∀ m ∈ r.2.flatten, m.sentMeta.destD = broadcastId ∨ m.sentMeta.destD = r.1.destD
  known : r.2.flatten ≠ [] → r.1.destD ≠ queryDestinationId

variable {r : ModemTransmission × List (List (Packed Msg))}

theorem Directed.coherent {modem : ℤ} {filled : ModemTransmission} (h : Directed modem r.2 filled s)
    {ack : Option Bool} (hr : r.1 = { filled with ackRequested := ack }) : DestinationCoherent r := by
  have hdest : r.1.destD = modem := by simp [ModemTransmission.destD, hr, h.dest]
  refine ⟨?_, fun _ => ?_⟩
  · rw [hdest]
    exact h.sent
  · rw [hdest]
    exact h.ne_query

theorem destinationCoherent_of_nil (h : r.2.flatten = []) : DestinationCoherent r :=
  ⟨by simp [h], fun hne => absurd h hne⟩

theorem DestinationCoherent.addressed
    (h : DestinationCoherent r) {m : Packed Msg} (hm : m ∈ r.2.flatten) :
    m.sentMeta.destD ≠ queryDestinationId := by
  have hne : r.2.flatten ≠ [] := List.ne_nil_of_mem hm
  rcases h.sent m hm with hb | hsame
  · rw [hb]
    decide
  · rw [hsame]
    exact h.known hne

/-- The round of the opening message, if it has a destination, directs the packet there. -/
theorem Round.directed {taken : Packed Msg}
    {p' : Packing Msg} {s s' : QueueManager Desc Msg}
    (h : Round env 0 m taken { msg := opened 0 msg } p' s s') (hmsg : msg.destD = queryDestinationId)
    (hs : s.packetDest = msg.destD) (hm : m.msgMeta.destD ≠ queryDestinationId) :
    Directed m.msgMeta.destD [p'.packed] p'.msg s' := by
  obtain ⟨now, hmeta⟩ := h.sentMeta
  obtain ⟨s₁, haddressed, -, hkept⟩ := h.addressed
  have htaken : taken.sentMeta.destD = m.msgMeta.destD := by rw [hmeta, Queue.givenMessage_destD]
  have hopened : (opened 0 msg).destD = queryDestinationId := by
    obtain ⟨frame, hframe⟩ := opened_eq 0 msg
    rw [hframe]
    exact hmsg
  have hdest : p'.msg.dest = some m.msgMeta.destD := by
    rw [haddressed.dest, if_pos ⟨rfl, hopened⟩, htaken]
  refine ⟨hm, hdest, ?_, ?_⟩
  · rw [haddressed.packetDest, if_pos ⟨rfl, .inr (hkept.trans (hs.trans hmsg))⟩, ModemTransmission.destD,
      hdest, Option.getD_some]
  · simp [h.packed, htaken]

/-- A packet is coherent if and only if the request names its destination, or the message that
opens it has one, or there is nothing in it: a frame after the first does not settle it. -/
theorem destinationCoherent_iff [DecidableEq Desc] (hd : DemandsInPlace env) (modemId : ℤ)
    (codec : DcclCodec Desc) (calls : List (Call Msg)) (fuel : ℕ) (msg : ModemTransmission)
    {r : ModemTransmission × List (List (Packed Msg))} {s' : QueueManager Desc Msg}
    (hr : handleModemDataRequest env fuel msg (stateAfter env modemId codec calls) = .ok r s') :
    DestinationCoherent r ↔ msg.destD ≠ queryDestinationId ∨
      (∃ m ∈ openingMessage env msg (stateAfter env modemId codec calls),
        m.msgMeta.destD ≠ queryDestinationId) ∨
      r.2.flatten = [] := by
  have hs : Inv env (stateAfter env modemId codec calls) := inv_stateAfter modemId codec calls
  by_cases hquery : msg.destD = queryDestinationId
  swap
  · have hdirected := handleModemDataRequest_packet hd (directed_packet msg.destD) fuel hs
      fun s₁ hbegun => ⟨hquery, msg.dest_eq_some hquery, hbegun.packetDest, by simp⟩
    simp only [Ensures, hr] at hdirected
    obtain ⟨filled, hfilled, hdirected⟩ := hdirected
    exact iff_of_true (hdirected.coherent hfilled) (.inl hquery)
  -- the request leaves the destination open
  constructor
  · intro h
    by_contra hcon
    simp only [hquery, ne_eq, not_true_eq_false, false_or, not_or] at hcon
    obtain ⟨hopening, hne⟩ := hcon
    cases hm : openingMessage env msg (stateAfter env modemId codec calls) with
    | none =>
      have hleft := handleModemDataRequest_unopened hd fuel hs hm hquery
      simp only [Ensures, hr] at hleft
      exact h.known hne hleft
    | some m =>
      have hdest : m.msgMeta.destD = queryDestinationId := by simpa [hm] using hopening
      have hunaddressed := handleModemDataRequest_opening hd unaddressed_packet fuel hs hm
        fun {taken _ _ _} _ hround =>
          ⟨taken, by simp [hround.packed], by obtain ⟨_, hmeta⟩ := hround.sentMeta; rw [hmeta]; exact hdest⟩
      simp only [Ensures, hr] at hunaddressed
      rcases hunaddressed with ⟨hnil, -⟩ | ⟨_, -, m', hm', hquery'⟩
      · exact hne (by simp [hnil])
      · exact h.addressed hm' hquery'
  · rintro (h | ⟨m, hm, hdest⟩ | h)
    · exact absurd hquery h
    · have hdirected := handleModemDataRequest_opening hd (directed_packet m.msgMeta.destD) fuel hs hm
        fun hpacket hround => hround.directed hquery hpacket hdest
      simp only [Ensures, hr] at hdirected
      rcases hdirected with ⟨hnil, -⟩ | ⟨filled, hfilled, hdirected⟩
      · exact destinationCoherent_of_nil (by simp [hnil])
      · exact hdirected.coherent hfilled
    · exact destinationCoherent_of_nil h

/-- The message for modem 3 opens the packet, and so directs it there. -/
theorem destinationCoherent_sample :
    ∃ r s', handleModemDataRequest sampleEnvironment 9 sampleRequest sampleState = .ok r s' ∧
      r.1.destD = 3 ∧ DestinationCoherent r := by
  have hdest : resultOf (handleModemDataRequest sampleEnvironment 9 sampleRequest) sampleState
      (fun r _ => r.1.destD) = some 3 := by
    decide +kernel
  have hopening : (openingMessage sampleEnvironment sampleRequest sampleState).map
      (fun m => m.msgMeta.destD) = some 3 := by
    decide +kernel
  obtain ⟨m, hm, hopens⟩ := Option.map_eq_some_iff.mp hopening
  obtain ⟨r, s', hrun, hdest⟩ := resultOf_eq_some.mp hdest
  refine ⟨r, s', hrun, hdest, (destinationCoherent_iff (fun _ _ _ => rfl) 0 sampleCodec
    (sampleCalls.take 2) 9 sampleRequest hrun).mpr (.inr (.inl ⟨m, hm, ?_⟩))⟩
  rw [hopens]
  decide

/-- The first of the two frames is full already. -/
def fullRequest : ModemTransmission :=
  { dest := some queryDestinationId, maxNumFrames := 2, maxFrameBytes := some 4, frame := [[0, 0, 0, 0]] }

/-- The message for modem 3 is packed into the second frame, and the packet goes nowhere. -/
theorem fullRequest_incoherent :
    ∃ r s', handleModemDataRequest sampleEnvironment 9 fullRequest sampleState = .ok r s' ∧
      r.1.frame = [[0, 0, 0, 0], [1, 1, 3, 7]] ∧ r.2.flatten.map (·.sentMeta.destD) = [3] ∧
      r.1.destD = queryDestinationId ∧ ¬ DestinationCoherent r := by
  have hresult : resultOf (handleModemDataRequest sampleEnvironment 9 fullRequest) sampleState
      (fun r _ => (r.1.frame, r.2.flatten.map (·.sentMeta.destD), r.1.destD)) =
      some ([[0, 0, 0, 0], [1, 1, 3, 7]], [3], queryDestinationId) := by
    decide +kernel
  obtain ⟨r, s', hrun, hresult⟩ := resultOf_eq_some.mp hresult
  simp only [Prod.mk.injEq] at hresult
  obtain ⟨hframe, hsent, hdest⟩ := hresult
  refine ⟨r, s', hrun, hframe, hsent, hdest, fun h => h.known ?_ hdest⟩
  rintro hnil
  simp [hnil] at hsent

end QueueManager
end Goby
