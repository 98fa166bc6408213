import Goby.PackingRounds
import Goby.QueueManagerRuns
import Goby.QueueProperties

/-! A queue stores no message of size zero, and a message that is given keeps its size. So a frame
that holds as many bytes as the request allows is not given any more: none of the messages fits
into the zero bytes left. If the frame holds more than that, the subtraction wraps around, and
every message seems to fit. -/

namespace Goby

namespace Contents

variable {Msg : Type} {c c' : Contents Msg} {es : List (QueueEvent Msg)}

/-- Without a message stored or given, the ones that stay are as before. -/
theorem Moves.nodes_subset (h : Moves c es c') (hs : ∀ it msg, .stored it msg ∉ es)
    (hg : ∀ it frame msg, .gave it frame msg ∉ es) : c'.messages.nodes ⊆ c.messages.nodes := by
  induction h with
  | refl => exact List.Subset.refl _
  | step hmove _ ih =>
    refine List.Subset.trans (ih (fun it msg hm => hs it msg (List.mem_cons_of_mem _ hm))
      fun it frame msg hm => hg it frame msg (List.mem_cons_of_mem _ hm)) ?_
    cases hmove with
    | stored m => exact absurd List.mem_cons_self (hs _ _)
    | gave => exact absurd List.mem_cons_self (hg _ _ _)
    | ackCleared he hm hw =>
      rw [hm]
      exact List.Subset.refl _
    | removed he hmem hmsg hack hm hw =>
      rw [hm]
      exact List.filter_subset_self _

end Contents

namespace Queue

variable {Desc Msg : Type} {q : Queue Desc Msg}

abbrev Sized (q : Queue Desc Msg) : Prop := q.All (·.sizeD ≠ 0)

theorem pushMessage_sized (parent : Parent Msg) (clock : ℕ → ℕ) (n : ℕ) (msg : Msg)
    (given : QueuedMessageMeta) (h : q.Sized) : (q.pushMessage parent clock n msg given).queue.Sized := by
  have hstore : ∀ m : QueuedMessage Msg, m.msgMeta.sizeD ≠ 0 → (q.store m).1.Sized := by
    intro m hm node hnode
    rcases store_nodes q m node hnode with hnode | rfl
    · exact h node hnode
    · exact hm
  unfold pushMessage
  dsimp only
  split_ifs
  all_goals first
    | exact h
    | exact hstore _ (by assumption)

/-- Neither the destination nor the wish for an acknowledgment contradicts the request. -/
def Suits (request : ModemTransmission) (next : QueuedMessageMeta) : Prop :=
  (request.destD = queryDestinationId ∨ next.destD = broadcastId ∨ request.destD = next.destD) ∧
    (request.ackRequested = some false → next.ackRequestedD = true → request.destD = broadcastId)

theorem Eligible.suits {request : ModemTransmission} {data : Bytes} {next : QueuedMessageMeta}
    (h : Eligible request data next) : Suits request next := by
  refine ⟨?_, h.ack⟩
  by_cases hquery : request.destD = queryDestinationId
  · exact .inl hquery
  · exact h.dest (by simp [request.dest_eq_some hquery])

end Queue

namespace QueueManager

variable {Desc Msg : Type} {env : Environment Desc Msg} {s s' : QueueManager Desc Msg}
  {m : QueuedMessage Msg} {q : Queue Desc Msg}

theorem Steps.nodes_subset {es : List (Event Msg)} (h : Steps env s es s')
    (hs : ∀ k it msg, .queue k (.stored it msg) ∉ es)
    (hg : ∀ k it frame msg, .queue k (.gave it frame msg) ∉ es) (k : ℕ) :
    (s'.contents k).messages.nodes ⊆ (s.contents k).messages.nodes :=
  (h.project k).nodes_subset (fun it msg hm => hs k it msg (Event.mem_queueEvents.mp hm))
    fun it frame msg hm => hg k it frame msg (Event.mem_queueEvents.mp hm)

theorem Each.of_nodes {P : QueuedMessageMeta → Prop} (h : s.Each (·.All P))
    (hnodes : ∀ k, (s'.contents k).messages.nodes ⊆ (s.contents k).messages.nodes) :
    s'.Each (·.All P) := by
  intro k q hq n hn
  have hn' : n ∈ (s.contents k).messages.nodes := hnodes k (by rwa [contents_eq hq])
  cases hq' : s.queues[k]? with
  | none =>
    rw [contents_of_none hq'] at hn'
    cases hn'
  | some q' =>
    rw [contents_eq hq'] at hn'
    exact h k q' hq' n hn'

abbrev Sized (s : QueueManager Desc Msg) : Prop := s.Each Queue.Sized

theorem sized_push : KeptByPush env (@Queue.Sized Desc Msg) :=
  fun parent n msg given => Queue.pushMessage_sized parent env.clock n msg given

theorem sized_takeUserFrame (k frame : ℕ) : Guarantees (Preserves Sized) (takeUserFrame env k frame) :=
  each_takeUserFrame (fun h hg => h.giveData (fun _ _ h => h) hg) (fun h hp => h.popMessage hp) k frame

section Runs

variable [DecidableEq Desc]

theorem sized_handleModemDataRequest (fuel : ℕ) (msg : ModemTransmission) :
    Guarantees (Preserves Sized) (handleModemDataRequest env fuel msg) := by
  have hframes : ∀ count i msg, Guarantees (Preserves Sized) (packFrames env fuel count i msg) :=
    guarantees_packFrames sized_takeUserFrame each_address (each_findNextSender sized_push) each_applyRule fuel
  have hclear : Guarantees (Preserves Sized) (clearPacket env msg) := each_clearPacket (fun h => h) msg
  exact .bind hclear fun _ => .bind (hframes _ _ _) fun _ => .bind .get fun _ => .pure _

theorem sized_record (hs : Inv env s) (hsized : s.Sized) (c : Call Msg) :
    (record env s c).after.Sized := by
  have hbegin : s.begin.Sized := hsized.of_queues rfl
  obtain ⟨hsteps, hallows⟩ := record_steps hs c
  -- a call that neither stores nor gives a message
  have hkept (hstored : ∀ k it msg, ¬ Allows c (.queue k (.stored it msg)))
      (hgave : ∀ k it frame msg, ¬ Allows c (.queue k (.gave it frame msg))) :
      (record env s c).after.Sized :=
    hbegin.of_nodes (hsteps.nodes_subset (fun k it msg hm => hstored k it msg (hallows _ hm))
      fun k it frame msg hm => hgave k it frame msg (hallows _ hm))
  cases c with
  | pushMessage msg given =>
    rw [record_after]
    have hpush : Guarantees (Preserves Sized) (code env (.pushMessage msg given)) :=
      .bind (each_pushMessage sized_push msg given) fun _ => .pure _
    exact hpush _ hbegin
  | handleModemDataRequest fuel msg =>
    rw [record_after]
    have hrequest : Guarantees (Preserves Sized) (code env (.handleModemDataRequest fuel msg)) :=
      .bind (sized_handleModemDataRequest fuel msg) fun _ => .pure _
    exact hrequest _ hbegin
  | flushQueue | doWork | handleModemReceive | setCfg | mergeCfg =>
    exact hkept (fun _ _ _ h => h) fun _ _ _ _ h => h

theorem sized_stateAfter (modemId : ℤ) (codec : DcclCodec Desc) (calls : List (Call Msg)) :
    (stateAfter env modemId codec calls).Sized := by
  have hinitial : (initial modemId codec : QueueManager Desc Msg).Sized := by
    intro k q hq
    simp [initial] at hq
  exact (run_induction (P := fun t => t.state.Sized) hinitial (inv_initial modemId codec)
    (fun t c hs h => sized_record hs h c) calls).2

end Runs

/-- Frames that nothing is packed into are as in the request, and nothing is packed into those that
have the property `F` there. -/
structure Spared (request : ModemTransmission) (F : Bytes → Prop) (packs : List (List (Packed Msg)))
    (msg : ModemTransmission) : Prop where
  frame : ∀ j, packs.getD j [] = [] → msg.frame.getD j [] = request.frame.getD j []
  packs : ∀ j, F (request.frame.getD j []) → packs.getD j [] = []

section Spared

variable {J : ModemTransmission → QueueManager Desc Msg → Prop} {F : Bytes → Prop}
  (hJ : PacketInvariant env 0 (fun _ => J))
  (hF : ∀ {msg s data} {k it : ℕ} {q : Queue Desc Msg} {m}, J msg s → s.queues[k]? = some q →
    q.nextMessageIt = some (it, m) → F data → ¬ Queue.Eligible msg data m.msgMeta)
include hJ hF

theorem spared_packet (request : ModemTransmission) :
    PacketInvariant env 0 (fun packs msg s => J msg s ∧ Spared request F packs msg) := by
  refine ⟨fun h => ⟨h.1, by simpa only [getD_opened] using h.2.frame,
      by simpa only [getD_opened] using h.2.packs⟩,
    fun packs hfirst => ?_, fun {packs _ _} h => ⟨@hJ.unsent packs _ _ h.1, h.2.frame, h.2.packs⟩⟩
  have hrounds := hJ.rounds packs hfirst
  refine ⟨?_, fun hframe h => ⟨hrounds.frame hframe h.1, fun j hj => (hframe j ?_).trans (h.2.frame j hj),
    h.2.packs⟩, fun hs h => ⟨hrounds.sought hs h.1, h.2⟩⟩
  swap
  · rintro rfl
    simpa [List.getD] using hj
  intro m taken p p' s s' data hround hdata heligible h
  obtain ⟨q, hq, hm⟩ := hround.offered
  obtain ⟨s₁, haddressed, -, -⟩ := hround.addressed
  refine ⟨hrounds.round data hround hdata heligible h.1, fun j hj => ?_, fun j hj => ?_⟩
  · rw [haddressed.frame]
    refine h.2.frame j (List.eq_nil_iff_forall_not_mem.mpr fun m' hm' => ?_)
    rw [hround.packed] at hj
    exact List.eq_nil_iff_forall_not_mem.mp hj m' (mem_taken.mpr (.inl hm'))
  · have hnone := h.2.packs j hj
    rw [hround.packed]
    refine List.eq_nil_iff_forall_not_mem.mpr fun m' hm' => ?_
    rcases mem_taken.mp hm' with hm' | ⟨rfl, -⟩
    · rw [hnone] at hm'
      cases hm'
    · -- the first message for a frame that is as in the request
      have hempty : p.packed = [] := by simpa [List.getD] using hnone
      rw [← h.2.frame _ hnone, ← hdata hempty] at hj
      exact hF h.1 hq hm hj heligible

theorem handleModemDataRequest_spared [DecidableEq Desc] (hd : DemandsInPlace env) (fuel : ℕ) {msg : ModemTransmission}
    (hs : Inv env s) (hbegun : ∀ s₁, Begun env s msg s₁ → J msg s₁)
    {r : ModemTransmission × List (List (Packed Msg))} (hr : handleModemDataRequest env fuel msg s = .ok r s')
    {j : ℕ} {frame : Bytes} (hj : msg.frame[j]? = some frame) (hframe : F frame) :
    r.1.frame[j]? = some frame ∧ ∀ packed, r.2[j]? = some packed → packed = [] := by
  have hspared := handleModemDataRequest_packet hd (spared_packet hJ hF msg) fuel hs
    fun s₁ h => ⟨hbegun s₁ h, fun _ _ => rfl, fun _ _ => rfl⟩
  have hlen := handleModemDataRequest_ensures fuel msg hs
  simp only [Ensures, hr] at hspared hlen
  obtain ⟨-, hlen, -⟩ := hlen
  obtain ⟨filled, hfilled, -, hspared⟩ := hspared
  have hget : msg.frame.getD j [] = frame := by simp [List.getD, hj]
  have hnone : r.2.getD j [] = [] := hspared.packs j (by rwa [hget])
  have hlt : j < msg.frame.length := (List.getElem?_eq_some_iff.mp hj).1
  have hlt' : j < r.1.frame.length := by omega
  refine ⟨?_, fun packed hp => by simpa [List.getD, hp] using hnone⟩
  have hsame : r.1.frame.getD j [] = frame := by rw [hfilled, ← hget, ← hspared.frame j hnone]
  rw [List.getD, List.getElem?_eq_getElem hlt', Option.getD_some] at hsame
  rw [List.getElem?_eq_getElem hlt', hsame]

end Spared

theorem Each.not_eligible (hs : s.Sized) {k it : ℕ}
    (hq : s.queues[k]? = some q) (hm : q.nextMessageIt = some (it, m))
    {request : ModemTransmission} {data : Bytes} (hmax : request.maxFrameBytes = some data.length) :
    ¬ Queue.Eligible request data m.msgMeta := by
  intro h
  have hstored : m.msgMeta.sizeD ≠ 0 := (hs k q hq).next hm
  have hroom : m.msgMeta.sizeD ≤ sizeSub data.length data.length := by
    simpa [ModemTransmission.maxFrameBytesD, hmax] using h.room (by simp [hmax])
  have hzero : sizeSub data.length data.length = 0 := by
    unfold sizeSub
    omega
  omega

theorem sized_packet (max : ℕ) : PacketInvariant env 0 (fun _ msg (s : QueueManager Desc Msg) =>
    s.Sized ∧ msg.maxFrameBytes = some max) := by
  refine ⟨id, fun packs _ => ⟨?_, fun _ h => h, fun hs h => ⟨hs.each sized_push h.1, h.2⟩⟩, id⟩
  intro m taken p p' s s' data hround _ _ h
  obtain ⟨s₁, haddressed, -, -⟩ := hround.addressed
  exact ⟨hround.all (fun _ _ h => h) h.1, haddressed.maxFrameBytes.trans h.2⟩

/-- There is nothing that a queue could send under the request, and no data are asked for. -/
structure Idle (request : ModemTransmission) (s : QueueManager Desc Msg) : Prop where
  noDemand : s.NoDemand
  unsuited : s.Each (·.All (¬ Queue.Suits request ·))

/-- The request may have got a destination since it was made, but the one that it had. -/
structure Unchanged (request msg : ModemTransmission) (s : QueueManager Desc Msg) : Prop where
  idle : s.Idle request
  dest : msg.destD = request.destD
  ackRequested : msg.ackRequested = request.ackRequested
  packetDest : s.packetDest = request.destD

theorem Unchanged.not_eligible {request msg : ModemTransmission} (h : Unchanged request msg s) {k it : ℕ}
    (hq : s.queues[k]? = some q)
    (hm : q.nextMessageIt = some (it, m)) {data : Bytes} : ¬ Queue.Eligible msg data m.msgMeta := by
  intro heligible
  refine (h.idle.unsuited k q hq).next hm ?_
  rw [Queue.Suits, ← h.dest, ← h.ackRequested]
  exact heligible.suits

theorem unchanged_packet (request : ModemTransmission) :
    PacketInvariant env 0 (fun _ => @Unchanged Desc Msg request) := by
  refine ⟨id, fun packs _ => ⟨?_, fun _ h => ⟨h.idle, h.dest, h.ackRequested, h.packetDest⟩, fun hs h => ?_⟩,
    fun h => ⟨h.idle, h.packetDest, h.ackRequested, h.packetDest⟩⟩
  · intro m taken p p' s s' data hround _ heligible h
    obtain ⟨q, hq, hm⟩ := hround.offered
    exact absurd heligible (h.not_eligible hq hm)
  · exact ⟨⟨h.idle.noDemand.of_manips hs.manips, h.idle.unsuited.of_queues (hs.noDemand h.idle.noDemand)⟩,
      h.dest, h.ackRequested, hs.packetDest.trans h.packetDest⟩

/-- A request whose frame holds a placeholder of two bytes, with this limit. -/
def placeholderRequest (max : ℕ) : ModemTransmission :=
  { dest := some queryDestinationId, maxFrameBytes := some max, frame := [[0, 0]] }

/-- The sample manager before anything is pushed. -/
def emptyState : QueueManager SampleDesc SampleMsg :=
  stateAfter sampleEnvironment 0 sampleCodec (sampleCalls.take 1)

theorem emptyState_idle (request : ModemTransmission) : emptyState.Idle request := by
  have hnodes : ∀ e ∈ emptyState.queues.toList, e.2.messages.nodes = [] := by decide +kernel
  refine ⟨noDemand_of_nil (by decide +kernel), each_of_toList fun e he n hn => ?_⟩
  rw [hnodes e he] at hn
  cases hn

end QueueManager
end Goby
