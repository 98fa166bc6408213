import Goby.PacketCoherence

/-! When a frame fails to encode, the bytes it had are lost with it, and the messages that were taken
for it stay entered as waiting. An acknowledgment of the frame then reports them as delivered. -/

namespace Goby.QueueManager

variable {Desc Msg : Type} {env : Environment Desc Msg} [DecidableEq Desc]

/-- The message is never given with an acknowledgment requested: it asks for none, or is for
everyone. -/
def Unacked (msgMeta : QueuedMessageMeta) : Prop :=
  msgMeta.ackRequestedD = false ∨ msgMeta.destD = broadcastId

instance (msgMeta : QueuedMessageMeta) : Decidable (Unacked msgMeta) :=
  inferInstanceAs (Decidable (_ ∨ _))

omit [DecidableEq Desc] in
theorem Unacked.given {m : QueuedMessage Msg} (h : Unacked m.msgMeta) (now : ℕ) :
    (Queue.givenMessage m now).msgMeta.ackRequestedD = false := by
  rw [Queue.givenMessage_ackRequestedD]
  rcases h with h | h <;> simp [h]

/-- Neither a message of a queue nor one of the packet asks for an acknowledgment, and no data are
asked for. -/
structure Unawaited (packs : List (List (Packed Msg))) (s : QueueManager Desc Msg) : Prop where
  noDemand : s.NoDemand
  queued : s.Each (·.All Unacked)
  sent : ∀ m ∈ packs.flatten, m.sentMeta.ackRequestedD = false

omit [DecidableEq Desc] in
theorem unawaited_packet :
    PacketInvariant env 0 (fun packs _ (s : QueueManager Desc Msg) => Unawaited packs s) := by
  refine ⟨fun h => ⟨h.noDemand, h.queued, by simpa using h.sent⟩, fun packs _ => ⟨?_, fun _ h => h, fun hs h => ?_⟩,
    fun h => h⟩
  · intro m taken p p' s s' data hround _ _ h
    obtain ⟨q, hq, hm⟩ := hround.offered
    obtain ⟨now, hmeta⟩ := hround.sentMeta
    refine ⟨h.noDemand.of_manips hround.manips, hround.all (fun m now hm => .inl (hm.given now)) h.queued, ?_⟩
    have hsent : (packs ++ [p'.packed]).flatten = (packs ++ [p.packed]).flatten ++ [taken] := by
      simp [hround.packed]
    rw [hsent, List.forall_mem_append, List.forall_mem_singleton, hmeta]
    exact ⟨h.sent, ((h.queued _ q hq).next hm).given now⟩
  · exact ⟨h.noDemand.of_manips hs.manips, h.queued.of_queues (hs.noDemand h.noDemand), h.sent⟩

/-- Of a frame that does not carry what was packed into it, encoding has failed. Such a frame is
returned empty, so it has kept its bytes if and only if it had none. If the request refuses
acknowledgments, or no message of a queue asks for one, none is awaited under its number. -/
theorem failed_frame_consistent (hd : DemandsInPlace env) (modemId : ℤ) (codec : DcclCodec Desc)
    (calls : List (Call Msg)) (fuel : ℕ) (msg : ModemTransmission)
    {r : ModemTransmission × List (List (Packed Msg))} {s' : QueueManager Desc Msg}
    (hr : handleModemDataRequest env fuel msg (stateAfter env modemId codec calls) = .ok r s')
    {j : ℕ} {packed : List (Packed Msg)} (hj : r.2[j]? = some packed)
    (hfailed : ¬ Carries env (InForce (stateAfter env modemId codec calls)) (msg.frame.getD j []) packed
      (r.1.frame.getD j [])) :
    (msg.frame.getD j [] <+: r.1.frame.getD j [] ↔ msg.frame.getD j [] = []) ∧
    (msg.ackRequested = some false ∨ (stateAfter env modemId codec calls).NoDemand ∧
        (stateAfter env modemId codec calls).Each (·.All Unacked) →
      ∀ k it, (msg.frameStart + j, it) ∉ (s'.contents k).waitingForAck) := by
  have hs : Inv env (stateAfter env modemId codec calls) := inv_stateAfter modemId codec calls
  have hframes := handleModemDataRequest_ensures fuel msg hs
  simp only [Ensures, hr] at hframes
  obtain ⟨-, -, hcarries, -⟩ := hframes
  obtain ⟨hempty, -⟩ := (hcarries j packed hj).resolve_left hfailed
  refine ⟨by rw [hempty, List.prefix_nil], ?_⟩
  intro hnone k it he
  have htracked := handleModemDataRequest_tracked hd fuel msg hs
  simp only [Ensures, hr] at htracked
  obtain ⟨_, -, htracked⟩ := htracked
  have hsent : ∀ m ∈ r.2.flatten, m.sentMeta.ackRequestedD = false := by
    rcases hnone with hrefused | ⟨hdemand, hall⟩
    · exact htracked.refused hrefused
    · have hunawaited := handleModemDataRequest_packet hd unawaited_packet fuel hs
        fun s₁ (hbegun : Begun env _ msg s₁) => ⟨hdemand.of_manips hbegun.manips, hbegun.all hall, by simp⟩
      simp only [Ensures, hr] at hunawaited
      obtain ⟨_, -, hunawaited⟩ := hunawaited
      exact hunawaited.sent
  obtain ⟨j', m, hm, -, -, hack⟩ :=
    (htracked.entry k _ he).resolve_left (Nat.not_lt.mpr (Nat.le_add_right _ _))
  rw [hsent m (mem_flatten_of_getD hm)] at hack
  cases hack

/-! The sample application with a codec that can tell the sizes of messages but fails to encode
them. -/

def muteEnvironment : Environment SampleDesc SampleMsg :=
  { sampleEnvironment with encode := fun _ _ _ => .error "required field is not set" }

theorem not_carries_mute {S : CodecSettings → Prop} {original data : Bytes}
    {packed : List (Packed SampleMsg)}
    (hne : packed ≠ []) : ¬ Carries muteEnvironment S original packed data := by
  rintro ⟨pieces, -, hpieces⟩
  cases hpieces with
  | nil => exact hne rfl
  | cons hfirst _ =>
    obtain ⟨settings, -, hencoded⟩ := hfirst
    split at hencoded
    · cases hencoded
    · obtain ⟨header, hheader, -⟩ := hencoded
      cases hheader

def muteState (ack : Bool) : QueueManager SampleDesc SampleMsg :=
  stateAfter muteEnvironment 0 sampleCodec
    [.setCfg { modemId := some 1, messageEntry := [{ sampleEntry with ack := ack }] },
      .pushMessage { src := 1, dest := 3, body := 7 } none]

/-- The message asks for no acknowledgment. -/
theorem failed_frame_consistent_mute :
    ∃ r s' packed, handleModemDataRequest muteEnvironment 9 sampleRequest (muteState false) = .ok r s' ∧
      r.2[0]? = some packed ∧ packed ≠ [] ∧ ∀ k it, (5, it) ∉ (s'.contents k).waitingForAck := by
  have hresult : resultOf (handleModemDataRequest muteEnvironment 9 sampleRequest) (muteState false)
      (fun r _ => r.2[0]?.map List.length) = some (some 1) := by
    decide +kernel
  obtain ⟨r, s', hrun, hlength⟩ := resultOf_eq_some.mp hresult
  obtain ⟨packed, hpacked, hone⟩ := Option.map_eq_some_iff.mp hlength
  have hne : packed ≠ [] := List.ne_nil_of_length_pos (by omega)
  have hall : (muteState false).Each (·.All Unacked) :=
    each_of_toList (by unfold Queue.All; decide +kernel)
  exact ⟨r, s', packed, hrun, hpacked, hne, (failed_frame_consistent (fun _ _ _ => rfl) 0 sampleCodec _ 9
    sampleRequest hrun hpacked (not_carries_mute hne)).2 (.inr ⟨noDemand_of_nil (by decide +kernel), hall⟩)⟩

def byteRequest : ModemTransmission := { sampleRequest with maxNumFrames := 1, frame := [[170]] }

/-- The byte is lost and nothing is sent, but the acknowledgment of frame 5 reports the message as
delivered. -/
theorem byteRequest_inconsistent :
    ∃ r s' s'', handleModemDataRequest muteEnvironment 9 byteRequest (muteState true) = .ok r s' ∧
      byteRequest.frame = [[170]] ∧ r.1.frame = [[]] ∧ (s'.contents 1).waitingForAck = [(5, 0)] ∧
      handleModemReceive muteEnvironment sampleAck s' = .ok () s'' ∧
      .signalAck sampleAck (some (1, 0)) { src := 1, dest := 3, body := 7 } ∈ s''.log := by
  have hresult : resultOf (handleModemDataRequest muteEnvironment 9 byteRequest) (muteState true)
      (fun r s' => (r.1.frame, (s'.contents 1).waitingForAck,
        resultOf (handleModemReceive muteEnvironment sampleAck) s' fun _ s'' =>
          decide (.signalAck sampleAck (some (1, 0)) { src := 1, dest := 3, body := 7 } ∈ s''.log))) =
      some ([[]], [(5, 0)], some true) := by
    decide +kernel
  obtain ⟨r, s', hrun, hresult⟩ := resultOf_eq_some.mp hresult
  simp only [Prod.mk.injEq] at hresult
  obtain ⟨hframe, hwaiting, hacked⟩ := hresult
  obtain ⟨⟨⟩, s'', hreceive, hreported⟩ := resultOf_eq_some.mp hacked
  exact ⟨r, s', s'', hrun, rfl, hframe, hwaiting, hreceive, of_decide_eq_true hreported⟩

end Goby.QueueManager
