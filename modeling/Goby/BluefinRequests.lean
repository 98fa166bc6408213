import Goby.BluefinCommands

/-! What a call does to the two deques and to the outstanding requests. A command queues at most one
sentence and files its request after that; the final ack of a front answers the request of the
type its id stands for; nothing else touches the requests. -/

namespace Goby.Bluefin

def ackStatus (nmea : NmeaSentence) : Option ℤ := (nmea.at? ackStatusField).map asInt

def ackedSentence (nmea : NmeaSentence) : Option Bytes :=
  (nmea.at? commandNameField).map (List.map toUpper)

structure FinalAck (nmea : NmeaSentence) (status : ℤ) (acked : Bytes) (s : Bluefin) : Prop where
  isAck : nmea.sentenceId = ascii "ACK"
  status_eq : ackStatus nmea = some status
  named : ackedSentence nmea = some acked
  final : status ≠ requestPending
  front : frontIs s.out acked = true ∨ frontIs s.pending acked = true

variable {cfg : BluefinConfig} {clock : ℕ → ℚ} {formats : Formats} {s s' : Bluefin}
  {nmea : NmeaSentence} {status requestId : ℤ} {acked : Bytes} {R : Bluefin → Bluefin → Prop}

/-- Sentences only leave `out_`, and enter `pending_` from there. -/
structure QueuesFrom (s s' : Bluefin) : Prop where
  out : ∀ nmea ∈ s'.out, nmea ∈ s.out
  pending : ∀ nmea ∈ s'.pending, nmea ∈ s.pending ∨ ∃ front ∈ s.out, nmea = front.reparsed

instance : IsPreorder Bluefin QueuesFrom where
  refl _ := ⟨fun _ h => h, fun _ h => .inl h⟩
  trans s s' s'' h h' := by
    refine ⟨fun nmea hmem => h.out nmea (h'.out nmea hmem), fun nmea hmem => ?_⟩
    rcases h'.pending nmea hmem with hold | ⟨front, hfront, rfl⟩
    · exact h.pending nmea hold
    · exact .inr ⟨front, h.out front hfront, rfl⟩

structure SameRequests (s s' : Bluefin) : Prop where
  outstanding : s'.outstandingRequests = s.outstandingRequests
  responses : s'.responses = s.responses

instance : IsPreorder Bluefin SameRequests where
  refl _ := ⟨rfl, rfl⟩
  trans _ _ _ h h' := ⟨h'.outstanding.trans h.outstanding, h'.responses.trans h.responses⟩

structure Moves (s s' : Bluefin) : Prop where
  queues : QueuesFrom s s'
  requests : SameRequests s s'

instance : IsPreorder Bluefin Moves where
  refl s := ⟨refl_of QueuesFrom s, refl_of SameRequests s⟩
  trans _ _ _ h h' :=
    ⟨trans_of QueuesFrom h.queues h'.queues, trans_of SameRequests h.requests h'.requests⟩

theorem Moves.of_eq (hout : s'.out = s.out) (hpending : s'.pending = s.pending)
    (houtstanding : s'.outstandingRequests = s.outstandingRequests)
    (hresponses : s'.responses = s.responses) : Moves s s' :=
  ⟨⟨fun _ h => hout ▸ h, fun _ h => .inl (hpending ▸ h)⟩, houtstanding, hresponses⟩

theorem popOut_moves (reason : BluefinRemoval) (s : Bluefin) : Moves s (popOut reason s) := by
  unfold popOut
  cases hout : s.out with
  | nil => exact refl_of Moves s
  | cons nmea out =>
    refine ⟨⟨fun x hx => ?_, fun _ h => .inl h⟩, rfl, rfl⟩
    rw [hout]
    exact List.mem_cons_of_mem nmea hx

theorem removeFromWriteQueue_moves (reason : BluefinRemoval) (s : Bluefin) :
    Moves s (removeFromWriteQueue reason s) := by
  have hrest : Moves (popOut reason s) (removeFromWriteQueue reason s) := .of_eq rfl rfl rfl rfl
  exact trans_of Moves (popOut_moves reason s) hrest

theorem readClock_moves : Guarantees Moves (readClock clock) := fun _ => .of_eq rfl rfl rfl rfl

theorem write_moves (nmea : NmeaSentence) : Guarantees Moves (write cfg clock nmea) := by
  unfold write
  refine .bind (.modify fun s => .of_eq rfl rfl rfl rfl) fun _ => ?_
  split_ifs
  · exact .modify (removeFromWriteQueue_moves _)
  · refine .bind (.modify fun s => .of_eq rfl rfl rfl rfl) fun _ => ?_
    exact .bind readClock_moves fun _ => .modify fun s => .of_eq rfl rfl rfl rfl

theorem giveUp_moves : Guarantees Moves (giveUp cfg) := by
  unfold giveUp
  refine .bind (.modify (removeFromWriteQueue_moves _)) fun _ => ?_
  refine .bind (.modify fun s => .of_eq rfl rfl rfl rfl) fun _ => .bind .get fun s => ?_
  split_ifs
  · exact .bind (.modify fun s => .of_eq rfl rfl rfl rfl) fun _ => .throw _
  · exact .pure _

theorem resend_moves (nmea : NmeaSentence) : Guarantees Moves (resend cfg clock nmea) := by
  unfold resend
  refine .bind (.modify fun s => .of_eq rfl rfl rfl rfl) fun _ => .bind .get fun s => ?_
  split_ifs
  · exact giveUp_moves
  · exact write_moves nmea

theorem trySend_moves : Guarantees Moves (Bluefin.trySend cfg clock) := by
  unfold Bluefin.trySend
  refine .bind .get fun s => ?_
  cases s.out with
  | nil => exact .pure _
  | cons nmea _ =>
    dsimp only
    split_ifs
    · refine .bind readClock_moves fun now => ?_
      split_ifs
      · exact resend_moves nmea
      · exact .pure _
    · exact write_moves nmea

def withSentence (nmea : Option NmeaSentence) (s : Bluefin) : Bluefin :=
  { s with out := s.out ++ nmea.toList }

theorem appendToWriteQueue_moves (nmea : NmeaSentence) (s : Bluefin) :
    Moves (withSentence (some nmea) s) (finalState (appendToWriteQueue cfg clock nmea) s) := by
  have hlog : Moves (withSentence (some nmea) s)
      { s with out := s.out ++ [nmea], log := s.log ++ [.queued nmea] } := .of_eq rfl rfl rfl rfl
  exact trans_of Moves hlog (trySend_moves _)

/-- Only a sentence that is given up with all demerits used breaks the connection. -/
theorem trySend_returns (hdemerits : s.nmeaDemerits < cfg.allowedNmeaDemerits) :
    Ensures (Bluefin.trySend cfg clock) s (fun _ _ => True) (fun _ _ => False) := by
  have hwrite : ∀ nmea s, Ensures (write cfg clock nmea) s (fun _ _ => True) (fun _ _ => False) := by
    intro nmea s
    unfold Ensures write
    cases cfg.disableAck <;> simp [readClock]
  apply Ensures.get_bind
  cases hout : s.out with
  | nil => exact Ensures.pure trivial
  | cons nmea rest =>
    dsimp only
    split_ifs
    · apply Ensures.bind
      refine Ensures.of_run rfl ?_
      split_ifs
      · apply Ensures.modify_bind
        apply Ensures.get_bind
        split_ifs
        · unfold Ensures giveUp
          simp [removeFromWriteQueue, popOut, hout, Nat.not_lt.mpr hdemerits]
        · exact hwrite nmea _
      · exact Ensures.pure trivial
    · exact hwrite nmea s

def queued (clock : ℕ → ℚ) (formats : Formats) (c : CommandRequest) (s : Bluefin) : Option NmeaSentence :=
  (content formats c).map fun (kind, fields) => commandSentence formats kind (clock s.readings) fields

theorem queueSentence_moves (c : CommandRequest) (s : Bluefin) :
    Moves (withSentence (queued clock formats c s) s)
      (finalState (queueSentence cfg clock formats (content formats c)) s) := by
  unfold queued
  cases content formats c with
  | none => exact .of_eq (List.append_nil _).symm rfl rfl rfl
  | some kf =>
    have hread : Moves (withSentence (some (commandSentence formats kf.1 (clock s.readings) kf.2)) s)
        (withSentence (some (commandSentence formats kf.1 (clock s.readings) kf.2))
          { s with readings := s.readings + 1 }) := .of_eq rfl rfl rfl rfl
    exact trans_of Moves hread (appendToWriteQueue_moves _ _)

theorem queueSentence_returns (c : CommandRequest)
    (hdemerits : s.nmeaDemerits < cfg.allowedNmeaDemerits) :
    Ensures (queueSentence cfg clock formats (content formats c)) s (fun _ _ => True)
      (fun _ _ => False) := by
  cases content formats c with
  | none => exact Ensures.pure trivial
  | some kf =>
    refine Ensures.bind (Ensures.of_run rfl (Ensures.bind (Ensures.modify ?_)))
    exact trySend_returns hdemerits

structure Sent (clock : ℕ → ℚ) (formats : Formats) (c : CommandRequest) (s s' : Bluefin) : Prop where
  queues : QueuesFrom (withSentence (queued clock formats c s) s) s'
  outstanding : s'.outstandingRequests =
    if c.responseRequested then
      Function.update s.outstandingRequests (commandType c) (some c.requestId)
    else s.outstandingRequests
  responses : s'.responses = s.responses

theorem sendCommandToFrontseat_sent (hack : cfg.disableAck = false) {c : CommandRequest}
    (hcancel : c.cancelRequestId = none)
    (hdemerits : c.responseRequested = true → s.nmeaDemerits < cfg.allowedNmeaDemerits) :
    Sent clock formats c s (finalState (sendCommandToFrontseat cfg clock formats c) s) := by
  have hmoves : Ensures (queueSentence cfg clock formats (content formats c)) s
      (fun _ => Moves (withSentence (queued clock formats c s) s))
      (fun _ => Moves (withSentence (queued clock formats c s) s)) :=
    .of_finalState (queueSentence_moves c s)
  rw [sendCommandToFrontseat_eq _ _ _ hcancel]
  apply Ensures.finalState
  apply Ensures.bind
  cases hasked : c.responseRequested with
  | false =>
    refine hmoves.mono (fun _ s' h => Ensures.modify ?_) (fun _ s' h => ?_)
    · simp only [fileRequest, hasked, Bool.false_eq_true, and_false, if_false]
      exact ⟨h.queues, by rw [hasked]; exact h.requests.outstanding, h.requests.responses⟩
    · exact ⟨h.queues, by rw [hasked]; exact h.requests.outstanding, h.requests.responses⟩
  | true =>
    refine (hmoves.and (queueSentence_returns c (hdemerits hasked))).mono (fun _ s' h => Ensures.modify ?_)
      (fun _ _ h => h.2.elim)
    simp only [fileRequest, hack, hasked, and_self, if_true]
    refine ⟨⟨h.1.queues.out, h.1.queues.pending⟩, ?_, h.1.requests.responses⟩
    rw [h.1.requests.outstanding, hasked]
    rfl

theorem fieldAt_guarantees [IsPreorder Bluefin R]
    (nmea : NmeaSentence) (i : ℕ) : Guarantees R (fieldAt nmea i) := by
  unfold fieldAt
  cases nmea.at? i with
  | none => exact .throw _
  | some field => exact .pure _

theorem debugAck_guarantees [IsPreorder Bluefin R]
    (nmea : NmeaSentence) (status : ℤ) : Guarantees R (debugAck cfg nmea status) := by
  unfold debugAck
  split_ifs
  · exact .bind (fieldAt_guarantees nmea _) fun _ => .pure _
  · exact .pure _

theorem notePending_queuesFrom (status : ℤ) (s : Bluefin) : QueuesFrom s (notePending status s) := by
  unfold notePending pushPending
  split_ifs
  · cases hout : s.out with
    | nil => exact refl_of QueuesFrom s
    | cons front rest =>
      refine ⟨fun _ h => hout ▸ h, fun nmea hmem => ?_⟩
      rcases List.mem_append.mp hmem with hold | hnew
      · exact .inl hold
      · exact .inr ⟨front, hout ▸ List.mem_cons_self, List.mem_singleton.mp hnew⟩
  · exact refl_of QueuesFrom s

theorem notePending_sameRequests (status : ℤ)
    (s : Bluefin) : SameRequests s (notePending status s) := by
  unfold notePending pushPending
  split_ifs
  · cases s.out <;> exact ⟨rfl, rfl⟩
  · exact ⟨rfl, rfl⟩

section

variable (nmea : NmeaSentence) (status : ℤ)

theorem respond_queuesFrom (type : BluefinCommand) :
    Guarantees QueuesFrom (respond nmea status type) := by
  unfold respond
  refine .bind .get fun s => ?_
  cases s.outstandingRequests type with
  | none => exact .pure _
  | some requestId =>
    dsimp only
    split_ifs
    · exact .modify fun s => ⟨fun _ h => h, fun _ h => .inl h⟩
    · exact .bind (fieldAt_guarantees nmea _) fun _ => .modify fun s => ⟨fun _ h => h, fun _ h => .inl h⟩

theorem finishAck_queuesFrom (acked : Bytes) :
    Guarantees QueuesFrom (finishAck nmea status acked) := by
  unfold finishAck answerRequest
  refine .bind ?_ fun _ => .modify fun s => ⟨fun _ h => h, fun _ h => .inl h⟩
  split_ifs
  · exact .pure _
  · exact respond_queuesFrom nmea status _
  · exact .throw _

theorem matchAck_queuesFrom (acked : Bytes) :
    Guarantees QueuesFrom (matchAck nmea status acked) := by
  unfold matchAck
  refine .bind .get fun s => ?_
  split_ifs
  · refine .bind (.modify fun s => (popOut_moves _ s).queues) fun _ => ?_
    exact finishAck_queuesFrom nmea status acked
  · refine .bind (.modify fun s => ⟨fun _ h => h, fun _ h => .inl (List.mem_of_mem_tail h)⟩) fun _ => ?_
    exact finishAck_queuesFrom nmea status acked
  · exact .modify fun s => ⟨nofun, nofun⟩

end

theorem processReceive_queuesFrom (nmea : NmeaSentence) :
    Guarantees QueuesFrom (processReceive cfg nmea) := by
  unfold processReceive bfack
  refine .bind (.modify fun s => ⟨fun _ h => h, fun _ h => .inl h⟩) fun _ => ?_
  split_ifs
  · refine .bind (fieldAt_guarantees nmea _) fun status => .bind (fieldAt_guarantees nmea _) fun acked => ?_
    refine .bind (debugAck_guarantees nmea _) fun _ => .bind (.modify (notePending_queuesFrom _)) fun _ => ?_
    exact matchAck_queuesFrom nmea _ _
  · exact .pure _
  · exact .throw _

def responseTo (nmea : NmeaSentence) (status : ℤ) (requestId : ℤ) : BluefinResponse :=
  if status = requestSuccessfullyProcessed then { requestSuccessful := true, requestId := requestId }
  else
    { requestSuccessful := false
      requestId := requestId
      errorCode := some status
      errorString := nmea.at? descriptionField }

theorem responseTo_requestId (nmea : NmeaSentence) (status requestId : ℤ) :
    (responseTo nmea status requestId).requestId = requestId := by
  unfold responseTo
  split_ifs <;> rfl

theorem responseTo_requestSuccessful (nmea : NmeaSentence) (status requestId : ℤ) :
    (responseTo nmea status requestId).requestSuccessful = true ↔
      status = requestSuccessfullyProcessed := by
  unfold responseTo
  split_ifs with hstatus
  · simp [hstatus]
  · simp [hstatus]

/-- A final ack that is not successful has its description. -/
def described (nmea : NmeaSentence) : Bool :=
  (ackStatus nmea).all fun status =>
    status = requestPending ∨ status = requestSuccessfullyProcessed ∨ descriptionField < nmea.size

structure Answered (nmea : NmeaSentence) (status : ℤ) (type : BluefinCommand) (requestId : ℤ)
    (s s' : Bluefin) : Prop where
  outstanding : s'.outstandingRequests = Function.update s.outstandingRequests type none
  responses : s'.responses = s.responses ++ [responseTo nmea status requestId]

/-- A final ack answers the request of the type its id stands for; all others leave the requests
alone. -/
inductive Responded (nmea : NmeaSentence) (s s' : Bluefin) : Prop
  | same (h : SameRequests s s') (hnone : ∀ status acked, FinalAck nmea status acked s →
      acked ∈ sentenceIds → s.outstandingRequests (commandOf acked) = none)
  | answer {status requestId : ℤ} {acked : Bytes} (hack : FinalAck nmea status acked s)
      (hid : acked ∈ sentenceIds) (hrequest : s.outstandingRequests (commandOf acked) = some requestId)
      (h : Answered nmea status (commandOf acked) requestId s s')

theorem fieldAt_description (hlt : descriptionField < nmea.size) :
    ∃ description, nmea.at? descriptionField = some description ∧
      fieldAt nmea descriptionField = pure description := by
  have hfield : nmea.at? descriptionField = some _ := List.getElem?_eq_getElem hlt
  exact ⟨_, hfield, by rw [fieldAt, hfield]⟩

section

variable (hstatus : ackStatus nmea = some status) (hacked : ackedSentence nmea = some acked)
  (hdescribed : described nmea = true)
include hstatus hacked hdescribed

theorem finishAck_responded (hack : nmea.sentenceId = ascii "ACK")
    (hfront : frontIs s.out acked = true ∨ frontIs s.pending acked = true) {s₁ : Bluefin}
    (hsame : SameRequests s s₁) :
    Ensures (finishAck nmea status acked) s₁ (fun _ => Responded nmea s) (fun _ => Responded nmea s) := by
  -- the status and the id that a final ack would have are these
  have hnone : ∀ {t}, SameRequests s t → (status ≠ requestPending → acked ∈ sentenceIds →
      s.outstandingRequests (commandOf acked) = none) → Responded nmea s t := by
    intro t ht hnone
    refine .same ht fun status' acked' hfinal => ?_
    obtain rfl := Option.some.inj (hstatus.symm.trans hfinal.status_eq)
    obtain rfl := Option.some.inj (hacked.symm.trans hfinal.named)
    exact hnone hfinal.final
  apply Ensures.bind
  unfold answerRequest
  split_ifs with hpending hid
  · exact Ensures.pure (Ensures.modify (hnone ⟨hsame.outstanding, hsame.responses⟩ (absurd hpending ·)))
  · apply Ensures.get_bind
    rw [hsame.outstanding]
    cases hrequest : s.outstandingRequests (commandOf acked) with
    | none =>
      exact Ensures.pure (Ensures.modify (hnone ⟨hsame.outstanding, hsame.responses⟩ fun _ _ => hrequest))
    | some requestId =>
      have hanswer : ∀ {t}, Answered nmea status (commandOf acked) requestId s₁ t → Responded nmea s t :=
        fun h => .answer ⟨hack, hstatus, hacked, hpending, hfront⟩ hid hrequest
          ⟨hsame.outstanding ▸ h.outstanding, hsame.responses ▸ h.responses⟩
      dsimp only
      split_ifs with hsuccess
      · exact Ensures.modify (Ensures.modify (hanswer ⟨rfl, by rw [responseTo, if_pos hsuccess]⟩))
      · have hlt : descriptionField < nmea.size := by
          simpa [described, hstatus, hpending, hsuccess] using hdescribed
        obtain ⟨description, hfield, hrun⟩ := fieldAt_description hlt
        rw [hrun, pure_bind]
        exact Ensures.modify (Ensures.modify (hanswer ⟨rfl, by rw [responseTo, if_neg hsuccess, hfield]⟩))
  · exact Ensures.throw (hnone hsame fun _ h => absurd h hid)

theorem matchAck_responded (hack : nmea.sentenceId = ascii "ACK") :
    Responded nmea s (finalState (matchAck nmea status acked) s) := by
  apply Ensures.finalState
  apply Ensures.get_bind
  split_ifs with hout hpending
  · exact Ensures.modify_bind (finishAck_responded hstatus hacked hdescribed hack (.inl hout)
      (popOut_moves (.acked acked) s).requests)
  · exact Ensures.modify_bind
      (finishAck_responded hstatus hacked hdescribed hack (.inr hpending) ⟨rfl, rfl⟩)
  · refine Ensures.modify (.same ⟨rfl, rfl⟩ fun status' acked' hfinal => ?_)
    obtain rfl := Option.some.inj (hacked.symm.trans hfinal.named)
    exact absurd hfinal.front (by simp [hout, hpending])

omit hacked in
theorem debugAck_returns : debugAck cfg nmea status s = .ok () s := by
  unfold debugAck
  split_ifs with hcase
  · have hlt : descriptionField < nmea.size := by
      simpa [described, hstatus, hcase.1, requestUnsuccessfullyProcessed, requestPending,
        requestSuccessfullyProcessed] using hdescribed
    obtain ⟨description, -, hrun⟩ := fieldAt_description hlt
    rw [hrun]
    rfl
  · rfl

end

theorem bfack_responded (hack : nmea.sentenceId = ascii "ACK") (hdescribed : described nmea = true) :
    Responded nmea s (finalState (bfack cfg nmea) s) := by
  have hunreadable : ∀ {t}, t = s → (∀ status acked, ¬ FinalAck nmea status acked s) → Responded nmea s t := by
    rintro t rfl hnot
    exact .same (refl_of SameRequests t) fun status acked hfinal => absurd hfinal (hnot status acked)
  cases hstatus : ackStatus nmea with
  | none =>
    have hfield : nmea.at? ackStatusField = none := Option.map_eq_none_iff.mp hstatus
    refine hunreadable (by simp [finalState, bfack, fieldAt, hfield]) fun status acked hfinal => ?_
    cases hstatus.symm.trans hfinal.status_eq
  | some status =>
    obtain ⟨statusField, hstatusField, rfl⟩ := Option.map_eq_some_iff.mp hstatus
    cases hacked : ackedSentence nmea with
    | none =>
      have hname : nmea.at? commandNameField = none := Option.map_eq_none_iff.mp hacked
      refine hunreadable (by simp [finalState, bfack, fieldAt, hstatusField, hname]) fun _ acked hfinal => ?_
      cases hacked.symm.trans hfinal.named
    | some acked =>
      obtain ⟨name, hname, rfl⟩ := Option.map_eq_some_iff.mp hacked
      have hrun : finalState (bfack cfg nmea) s = finalState (matchAck nmea (asInt statusField)
          (name.map toUpper)) (notePending (asInt statusField) s) := by
        simp [finalState, bfack, fieldAt, hstatusField, hname, debugAck_returns hstatus hdescribed]
      rw [hrun]
      by_cases hpending : asInt statusField = requestPending
      · have hmatch := @matchAck_responded (notePending (asInt statusField) s) _ _ _ hstatus hacked hdescribed hack
        have hnot : ∀ {t status acked}, ¬ FinalAck nmea status acked t := fun hfinal =>
          hfinal.final ((Option.some.inj (hstatus.symm.trans hfinal.status_eq)).symm.trans hpending)
        cases hmatch with
        | same h _ =>
          exact .same (trans_of SameRequests (notePending_sameRequests _ s) h) fun _ _ h => absurd h hnot
        | answer h _ _ _ => exact absurd h hnot
      · rw [notePending, if_neg hpending]
        exact matchAck_responded hstatus hacked hdescribed hack

theorem processReceive_responded
    (hdescribed : nmea.sentenceId = ascii "ACK" → described nmea = true) (s : Bluefin) :
    Responded nmea s (finalState (processReceive cfg nmea) s) := by
  apply Ensures.finalState
  apply Ensures.modify_bind
  have hother : nmea.sentenceId ≠ ascii "ACK" → Responded nmea s { s with nmeaDemerits := 0 } :=
    fun hack => .same ⟨rfl, rfl⟩ fun _ _ hfinal => absurd hfinal.isAck hack
  split_ifs with hmap hack
  · apply Ensures.of_finalState
    cases @bfack_responded cfg { s with nmeaDemerits := 0 } nmea hack (hdescribed hack) with
    | same h hnone =>
      refine .same ⟨h.outstanding, h.responses⟩ fun status acked hfinal => hnone status acked ?_
      exact ⟨hfinal.isAck, hfinal.status_eq, hfinal.named, hfinal.final, hfinal.front⟩
    | answer hfinal hid hrequest h =>
      exact .answer ⟨hfinal.isAck, hfinal.status_eq, hfinal.named, hfinal.final, hfinal.front⟩ hid hrequest
        ⟨h.outstanding, h.responses⟩
  · exact Ensures.pure (hother hack)
  · refine Ensures.throw (hother fun hack => hmap ?_)
    rw [hack]
    decide

end Goby.Bluefin
