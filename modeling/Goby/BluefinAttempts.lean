import Goby.BluefinFrontSeat
import Goby.CallRuns

/-! Every sentence should be written until it is acked, `nmeaResendAttempts` times at most.
The driver's flag and counter are right about the front as long as an ack finds the
front written just once; where they are right, each sentence gets its attempts. -/

namespace Goby.Bluefin

open FrontEvent

/-- What may happen to the driver; `loop` is made of the last three, in any number. -/
inductive Call where
  | append (nmea : NmeaSentence)
  | trySend
  | receive (nmea : NmeaSentence)
  | initializeHuxley

def perform (cfg : BluefinConfig) (clock : ℕ → ℚ) : Call → BluefinM Unit
  | .append nmea => appendToWriteQueue cfg clock nmea
  | .trySend => Bluefin.trySend cfg clock
  | .receive nmea => processReceive cfg nmea
  | .initializeHuxley => Bluefin.initializeHuxley cfg clock

/-- A call that throws leaves the state it had got to. -/
def step (cfg : BluefinConfig) (clock : ℕ → ℚ) (c : Call) (s : Bluefin) : Bluefin :=
  finalState (perform cfg clock c) s

/-- A sentence may leave after `n` attempts: acked by its own id once it has been written,
or given up after all attempts. -/
def Justified (cfg : BluefinConfig) (nmea : NmeaSentence) (reason : BluefinRemoval) (n : ℕ) : Prop :=
  match reason with
  | .acked ackedSentence => iequals nmea.sentenceId ackedSentence = true ∧ 1 ≤ n
  | .givenUp => n = cfg.nmeaResendAttempts
  | .ackDisabled => cfg.disableAck = true

/-- The flag and the counter tell how often the front has been written. -/
structure Attempted (cfg : BluefinConfig) (s : Bluefin) : Prop where
  history : History s.log s.out
  removals : RemovalsMeet (Justified cfg) s.log
  waiting : s.waitingForHuxley = true →
    s.out ≠ [] ∧ attempts s.log = s.nmeaPresentFailCount + 1 ∧
      s.nmeaPresentFailCount < cfg.nmeaResendAttempts
  idle : s.waitingForHuxley = false → attempts s.log = 0 ∧ s.nmeaPresentFailCount = 0

variable {cfg : BluefinConfig} {clock : ℕ → ℚ} {s : Bluefin} {nmea : NmeaSentence}
  {rest : List NmeaSentence} {ackedSentence : Bytes} {status : ℤ}

abbrev KeepsAttempted (cfg : BluefinConfig) {α : Type} (m : BluefinM α) (s : Bluefin) : Prop :=
  Ensures m s (fun _ => Attempted cfg) (fun _ => Attempted cfg)

theorem attempted_new : Attempted cfg {} :=
  ⟨.nil, removalsMeet_nil _, nofun, fun _ => ⟨rfl, rfl⟩⟩

theorem write_attempted (hack : cfg.disableAck = false)
    (hout : s.out = nmea :: rest) (hhist : History s.log s.out)
    (hrem : RemovalsMeet (Justified cfg) s.log) (hattempts : attempts s.log = s.nmeaPresentFailCount)
    (hlt : s.nmeaPresentFailCount < cfg.nmeaResendAttempts) :
    KeepsAttempted cfg (write cfg clock nmea) s := by
  have hrun : write cfg clock nmea s = .ok () { s with
      log := s.log ++ [.wrote nmea]
      waitingForHuxley := true
      readings := s.readings + 1
      lastWriteTime := clock s.readings } := by
    simp [write, hack, readClock]
  apply Ensures.of_run hrun
  refine ⟨?_, hrem.wrote nmea, fun _ => ⟨?_, ?_, hlt⟩, nofun⟩
  · rw [hout] at hhist ⊢
    exact hhist.wrote
  · simp [hout]
  · simp [countAttempt, hattempts]

theorem giveUp_attempted (hout : s.out = nmea :: rest)
    (hhist : History s.log s.out) (hrem : RemovalsMeet (Justified cfg) s.log)
    (hattempts : attempts s.log = cfg.nmeaResendAttempts) : KeepsAttempted cfg (giveUp cfg) s := by
  have hgone : ∀ n state, Attempted cfg { s with
      out := rest
      log := s.log ++ [.left nmea .givenUp]
      waitingForHuxley := false
      nmeaPresentFailCount := 0
      nmeaDemerits := n
      frontseatState := state } := by
    intro n state
    refine ⟨?_, hrem.left hattempts, nofun, fun _ => ⟨?_, rfl⟩⟩
    · rw [hout] at hhist
      exact hhist.left .givenUp
    · simp [countAttempt]
  unfold KeepsAttempted Ensures giveUp
  simp only [run_bind, run_modify, run_get, removeFromWriteQueue, popOut, hout]
  split_ifs
  · exact hgone ..
  · exact hgone ..

section

variable (hack : cfg.disableAck = false)
include hack

theorem resend_attempted (hout : s.out = nmea :: rest) (h : Attempted cfg s)
    (hwait : s.waitingForHuxley = true) : KeepsAttempted cfg (resend cfg clock nmea) s := by
  obtain ⟨-, hattempts, hlt⟩ := h.waiting hwait
  apply Ensures.modify_bind
  apply Ensures.get_bind
  split_ifs with hfailed
  · have hN : s.nmeaPresentFailCount + 1 = cfg.nmeaResendAttempts := le_antisymm hlt hfailed
    exact giveUp_attempted hout h.history h.removals (hattempts.trans hN)
  · exact write_attempted hack hout h.history h.removals hattempts (Nat.lt_of_not_le hfailed)

theorem trySend_attempted (hN : 1 ≤ cfg.nmeaResendAttempts)
    (h : Attempted cfg s) : KeepsAttempted cfg (Bluefin.trySend cfg clock) s := by
  apply Ensures.get_bind
  cases hout : s.out with
  | nil => exact Ensures.pure h
  | cons nmea rest =>
    cases hwait : s.waitingForHuxley with
    | false =>
      obtain ⟨hattempts, hfail⟩ := h.idle hwait
      exact write_attempted hack hout h.history h.removals (hattempts.trans hfail.symm) (by omega)
    | true =>
      have hread : Attempted cfg { s with readings := s.readings + 1 } :=
        ⟨h.history, h.removals, h.waiting, h.idle⟩
      apply Ensures.bind
      refine Ensures.of_run rfl ?_
      split_ifs
      · exact resend_attempted hack hout hread hwait
      · exact Ensures.pure hread

theorem appendToWriteQueue_attempted
    (hN : 1 ≤ cfg.nmeaResendAttempts) (nmea : NmeaSentence) (h : Attempted cfg s) :
    KeepsAttempted cfg (appendToWriteQueue cfg clock nmea) s := by
  apply Ensures.modify_bind
  apply trySend_attempted hack hN
  refine ⟨h.history.queued nmea, h.removals.queued nmea, ?_, ?_⟩
  · intro hwait
    obtain ⟨-, hattempts, hlt⟩ := h.waiting hwait
    exact ⟨by simp, by simpa [countAttempt] using hattempts, hlt⟩
  · intro hwait
    obtain ⟨hattempts, hfail⟩ := h.idle hwait
    exact ⟨by simpa [countAttempt] using hattempts, hfail⟩

theorem appendAll_attempted (hN : 1 ≤ cfg.nmeaResendAttempts)
    (sentences : List NmeaSentence) (h : Attempted cfg s) :
    KeepsAttempted cfg (appendAll cfg clock sentences) s := by
  induction sentences generalizing s with
  | nil => exact Ensures.pure h
  | cons nmea sentences ih =>
    apply Ensures.bind
    apply (appendToWriteQueue_attempted hack hN nmea h).mono
    · intro _ s' hs'
      exact ih hs'
    · intro _ s' hs'
      exact hs'

/-- Both deques are emptied; the counter is not reset. -/
theorem initializeHuxley_attempted
    (hN : 1 ≤ cfg.nmeaResendAttempts) (h : Attempted cfg s) (hfail : s.nmeaPresentFailCount = 0) :
    KeepsAttempted cfg (initializeHuxley cfg clock) s := by
  apply Ensures.modify_bind
  apply appendAll_attempted hack hN
  refine ⟨h.history.cleared, h.removals.cleared s.out, nofun, fun _ => ⟨?_, hfail⟩⟩
  simp [clearQueues, countAttempt]

end

/-- The front has been taken away, and neither flag nor counter may speak of it any more. -/
structure Popped (cfg : BluefinConfig) (s : Bluefin) : Prop where
  history : History s.log s.out
  removals : RemovalsMeet (Justified cfg) s.log
  attempts : attempts s.log = 0
  failCount : s.nmeaPresentFailCount = 0

theorem Popped.attempted (h : Popped cfg s) (hwait : s.waitingForHuxley = false) : Attempted cfg s :=
  ⟨h.history, h.removals, fun hw => absurd (hwait.symm.trans hw) (by decide),
    fun _ => ⟨h.attempts, h.failCount⟩⟩

theorem Attempted.popped (h : Attempted cfg s) (hwait : s.waitingForHuxley = false) : Popped cfg s :=
  ⟨h.history, h.removals, (h.idle hwait).1, (h.idle hwait).2⟩

theorem respond_popped (nmea : NmeaSentence) (status : ℤ) (type : BluefinCommand)
    (h : Popped cfg s) :
    Ensures (respond nmea status type) s
      (fun _ s' => Popped cfg s' ∧ s'.waitingForHuxley = s.waitingForHuxley)
      (fun _ s' => (Popped cfg s' ∧ s'.waitingForHuxley = s.waitingForHuxley) ∧
        nmea.size ≤ descriptionField) := by
  apply Ensures.get_bind
  cases s.outstandingRequests type with
  | none => exact Ensures.pure ⟨h, rfl⟩
  | some requestId =>
    split_ifs
    · exact Ensures.modify ⟨⟨h.history, h.removals, h.attempts, h.failCount⟩, rfl⟩
    · apply Ensures.bind
      unfold fieldAt
      cases hfield : nmea.at? descriptionField with
      | none => exact Ensures.throw ⟨⟨h, rfl⟩, List.getElem?_eq_none_iff.mp hfield⟩
      | some description =>
        exact Ensures.pure (Ensures.modify ⟨⟨h.history, h.removals, h.attempts, h.failCount⟩, rfl⟩)

/-- An ack that can be dealt with to the end. -/
def Complete (nmea : NmeaSentence) (status : ℤ) (ackedSentence : Bytes) : Prop :=
  status = requestPending ∨ (ackedSentence ∈ sentenceIds ∧ descriptionField < nmea.size)

instance (nmea : NmeaSentence) (status : ℤ) (ackedSentence : Bytes) :
    Decidable (Complete nmea status ackedSentence) :=
  inferInstanceAs (Decidable (_ ∨ _))

/-- The flag is reset unless something throws before that; it may have been so already. -/
theorem finishAck_attempted (h : Popped cfg s)
    (hflag : s.waitingForHuxley = false ∨ Complete nmea status ackedSentence) :
    KeepsAttempted cfg (finishAck nmea status ackedSentence) s := by
  have hreset : ∀ s' : Bluefin, Popped cfg s' →
      KeepsAttempted cfg (modify fun s : Bluefin => { s with waitingForHuxley := false }) s' := by
    intro s' h'
    exact Ensures.modify (Popped.attempted ⟨h'.history, h'.removals, h'.attempts, h'.failCount⟩ rfl)
  apply Ensures.bind
  unfold answerRequest
  split_ifs with hpending hknown
  · exact Ensures.pure (hreset s h)
  · apply (respond_popped nmea status (commandOf ackedSentence) h).mono
    · rintro _ s' ⟨h', -⟩
      exact hreset s' h'
    · rintro _ s' ⟨⟨h', hwait⟩, hsize⟩
      rcases hflag with hflag | hpend | ⟨-, hdesc⟩
      · exact h'.attempted (hwait.trans hflag)
      · exact absurd hpend hpending
      · exact absurd hdesc (Nat.not_lt.mpr hsize)
  · rcases hflag with hflag | hpend | ⟨hids, -⟩
    · exact Ensures.throw (h.attempted hflag)
    · exact absurd hpend hpending
    · exact absurd hids hknown

/-- An ack for the front comes when that has been written once and none of its attempts
has failed; any other ack comes while none is awaited. -/
def InTurn (s : Bluefin) (nmea : NmeaSentence) (status : ℤ) (ackedSentence : Bytes) : Prop :=
  if frontIs s.out ackedSentence = true then
    s.waitingForHuxley = true ∧ s.nmeaPresentFailCount = 0 ∧ Complete nmea status ackedSentence
  else s.waitingForHuxley = false

instance (s : Bluefin) (nmea : NmeaSentence) (status : ℤ) (ackedSentence : Bytes) :
    Decidable (InTurn s nmea status ackedSentence) :=
  inferInstanceAs (Decidable (if frontIs s.out ackedSentence = true then _ ∧ _ ∧ _ else _ = _))

theorem matchAck_attempted (h : Attempted cfg s) (hturn : InTurn s nmea status ackedSentence) :
    KeepsAttempted cfg (matchAck nmea status ackedSentence) s := by
  apply Ensures.get_bind
  rw [InTurn] at hturn
  split_ifs at hturn ⊢ with hfront hpending
  · obtain ⟨hwait, hfail, hcomplete⟩ := hturn
    obtain ⟨-, hattempts, -⟩ := h.waiting hwait
    apply Ensures.modify_bind
    refine finishAck_attempted ?_ (.inr hcomplete)
    obtain ⟨front, rest, hout, hid⟩ := head_of_frontIs hfront
    have hhist := h.history
    rw [hout] at hhist
    simp only [popOut, hout]
    exact ⟨hhist.left _, h.removals.left ⟨hid, by omega⟩, by simp [countAttempt], hfail⟩
  · have hpopped := h.popped hturn
    apply Ensures.modify_bind
    exact finishAck_attempted ⟨hpopped.history, hpopped.removals, hpopped.attempts, hpopped.failCount⟩
      (.inl hturn)
  · have hpopped := h.popped hturn
    apply Ensures.modify
    refine Popped.attempted ⟨hpopped.history.cleared, hpopped.removals.cleared s.out, ?_,
      hpopped.failCount⟩ hturn
    simp [clearQueues, countAttempt]

theorem notePending_attempted (status : ℤ) (h : Attempted cfg s) :
    Attempted cfg (notePending status s) := by
  unfold notePending pushPending
  split
  · split
    · exact h
    · exact ⟨h.history, h.removals, h.waiting, h.idle⟩
  · exact h

theorem notePending_inTurn (h : InTurn s nmea status ackedSentence) :
    InTurn (notePending status s) nmea status ackedSentence := by
  unfold notePending pushPending
  split
  · split <;> exact h
  · exact h

def InTurnAck (s : Bluefin) (nmea : NmeaSentence) : Prop :=
  ∀ status ∈ nmea.at? ackStatusField, ∀ ackedSentence ∈ nmea.at? commandNameField,
    InTurn s nmea (asInt status) (ackedSentence.map toUpper)

instance (s : Bluefin) (nmea : NmeaSentence) : Decidable (InTurnAck s nmea) :=
  inferInstanceAs (Decidable (∀ status ∈ _, ∀ ackedSentence ∈ _, _))

theorem fieldAt_keeps {i : ℕ} (h : Attempted cfg s) :
    Ensures (fieldAt nmea i) s (fun field s' => s' = s ∧ nmea.at? i = some field)
      (fun _ => Attempted cfg) := by
  unfold fieldAt
  cases nmea.at? i with
  | none => exact Ensures.throw h
  | some field => exact Ensures.pure ⟨rfl, rfl⟩

theorem debugAck_keeps (status : ℤ) (h : Attempted cfg s) :
    Ensures (debugAck cfg nmea status) s (fun _ s' => s' = s) (fun _ => Attempted cfg) := by
  unfold debugAck
  split_ifs
  · apply Ensures.bind
    apply (fieldAt_keeps h).mono _ (fun _ _ he => he)
    rintro _ _ ⟨rfl, -⟩
    exact Ensures.pure rfl
  · exact Ensures.pure rfl

theorem bfack_attempted (h : Attempted cfg s) (hturn : InTurnAck s nmea) :
    KeepsAttempted cfg (bfack cfg nmea) s := by
  apply Ensures.bind
  apply (fieldAt_keeps h).mono _ (fun _ _ he => he)
  rintro status _ ⟨rfl, hstatus⟩
  apply Ensures.bind
  apply (fieldAt_keeps h).mono _ (fun _ _ he => he)
  rintro ackedSentence _ ⟨rfl, hacked⟩
  apply Ensures.bind
  apply (debugAck_keeps (asInt status) h).mono _ (fun _ _ he => he)
  rintro _ _ rfl
  apply Ensures.modify_bind
  exact matchAck_attempted (notePending_attempted _ h)
    (notePending_inTurn (hturn status hstatus ackedSentence hacked))

/-- The calls that leave the flag and the counter right: acks in turn, and a new connection
made while no attempt of the front has failed. -/
def orderly (s : Bluefin) : Call → Bool
  | .receive nmea => nmea.sentenceId = ascii "ACK" → InTurnAck s nmea
  | .initializeHuxley => s.nmeaPresentFailCount = 0
  | _ => true

theorem processReceive_attempted (h : Attempted cfg s)
    (hturn : nmea.sentenceId = ascii "ACK" → InTurnAck s nmea) :
    KeepsAttempted cfg (processReceive cfg nmea) s := by
  have hfresh : Attempted cfg { s with nmeaDemerits := 0 } :=
    ⟨h.history, h.removals, h.waiting, h.idle⟩
  apply Ensures.modify_bind
  split_ifs with hknown hack
  · exact bfack_attempted hfresh (hturn hack)
  · exact Ensures.pure hfresh
  · exact Ensures.throw hfresh

theorem step_attempted (hack : cfg.disableAck = false) (hN : 1 ≤ cfg.nmeaResendAttempts)
    (c : Call) (h : Attempted cfg s) (hc : orderly s c = true) :
    Attempted cfg (step cfg clock c s) := by
  apply Ensures.finalState
  cases c with
  | append nmea => exact appendToWriteQueue_attempted hack hN nmea h
  | trySend => exact trySend_attempted hack hN h
  | receive nmea => exact processReceive_attempted h (of_decide_eq_true hc)
  | initializeHuxley => exact initializeHuxley_attempted hack hN h (of_decide_eq_true hc)

/-- With acks enabled, in any run of orderly calls every sentence that has left `out_` had
been written and was acked, or had been written `nmeaResendAttempts` times, or was cleared. -/
theorem removals_justified (cfg : BluefinConfig) (clock : ℕ → ℚ) (hack : cfg.disableAck = false)
    (hN : 1 ≤ cfg.nmeaResendAttempts) (s : Bluefin) (h : Reached (step cfg clock) (orderly · ·) {} s) :
    History s.log s.out ∧ RemovalsMeet (Justified cfg) s.log := by
  have hs : Attempted cfg s := h.invariant attempted_new fun _ c hs hc => step_attempted hack hN c hs hc
  exact ⟨hs.history, hs.removals⟩

def bprmb : NmeaSentence := ⟨ascii "$BPRMB", [], by decide, by decide⟩

def bptrm : NmeaSentence := ⟨ascii "$BPTRM", [], by decide, by decide⟩

def successfulAck (sentenceId : String) : NmeaSentence :=
  ⟨ascii "$BFACK", ["", sentenceId, "", "", "2", "", ""].map ascii, by decide, by decide⟩

def slowClock (n : ℕ) : ℚ := 10 * n

/-- One sentence is acked, and the next one is given up after three attempts. -/
def sampleCalls : List Call :=
  [.append bprmb, .receive (successfulAck "RMB"), .append bptrm, .trySend, .trySend, .trySend]

theorem removals_justified_sample :
    (performAll (step {} slowClock) sampleCalls {}).log =
        [.queued bprmb, .wrote bprmb, .left bprmb (.acked (ascii "RMB")), .queued bptrm, .wrote bptrm,
          .wrote bptrm, .wrote bptrm, .left bptrm .givenUp] ∧
      RemovalsMeet (Justified {}) (performAll (step {} slowClock) sampleCalls {}).log := by
  refine ⟨by decide +kernel, ?_⟩
  apply (removals_justified {} slowClock rfl (by decide) (performAll (step {} slowClock) sampleCalls {}) _).2
  exact Reached.start.performAll (by decide +kernel)

/-- The first sentence is acked after its third attempt. The counter keeps its two failures,
and the next sentence is given up after one attempt of its own. -/
theorem removals_not_justified :
    Reached (step {} slowClock) (fun _ _ => True) {}
        (performAll (step {} slowClock)
          [.append bprmb, .trySend, .trySend, .receive (successfulAck "RMB"), .append bptrm, .trySend]
          {}) ∧
      (performAll (step {} slowClock)
          [.append bprmb, .trySend, .trySend, .receive (successfulAck "RMB"), .append bptrm, .trySend]
          {}).log =
        [.queued bprmb, .wrote bprmb, .wrote bprmb, .wrote bprmb, .left bprmb (.acked (ascii "RMB")),
          .queued bptrm, .wrote bptrm, .left bptrm .givenUp] ∧
      ¬ RemovalsMeet (Justified {}) [.queued bprmb, .wrote bprmb, .wrote bprmb, .wrote bprmb,
          .left bprmb (.acked (ascii "RMB")), .queued bptrm, .wrote bptrm, .left bptrm .givenUp] := by
  refine ⟨Reached.start.performAll (by decide +kernel), by decide +kernel, ?_⟩
  intro h
  have hgone := h [.queued bprmb, .wrote bprmb, .wrote bprmb, .wrote bprmb,
    .left bprmb (.acked (ascii "RMB")), .queued bptrm, .wrote bptrm] bptrm .givenUp [] rfl
  exact absurd hgone (by decide : (1 : ℕ) ≠ 3)

end Goby.Bluefin
