import Goby.CallRuns
import Goby.MicroModemWriting

/-! A command of the Micro-Modem driver should be written before it is taken from the deque.
What the driver knows of this is its flag and the count of failures: as long as either is
set the front has been written. Between the removal of one command and the next call of
`trySend` neither is, and a sentence that takes the front away then takes it unsent. -/

namespace Goby.MicroModem

open FrontEvent

/-- What may happen to the driver. A call of `do_work` is made of commands appended for the
clock and for the keep-alive, of `trySend`, and of any sentences received after that. -/
inductive Call where
  | append (nmea : NmeaSentence)
  | trySend
  | receive (nmea : NmeaSentence) (data : Option (List Bytes))
  | shutdown

def perform (clock : ℕ → ℚ) : Call → MicroModemM Unit
  | .append nmea => appendToWriteQueue clock nmea
  | .trySend => MicroModem.trySend clock
  | .receive nmea data => processReceive clock nmea data
  | .shutdown => modify MicroModem.shutdown

def step (clock : ℕ → ℚ) (c : Call) (s : MicroModem) : MicroModem := finalState (perform clock c) s

/-- A command leaves after at least one attempt. -/
def Sent (_ : NmeaSentence) (_ : MicroModemRemoval) (n : ℕ) : Prop := 1 ≤ n

/-- What is known before `trySend`: the flag is set only for a front that has been written. -/
structure Sendable (s : MicroModem) : Prop where
  history : History s.log s.out
  removals : RemovalsMeet Sent s.log
  flag : s.waitingForModem = true → s.out ≠ [] → 1 ≤ attempts s.log

/-- The failures counted, too, are those of a front that has been written. -/
structure Known (s : MicroModem) : Prop extends Sendable s where
  failed : 0 < s.presentFailCount → s.out ≠ [] → 1 ≤ attempts s.log

variable {clock : ℕ → ℚ} {s : MicroModem} {nmea : NmeaSentence} {data : Option (List Bytes)}
  {rest : List NmeaSentence}

abbrev KeepsKnown {α : Type} (m : MicroModemM α) (s : MicroModem) : Prop :=
  Ensures m s (fun _ => Known) (fun _ => Known)

theorem known_new : Known {} :=
  ⟨⟨.nil, removalsMeet_nil _, nofun⟩, nofun⟩

theorem Sendable.known (h : Sendable s) (hw : s.out ≠ [] → 1 ≤ attempts s.log) : Known s :=
  ⟨h, fun _ => hw⟩

/-- The front leaves after it has been written; of the next one nothing is known. -/
theorem popOut_known (reason : MicroModemRemoval) (h : Sendable s)
    (hw : s.out ≠ [] → 1 ≤ attempts s.log) : Known (popOut reason s) := by
  unfold popOut
  split
  · exact ⟨⟨h.history, h.removals, nofun⟩, nofun⟩
  · next nmea rest hout =>
    have hhist := h.history
    rw [hout] at hhist
    exact ⟨⟨hhist.left reason, h.removals.left (hw (by simp [hout])), nofun⟩, nofun⟩

theorem incrementPresentFail_known (h : Sendable s) (hw : s.out ≠ [] → 1 ≤ attempts s.log) :
    Known (incrementPresentFail s) := by
  have hcounted : Sendable { s with presentFailCount := s.presentFailCount + 1 } :=
    ⟨h.history, h.removals, h.flag⟩
  unfold incrementPresentFail
  split_ifs
  · exact popOut_known _ hcounted hw
  · exact hcounted.known hw

theorem mmWrite_run (clock : ℕ → ℚ) (nmea : NmeaSentence) (s : MicroModem) :
    mmWrite clock nmea s = .ok () { s with
      waitingForModem := true
      log := s.log ++ [.wrote nmea]
      readings := s.readings + 1
      lastWriteTime := clock s.readings } := rfl

theorem mmWrite_known (hout : s.out = nmea :: rest)
    (hhist : History s.log s.out) (hrem : RemovalsMeet Sent s.log) :
    KeepsKnown (mmWrite clock nmea) s := by
  apply Ensures.of_run (mmWrite_run clock nmea s)
  have hwritten : 1 ≤ attempts (s.log ++ [.wrote nmea]) := by simp [countAttempt]
  refine ⟨⟨?_, hrem.wrote nmea, fun _ _ => hwritten⟩, fun _ _ => hwritten⟩
  rw [hout] at hhist ⊢
  exact hhist.wrote

theorem shutdown_known (h : Known s) : Known (MicroModem.shutdown s) :=
  ⟨⟨h.history.cleared, h.removals.cleared s.out, fun _ hne => absurd rfl hne⟩, fun _ hne => absurd rfl hne⟩

theorem resend_known (hout : s.out = nmea :: rest)
    (h : Sendable s) (hw : 1 ≤ attempts s.log) : KeepsKnown (resend clock nmea) s := by
  have hknown := h.known fun _ => hw
  apply Ensures.get_bind
  split_ifs with hdead hfailed
  · have hclosed := shutdown_known hknown
    apply Ensures.set_bind
    apply Ensures.throw
    exact ⟨⟨hclosed.history, hclosed.removals, hclosed.flag⟩, hclosed.failed⟩
  · apply Ensures.set_bind
    apply Ensures.pure
    have hcounted : Sendable { s with globalFailCount := s.globalFailCount + 1 } :=
      ⟨h.history, h.removals, h.flag⟩
    exact incrementPresentFail_known hcounted fun _ => hw
  · apply Ensures.set_bind
    rw [incrementPresentFail, if_neg hfailed]
    exact mmWrite_known hout h.history h.removals

theorem trySend_known (h : Sendable s) : KeepsKnown (MicroModem.trySend clock) s := by
  apply Ensures.get_bind
  cases hout : s.out with
  | nil => exact Ensures.pure (h.known fun hne => absurd hout hne)
  | cons nmea rest =>
    cases hwait : s.waitingForModem with
    | false => exact mmWrite_known hout h.history h.removals
    | true =>
      have hw : 1 ≤ attempts s.log := h.flag hwait (by simp [hout])
      have hread : Sendable { s with readings := s.readings + 1 } := ⟨h.history, h.removals, h.flag⟩
      apply Ensures.bind
      refine Ensures.of_run rfl ?_
      split_ifs
      · exact resend_known hout hread hw
      · exact Ensures.pure (hread.known fun _ => hw)

/-- A command put into an empty deque is written at once, unless a flag was left behind. -/
theorem appendToWriteQueue_known (nmea : NmeaSentence) (h : Known s)
    (hfree : s.out ≠ [] ∨ s.waitingForModem = false) :
    KeepsKnown (appendToWriteQueue clock nmea) s := by
  apply Ensures.modify_bind
  apply trySend_known
  refine ⟨h.history.queued nmea, h.removals.queued nmea, ?_⟩
  intro hwait _
  rcases hfree with hne | hfree
  · simpa [countAttempt] using h.flag hwait hne
  · exact absurd (hfree.symm.trans hwait) (by decide)

def frontWritten (s : MicroModem) : Bool :=
  s.out.isEmpty || s.waitingForModem || decide (0 < s.presentFailCount)

theorem Known.one_le_attempts (h : Known s) (hw : frontWritten s = true) :
    s.out ≠ [] → 1 ≤ attempts s.log := by
  intro hne
  simp only [frontWritten, Bool.or_eq_true, List.isEmpty_iff, decide_eq_true_eq] at hw
  rcases hw with (hnil | hwait) | hfail
  · exact absurd hnil hne
  · exact h.flag hwait hne
  · exact h.failed hfail hne

/-- An error report that complains of a sentence. -/
def isNmeaError (nmea : NmeaSentence) : Bool :=
  nmea.sentenceId = ascii "ERR" ∧ nmea.at? 2 = some (ascii "NMEA")

def answersFront (s : MicroModem) (nmea : NmeaSentence) : Bool :=
  match s.out with
  | [] => false
  | command :: _ => answers command nmea

theorem caerr_known (h : Known s)
    (hw : nmea.at? 2 = some (ascii "NMEA") → frontWritten s = true) : KeepsKnown (caerr nmea) s := by
  unfold caerr
  cases hfield : nmea.at? 2 with
  | none => exact Ensures.throw h
  | some field =>
    dsimp only
    split_ifs with hnmea
    · have hidle : Sendable { s with waitingForModem := false } := ⟨h.history, h.removals, nofun⟩
      exact Ensures.modify (incrementPresentFail_known hidle (h.one_le_attempts (hw (hnmea ▸ hfield))))
    · exact Ensures.pure h

theorem handle_known (h : Known s)
    (hw : isNmeaError nmea = true → frontWritten s = true)
    (hfree : nmea.sentenceId = ascii "DRQ" → s.out ≠ [] ∨ s.waitingForModem = false) :
    KeepsKnown (handle clock nmea data) s := by
  unfold handle
  by_cases herr : nmea.sentenceId = ascii "ERR"
  · rw [if_pos herr]
    apply caerr_known h
    intro hfield
    exact hw (decide_eq_true ⟨herr, hfield⟩)
  · rw [if_neg herr]
    cases data with
    | none => exact Ensures.throw h
    | some fields =>
      dsimp only
      split_ifs with hdrq
      · exact appendToWriteQueue_known _ h (hfree hdrq)
      · exact Ensures.pure h

theorem clearLastSend_known (h : Known s)
    (hw : answersFront s nmea = true → frontWritten s = true) : Known (clearLastSend nmea s) := by
  unfold clearLastSend
  split
  · exact h
  · next command rest hout =>
    split_ifs with hanswers
    · have hanswered : answersFront s nmea = true := by simpa [answersFront, hout] using hanswers
      exact popOut_known _ h.toSendable (h.one_le_attempts (hw hanswered))
    · exact h

/-- A sentence that takes the front away, as an error or as an answer, finds it written. -/
def receivedInTurn (clock : ℕ → ℚ) (s : MicroModem) (nmea : NmeaSentence)
    (data : Option (List Bytes)) : Bool :=
  (!isNmeaError nmea || frontWritten s) &&
    match handle clock nmea data s with
    | .ok _ s' => !answersFront s' nmea || frontWritten s'
    | .error _ _ => true

/-- No command is put into an empty deque behind a flag that `shutdown` left set. -/
def freeToWrite (s : MicroModem) : Bool := !s.out.isEmpty || !s.waitingForModem

theorem freeToWrite_iff : freeToWrite s = true ↔ s.out ≠ [] ∨ s.waitingForModem = false := by
  simp [freeToWrite]

def orderly (clock : ℕ → ℚ) (s : MicroModem) : Call → Bool
  | .append _ => freeToWrite s
  | .receive nmea data =>
    freeToWrite s && receivedInTurn clock { s with globalFailCount := 0 } nmea data
  | _ => true

theorem processReceive_known (h : Known s) (hfree : freeToWrite s = true)
    (hturn : receivedInTurn clock { s with globalFailCount := 0 } nmea data = true) :
    KeepsKnown (processReceive clock nmea data) s := by
  unfold processReceive
  split_ifs
  · exact Ensures.throw h
  · have hreset : Known { s with globalFailCount := 0 } :=
      ⟨⟨h.history, h.removals, h.flag⟩, h.failed⟩
    obtain ⟨herror, hanswer⟩ := Bool.and_eq_true_iff.mp hturn
    have hhandled : KeepsKnown (handle clock nmea data) { s with globalFailCount := 0 } := by
      apply handle_known hreset
      · intro he
        simpa [he] using herror
      · exact fun _ => freeToWrite_iff.mp hfree
    apply Ensures.modify_bind
    apply Ensures.bind
    apply hhandled.with_run.mono
    · rintro _ s' ⟨hres, hs'⟩
      simp only [hres] at hanswer
      apply Ensures.modify
      apply clearLastSend_known hs'
      intro ha
      simpa [ha] using hanswer
    · rintro _ s' ⟨-, hs'⟩
      exact hs'

theorem step_known (c : Call) (h : Known s) (hc : orderly clock s c = true) :
    Known (step clock c s) := by
  apply Ensures.finalState
  cases c with
  | append nmea => exact appendToWriteQueue_known nmea h (freeToWrite_iff.mp hc)
  | trySend => exact trySend_known h.toSendable
  | receive nmea data =>
    obtain ⟨hfree, hturn⟩ := Bool.and_eq_true_iff.mp hc
    exact processReceive_known h hfree hturn
  | shutdown => exact Ensures.modify (shutdown_known h)

/-- In any run of orderly calls every command that has left `out_`, other than by `shutdown`,
had been written. -/
theorem commands_sent (clock : ℕ → ℚ) (s : MicroModem)
    (h : Reached (step clock) (orderly clock · ·) {} s) :
    History s.log s.out ∧ RemovalsMeet Sent s.log := by
  have hs : Known s := h.invariant known_new fun _ c hs hc => step_known c hs hc
  exact ⟨hs.history, hs.removals⟩

def cccfq : NmeaSentence := ⟨ascii "$CCCFQ", [ascii "SRC"], by decide, by decide⟩

def cacfg : NmeaSentence := ⟨ascii "$CACFG", ["SRC", "1"].map ascii, by decide, by decide⟩

def cccyc : NmeaSentence :=
  ⟨ascii "$CCCYC", ["0", "1", "2", "0", "0", "1"].map ascii, by decide, by decide⟩

def otherCacyc : NmeaSentence :=
  ⟨ascii "$CACYC", ["0", "3", "4", "0", "0", "1"].map ascii, by decide, by decide⟩

def fastClock (n : ℕ) : ℚ := n / 10

theorem commands_sent_sample :
    (performAll (step fastClock) [.append cccfq, .append cccyc, .trySend, .receive cacfg (some []), .trySend,
        .receive otherCacyc (some [])] {}).log =
        [.queued cccfq, .wrote cccfq, .queued cccyc, .left cccfq (.answered cacfg), .wrote cccyc,
          .left cccyc (.answered otherCacyc)] ∧
      RemovalsMeet Sent (performAll (step fastClock) [.append cccfq, .append cccyc, .trySend,
        .receive cacfg (some []), .trySend, .receive otherCacyc (some [])] {}).log := by
  refine ⟨by decide +kernel, ?_⟩
  exact (commands_sent fastClock _ (Reached.start.performAll (by decide +kernel))).2

/-- The same without a call of `trySend` between the two sentences, as when both are read in
one call of `do_work`: the cycle command is taken away unsent. -/
theorem commands_not_sent :
    Reached (step fastClock) (fun _ _ => True) {}
        (performAll (step fastClock) [.append cccfq, .append cccyc, .trySend, .receive cacfg (some []),
          .receive otherCacyc (some [])] {}) ∧
      (performAll (step fastClock) [.append cccfq, .append cccyc, .trySend, .receive cacfg (some []),
          .receive otherCacyc (some [])] {}).log =
        [.queued cccfq, .wrote cccfq, .queued cccyc, .left cccfq (.answered cacfg),
          .left cccyc (.answered otherCacyc)] ∧
      ¬ RemovalsMeet Sent [.queued cccfq, .wrote cccfq, .queued cccyc,
          .left cccfq (.answered cacfg), .left cccyc (.answered otherCacyc)] := by
  refine ⟨Reached.start.performAll (by decide +kernel), by decide +kernel, ?_⟩
  intro h
  have hsent := h [.queued cccfq, .wrote cccfq, .queued cccyc, .left cccfq (.answered cacfg)] cccyc
    (.answered otherCacyc) [] rfl
  exact absurd hsent (by decide : ¬ 1 ≤ 0)

end Goby.MicroModem
