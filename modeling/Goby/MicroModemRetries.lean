import Goby.MicroModemCommands

/-! How often the front of the deque has been written is not stored anywhere: the driver has
the flag that it is waiting and the count of failures, and both are changed on the normal
path, on a time-out and by an error report. While the driver waits, the front has been
written at most once more than failures were counted, and otherwise not more often than
that. As three failures remove the front, no command is written more than three times. -/

namespace Goby.MicroModem

open FrontEvent

/-- What the flag and the count say about the writes of the front. -/
structure Disciplined (s : MicroModem) : Prop where
  history : History s.log s.out
  bounded : AttemptsBounded retries s.log
  failCount : s.presentFailCount < retries
  idle : s.waitingForModem = false → attempts s.log ≤ s.presentFailCount
  waiting : s.waitingForModem = true →
    s.out ≠ [] ∧ 1 ≤ attempts s.log ∧ attempts s.log ≤ s.presentFailCount + 1

variable {clock : ℕ → ℚ} {s : MicroModem} {rest : List NmeaSentence} {nmea : NmeaSentence}

/-- The driver goes on as before, unless it gives the modem up. -/
abbrev KeepsDisciplined {α : Type} (m : MicroModemM α) (s : MicroModem) : Prop :=
  Ensures m s (fun _ => Disciplined) (fun e s' => e = .modemNotResponding ∨ Disciplined s')

theorem retries_pos : 0 < retries := by decide

theorem disciplined_new : Disciplined {} where
  history := .nil
  bounded := attemptsBounded_nil _
  failCount := retries_pos
  idle := fun _ => le_rfl
  waiting := nofun

theorem Disciplined.attempts_le (h : Disciplined s) : attempts s.log ≤ s.presentFailCount + 1 := by
  cases hwait : s.waitingForModem with
  | false => exact (h.idle hwait).trans (Nat.le_succ _)
  | true => exact (h.waiting hwait).2.2

theorem popOut_disciplined (reason : MicroModemRemoval) (hhist : History s.log s.out)
    (hbound : AttemptsBounded retries s.log) : Disciplined (popOut reason s) := by
  unfold popOut
  split
  · next hout =>
    refine ⟨hhist, hbound, retries_pos, fun _ => ?_, fun hwait => Bool.noConfusion hwait⟩
    exact (hhist.attempts_eq_zero hout).le
  · next nmea rest hout =>
    rw [hout] at hhist
    have hnone : attempts (s.log ++ [.left nmea reason]) = 0 := by simp [countAttempt]
    refine ⟨hhist.left reason, hbound.append_singleton ?_, retries_pos, fun _ => hnone.le,
      fun hwait => Bool.noConfusion hwait⟩
    rw [hnone]
    exact Nat.zero_le _

/-- A failure counted after an error report, when the driver no longer waits. -/
theorem incrementPresentFail_disciplined (hhist : History s.log s.out)
    (hbound : AttemptsBounded retries s.log) (hidle : s.waitingForModem = false)
    (hle : attempts s.log ≤ s.presentFailCount + 1) : Disciplined (incrementPresentFail s) := by
  unfold incrementPresentFail
  split_ifs with hfailed
  · exact popOut_disciplined _ hhist hbound
  · refine ⟨hhist, hbound, Nat.not_le.mp hfailed, fun _ => hle, fun hwait => ?_⟩
    exact absurd (hidle.symm.trans hwait) (by decide)

/-- The front is written when no more writes than failures have been made. -/
theorem mmWrite_disciplined (hout : s.out = nmea :: rest)
    (hhist : History s.log s.out) (hbound : AttemptsBounded retries s.log)
    (hfail : s.presentFailCount < retries) (hle : attempts s.log ≤ s.presentFailCount) :
    KeepsDisciplined (mmWrite clock nmea) s := by
  have hcount : attempts (s.log ++ [.wrote nmea]) = attempts s.log + 1 := by simp [countAttempt]
  apply Ensures.of_run (mmWrite_run clock nmea s)
  refine ⟨?_, hbound.append_singleton (by omega), hfail, fun hidle => Bool.noConfusion hidle,
    fun _ => ⟨?_, ?_, ?_⟩⟩
  · rw [hout] at hhist ⊢
    exact hhist.wrote
  · rw [hout]
    exact List.cons_ne_nil _ _
  · rw [hcount]
    exact Nat.le_add_left _ _
  · rw [hcount]
    exact Nat.succ_le_succ hle

theorem resend_disciplined (hout : s.out = nmea :: rest)
    (h : Disciplined s) : KeepsDisciplined (resend clock nmea) s := by
  apply Ensures.get_bind
  split_ifs with hdead hfailed
  · apply Ensures.set_bind
    exact Ensures.throw (.inl rfl)
  · apply Ensures.set_bind
    apply Ensures.pure
    rw [incrementPresentFail, if_pos hfailed]
    exact popOut_disciplined _ h.history h.bounded
  · apply Ensures.set_bind
    rw [incrementPresentFail, if_neg hfailed]
    exact mmWrite_disciplined hout h.history h.bounded (Nat.not_le.mp hfailed) h.attempts_le

theorem trySend_disciplined (h : Disciplined s) : KeepsDisciplined (MicroModem.trySend clock) s := by
  apply Ensures.get_bind
  cases hout : s.out with
  | nil => exact Ensures.pure h
  | cons nmea rest =>
    cases hwait : s.waitingForModem with
    | false => exact mmWrite_disciplined hout h.history h.bounded h.failCount (h.idle hwait)
    | true =>
      have hread : Disciplined { s with readings := s.readings + 1 } :=
        ⟨h.history, h.bounded, h.failCount, h.idle, h.waiting⟩
      apply Ensures.bind
      refine Ensures.of_run rfl ?_
      split_ifs
      · exact resend_disciplined hout hread
      · exact Ensures.pure hread

variable (nmea : NmeaSentence)

theorem appendToWriteQueue_disciplined (h : Disciplined s) :
    KeepsDisciplined (appendToWriteQueue clock nmea) s := by
  apply Ensures.modify_bind
  have hsame : attempts (s.log ++ [.queued nmea]) = attempts s.log := by simp [countAttempt]
  have hbound : attempts s.log ≤ retries := h.bounded _ List.prefix_rfl
  apply trySend_disciplined
  refine ⟨h.history.queued nmea, h.bounded.append_singleton (hsame.trans_le hbound), h.failCount, ?_, ?_⟩
  · intro hidle
    exact hsame.trans_le (h.idle hidle)
  · intro hwait
    obtain ⟨-, hone, hle⟩ := h.waiting hwait
    refine ⟨by simp, ?_, hsame.trans_le hle⟩
    exact hone.trans hsame.ge

theorem caerr_disciplined (h : Disciplined s) : KeepsDisciplined (caerr nmea) s := by
  unfold caerr
  cases nmea.at? 2 with
  | none => exact Ensures.throw (.inr h)
  | some field =>
    dsimp only
    split_ifs
    · exact Ensures.modify (incrementPresentFail_disciplined h.history h.bounded rfl h.attempts_le)
    · exact Ensures.pure h

theorem handle_disciplined (data : Option (List Bytes)) (h : Disciplined s) :
    KeepsDisciplined (handle clock nmea data) s := by
  unfold handle
  by_cases herr : nmea.sentenceId = ascii "ERR"
  · rw [if_pos herr]
    exact caerr_disciplined nmea h
  · rw [if_neg herr]
    cases data with
    | none => exact Ensures.throw (.inr h)
    | some fields =>
      dsimp only
      split_ifs
      · exact appendToWriteQueue_disciplined _ h
      · exact Ensures.pure h

theorem clearLastSend_disciplined (h : Disciplined s) : Disciplined (clearLastSend nmea s) := by
  unfold clearLastSend
  split
  · exact h
  · split_ifs
    · exact popOut_disciplined _ h.history h.bounded
    · exact h

theorem processReceive_disciplined (data : Option (List Bytes)) (h : Disciplined s) :
    KeepsDisciplined (processReceive clock nmea data) s := by
  unfold processReceive
  split_ifs
  · exact Ensures.throw (.inr h)
  · have hreset : Disciplined { s with globalFailCount := 0 } :=
      ⟨h.history, h.bounded, h.failCount, h.idle, h.waiting⟩
    apply Ensures.modify_bind
    apply Ensures.bind
    apply (handle_disciplined nmea data hreset).mono
    · intro _ s' hs'
      exact Ensures.modify (clearLastSend_disciplined nmea hs')
    · exact fun _ _ => id

/-- Neither `shutdown` nor the failure that makes the driver give the modem up. -/
def quiet (clock : ℕ → ℚ) (s : MicroModem) : Call → Bool
  | .shutdown => false
  | c => match perform clock c s with
    | .error .modemNotResponding _ => false
    | _ => true

theorem perform_disciplined (c : Call) (hc : c ≠ .shutdown) (h : Disciplined s) :
    KeepsDisciplined (perform clock c) s := by
  cases c with
  | append nmea => exact appendToWriteQueue_disciplined nmea h
  | trySend => exact trySend_disciplined h
  | receive nmea data => exact processReceive_disciplined nmea data h
  | shutdown => exact absurd rfl hc

theorem quiet_ne_shutdown {c : Call} (hc : quiet clock s c = true) : c ≠ .shutdown := by
  rintro rfl
  cases hc

theorem quiet_not_dead {c : Call} (hc : quiet clock s c = true) (s' : MicroModem) :
    perform clock c s ≠ .error .modemNotResponding s' := by
  intro hrun
  cases c with
  | shutdown => cases hc
  | _ => simp [quiet, hrun] at hc

theorem step_disciplined (c : Call) (h : Disciplined s) (hc : quiet clock s c = true) :
    Disciplined (step clock c s) := by
  apply Ensures.finalState
  apply (perform_disciplined c (quiet_ne_shutdown hc) h).with_run.mono
  · rintro _ s' ⟨-, hs'⟩
    exact hs'
  · rintro e s' ⟨hrun, rfl | hs'⟩
    · exact absurd hrun (quiet_not_dead hc s')
    · exact hs'

/-- In any run without `shutdown` and without giving the modem up: only the front is ever
written, the commands are written in the order they were appended, none of them more than
`RETRIES` times, and while the driver waits there is a front that has been written, at most
once more than failures have been counted. The front is the command whose number is the
number of commands that are gone. -/
theorem retry_discipline (clock : ℕ → ℚ) (s : MicroModem)
    (h : Reached (step clock) (quiet clock · ·) {} s) :
    History s.log s.out ∧
      (elements s.log).drop (departed s.log) = s.out ∧
      (∀ i nmea, (i, nmea) ∈ writes s.log → (elements s.log)[i]? = some nmea) ∧
      (writes s.log).Pairwise (fun v w => v.1 ≤ w.1) ∧
      (∀ i, attemptsAt s.log i ≤ retries) ∧
      (s.waitingForModem = true → s.out ≠ [] ∧ 1 ≤ attemptsAt s.log (departed s.log) ∧
        attemptsAt s.log (departed s.log) ≤ s.presentFailCount + 1) := by
  have hs : Disciplined s := h.invariant disciplined_new fun _ c hs hc => step_disciplined c hs hc
  obtain ⟨gone, hlen, hall⟩ := hs.history.elements_eq
  refine ⟨hs.history, ?_, fun i nmea => hs.history.getElem?_elements, pairwise_writes s.log,
    hs.history.attemptsAt_le hs.bounded, ?_⟩
  · rw [hall, ← hlen, List.drop_left]
  · rw [hs.history.attemptsAt_departed]
    exact hs.waiting

def slowClock (n : ℕ) : ℚ := 10 * n

/-- The modem does not answer: the command is written three times and then given up. -/
theorem retry_discipline_sample :
    (performAll (step slowClock) [.append cccfq, .append cccyc, .trySend, .trySend, .trySend] {}).log =
        [.queued cccfq, .wrote cccfq, .queued cccyc, .wrote cccfq, .wrote cccfq,
          .left cccfq .retriesExceeded, .wrote cccyc] ∧
      ∀ i, attemptsAt (performAll (step slowClock) [.append cccfq, .append cccyc, .trySend, .trySend,
        .trySend] {}).log i ≤ retries := by
  refine ⟨by decide +kernel, ?_⟩
  exact (retry_discipline slowClock _ (Reached.start.performAll (by decide +kernel))).2.2.2.2.1

end Goby.MicroModem
