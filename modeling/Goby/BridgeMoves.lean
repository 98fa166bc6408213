import Goby.BridgeApplication
import Mathlib.Logic.Relation

/-! Between two checks of the time, whatever the bridge does is a sequence of moves. A move records at
most one message that was received, and of the pending commands it changes no more than the one
that it is about. -/

namespace Goby.Bridge

/-- A single move. The receptions that matter to a time update are subject to a condition on the
state in which they are examined. -/
inductive Move (allowed : Bridge → BridgeReception → Prop) : Bridge → Bridge → Prop
  | route (s : Bridge) (cfg : RouteManagerConfig) : Move allowed s { s with routeCfg := cfg }
  | read (s : Bridge) : Move allowed s { s with readings := s.readings + 1 }
  | command (s : Bridge) (c : HardwareControlCommand) :
      Move allowed s (record (.commanded c) { s with pendingHwCtl := some (withDest c) })
  | request (s : Bridge) (modemId : ℤ) (request : TimeUpdateRequest) :
      Move allowed s (record (.requested request)
        { s with
          pendingTimeUpdate := some (responseTo modemId request)
          timeUpdateRequestTime := request.time })
  | forward (s : Bridge) (inQueue : ℕ) {message : RoutedMessage}
      (h : ∀ ack, message ≠ .networkAck ack) : Move allowed s (record (.routed inQueue message) s)
  | receive (s : Bridge) (r : BridgeReception) : Move allowed s (record (.received r) s)
  | measure (s : Bridge) {r : BridgeReception} {p : TimeUpdateResponse} (hp : s.pendingTimeUpdate = some p)
      (hr : isPingReply r.message = true) (hallowed : allowed s r) :
      Move allowed s (record (.received r)
        { s with pendingTimeUpdate := some (measured r.message p) })
  | acknowledge (s : Bridge) {r : BridgeReception} {p : TimeUpdateResponse}
      (hp : s.pendingTimeUpdate = some p) (hr : isFirstFrameAck r.message = true)
      (htimed : p.timeOfFlightMicrosec.isSome = true) (hallowed : allowed s r)
      {left : Option TimeUpdateResponse} (hleft : left = none ∨ left = some p) :
      Move allowed s (record (.routed r.inQueue
          (.networkAck (timeUpdateNetworkAck p s.timeUpdateRequestTime .ack)))
        (record (.received r) { s with pendingTimeUpdate := left }))
  | control (s : Bridge) (inQueue : ℕ) {c : HardwareControlCommand} (hc : s.pendingHwCtl = some c)
      {left : Option HardwareControlCommand} (hleft : left = none ∨ left = some c) :
      Move allowed s (record (.routed inQueue (.networkAck (hwCtlNetworkAck c .ack)))
        { s with pendingHwCtl := left })
  | transmit (s : Bridge) (subnet : ℕ) {t : MicroModemTransmission}
      (h : ∀ p, s.pendingTimeUpdate = some p → t.type = .data → t.destD ≠ p.dest) :
      Move allowed s (record (.transmitted subnet t none) s)
  | stamp (s : Bridge) {p : TimeUpdateResponse} (now : ℕ) (hp : s.pendingTimeUpdate = some p)
      (htimed : p.timeOfFlightMicrosec.isSome = true) :
      Move allowed s (record (.stamped { p with time := now })
        { s with pendingTimeUpdate := some { p with time := now } })
  | respond (s : Bridge) {p : TimeUpdateResponse} (subnet : ℕ) (m : MicroModemTransmission)
      (bytes : Bytes) (hp : s.pendingTimeUpdate = some p)
      (htimed : p.timeOfFlightMicrosec.isSome = true) :
      Move allowed s (record (.transmitted subnet (dataFor p m bytes) (some p)) s)

def Moves (allowed : Bridge → BridgeReception → Prop) : Bridge → Bridge → Prop :=
  Relation.ReflTransGen (Move allowed)

variable {env : BridgeEnv} {allowed : Bridge → BridgeReception → Prop} {s s' : Bridge}
  {r : BridgeReception}

instance : IsPreorder Bridge (Moves allowed) where
  refl _ := .refl
  trans _ _ _ := .trans

theorem Move.moves (h : Move allowed s s') : Moves allowed s s' := .single h

theorem Moves.invariant {P : Bridge → Prop} (h : Moves allowed s s') (hs : P s)
    (hmove : ∀ s s', Move allowed s s' → P s → P s') : P s' := by
  induction h with
  | refl => exact hs
  | tail _ hlast ih => exact hmove _ _ hlast ih

theorem handleQueueReceive_moves (fromQueue : ℕ) (msg : QueueMessage) :
    Moves allowed s (handleQueueReceive env fromQueue msg s) := by
  cases msg with
  | routeCommand newRoute => exact (Move.route s _).moves
  | hardwareControlCommand c => exact (Move.command s c).moves
  | timeUpdateRequest request => exact (Move.request s _ request).moves
  | other => exact .refl

theorem handleAll_moves (delivered : List (ℕ × QueueMessage)) :
    Moves allowed s (handleAll env delivered s) := by
  induction delivered generalizing s with
  | nil => exact .refl
  | cons d delivered ih => exact (handleQueueReceive_moves d.1 d.2).trans ih

theorem readClock_moves : Guarantees (Moves allowed) (readClock env) :=
  fun s => (Move.read s).moves

theorem initiateOther_moves {m : MicroModemTransmission} (subnet : ℕ)
    (h : ∀ p, s.pendingTimeUpdate = some p → m.destD ≠ p.dest) :
    Moves allowed s (finalState (initiateOther m subnet) s) := by
  have hother : Move allowed s (record (.transmitted subnet m none) s) :=
    .transmit s subnet fun p hp _ => h p hp
  apply Ensures.finalState
  apply Ensures.get_bind
  split
  · exact Ensures.modify hother.moves
  · next c hc =>
    split_ifs
    · have hcontrol : Move allowed s (record (.transmitted subnet (controlFor c m) none) s) :=
        .transmit s subnet fun _ _ htype => by cases htype
      exact Ensures.modify hcontrol.moves
    · exact Ensures.modify hother.moves

theorem sendResponse_moves {p : TimeUpdateResponse} (m : MicroModemTransmission) (subnet : ℕ)
    (hp : s.pendingTimeUpdate = some p) (htimed : p.timeOfFlightMicrosec.isSome = true) :
    Moves allowed s (finalState (sendResponse env p m subnet) s) := by
  have hread : Moves allowed s { s with readings := s.readings + 1 } := (Move.read s).moves
  have hstamped := hread.tail (.stamp _ (env.clock s.readings) hp htimed)
  apply Ensures.finalState
  apply Ensures.bind
  refine Ensures.of_run rfl ?_
  apply Ensures.modify_bind
  split
  · exact Ensures.throw hstamped
  · next bytes _ => exact Ensures.modify (hstamped.tail (.respond _ subnet m bytes rfl htimed))

theorem handleInitiateTransmission_moves (m : MicroModemTransmission) (subnet : ℕ) :
    Guarantees (Moves allowed) (handleInitiateTransmission env m subnet) := by
  apply Guarantees.get_bind
  intro s
  cases hp : s.pendingTimeUpdate with
  | none => exact .of_finalState (initiateOther_moves subnet (by simp [hp]))
  | some p =>
    dsimp only
    split_ifs with hsuits htimed
    · exact .of_finalState (sendResponse_moves m subnet hp htimed)
    · have hping : Move allowed s (record (.transmitted subnet (pingFor p m) none) s) :=
        .transmit s subnet fun _ _ htype => by cases htype
      exact Ensures.modify hping.moves
    · refine .of_finalState (initiateOther_moves subnet fun q hq => ?_)
      obtain rfl : p = q := Option.some.inj (hp.symm.trans hq)
      intro hdest
      exact hsuits (by simp [suits, hdest])

theorem doWork_moves (work : List Work) : Guarantees (Moves allowed) (doWork env work) := by
  induction work with
  | nil => exact Guarantees.pure _
  | cons w work ih =>
    cases w with
    | receive fromQueue msg =>
      exact (Guarantees.modify fun _ => handleQueueReceive_moves fromQueue msg).bind fun _ => ih
    | initiate m subnet => exact (handleInitiateTransmission_moves m subnet).bind fun _ => ih

theorem forward_moves (inQueue : ℕ) {message : RoutedMessage} (h : ∀ ack, message ≠ .networkAck ack) :
    Guarantees (Moves allowed) (routeIn env inQueue message) := by
  apply Guarantees.get_bind
  intro s
  have hforward : Moves allowed s (record (.routed inQueue message) s) :=
    (Move.forward s inQueue h).moves
  split
  · exact Ensures.throw .refl
  · exact Ensures.bind (Ensures.modify (Ensures.throw hforward))
  · exact Ensures.modify hforward

theorem forwardStatistics_moves (inQueue n : ℕ) :
    Guarantees (Moves allowed) (forwardStatistics env inQueue n) := by
  induction n with
  | zero => exact Guarantees.pure _
  | succ n ih => exact (forward_moves inQueue (by rintro _ ⟨⟩)).bind fun _ => ih

theorem passOn_moves (r : BridgeReception) : Guarantees (Moves allowed) (passOn env r) := by
  refine (Guarantees.modify fun _ => handleAll_moves r.delivered).bind fun _ => ?_
  split
  · exact Guarantees.throw _
  · refine (forwardStatistics_moves _ _).bind fun _ => ?_
    unfold forwardRanging
    split
    · exact Guarantees.pure _
    · split_ifs
      · exact forward_moves r.inQueue (by rintro _ ⟨⟩)
      · exact Guarantees.pure _

/-- The network ack is made unless there are no metadata for it, and the command is dropped unless
`handle_in` throws. -/
theorem endTimeUpdate_cases (inQueue : ℕ) (p : TimeUpdateResponse) (type : AckType) (s : Bridge) :
    finalState (endTimeUpdate env inQueue p type) s = s ∨
      ∃ left, (left = none ∨ left = s.pendingTimeUpdate) ∧
        finalState (endTimeUpdate env inQueue p type) s =
          record (.routed inQueue (.networkAck (timeUpdateNetworkAck p s.timeUpdateRequestTime type)))
            { s with pendingTimeUpdate := left } := by
  cases hrouting : env.routing s.log.length inQueue
      (.networkAck (timeUpdateNetworkAck p s.timeUpdateRequestTime type)) with
  | noMeta => exact .inl (by simp [finalState, endTimeUpdate, routeIn, hrouting])
  | fails =>
    exact .inr ⟨_, .inr rfl, by simp [finalState, endTimeUpdate, routeIn, hrouting]⟩
  | returns =>
    exact .inr ⟨none, .inl rfl, by simp [finalState, endTimeUpdate, routeIn, hrouting, record]⟩

theorem endHwCtl_cases (inQueue : ℕ) (c : HardwareControlCommand) (type : AckType) (s : Bridge) :
    finalState (endHwCtl env inQueue c type) s = s ∨
      ∃ left, (left = none ∨ left = s.pendingHwCtl) ∧
        finalState (endHwCtl env inQueue c type) s =
          record (.routed inQueue (.networkAck (hwCtlNetworkAck c type)))
            { s with pendingHwCtl := left } := by
  cases hrouting : env.routing s.log.length inQueue (.networkAck (hwCtlNetworkAck c type)) with
  | noMeta => exact .inl (by simp [finalState, endHwCtl, routeIn, hrouting])
  | fails => exact .inr ⟨_, .inr rfl, by simp [finalState, endHwCtl, routeIn, hrouting]⟩
  | returns => exact .inr ⟨none, .inl rfl, by simp [finalState, endHwCtl, routeIn, hrouting, record]⟩

theorem checkTimeUpdate_moves (h : allowed s r) :
    Moves allowed s (finalState (checkTimeUpdate env r) (record (.received r) s)) := by
  have hreceive : Moves allowed s (record (.received r) s) := (Move.receive s r).moves
  apply Ensures.finalState
  apply Ensures.get_bind
  cases hp : (record (.received r) s).pendingTimeUpdate with
  | none => exact Ensures.pure hreceive
  | some p =>
    dsimp only
    split_ifs with hping hack
    · exact Ensures.modify (Move.measure s hp hping h).moves
    · obtain ⟨hfirst, htimed⟩ := Bool.and_eq_true_iff.mp hack
      apply Ensures.of_finalState
      obtain hsame | ⟨left, hleft, hend⟩ :=
        @endTimeUpdate_cases env r.inQueue p .ack (record (.received r) s)
      · rwa [hsame]
      · rw [hp] at hleft
        rw [hend]
        exact (Move.acknowledge s hp hfirst htimed h hleft).moves
    · exact Ensures.pure hreceive

theorem checkHwCtl_moves (r : BridgeReception) : Guarantees (Moves allowed) (checkHwCtl env r) := by
  apply Guarantees.get_bind
  intro s
  cases hc : s.pendingHwCtl with
  | none => exact Ensures.pure .refl
  | some c =>
    dsimp only
    split_ifs
    · apply Ensures.of_finalState
      obtain hsame | ⟨left, hleft, hend⟩ := @endHwCtl_cases env r.inQueue c .ack s
      · rw [hsame]
        exact .refl
      · rw [hc] at hleft
        rw [hend]
        exact (Move.control s r.inQueue hc hleft).moves
    · exact Ensures.pure .refl

theorem examine_moves (h : allowed s r) : Moves allowed s (finalState (examine env r) s) := by
  apply Ensures.finalState
  apply Ensures.modify_bind
  apply Ensures.bind
  have hcheck := Ensures.of_finalState (@checkTimeUpdate_moves env allowed s r h)
  refine hcheck.mono ?_ fun _ _ hs => hs
  intro _ s' hs
  exact ((checkHwCtl_moves r).ensures s').mono (fun _ _ h => hs.trans h) fun _ _ h => hs.trans h

theorem handleModemReceive_moves (h : allowed (finalState (passOn env r) s) r) :
    Moves allowed s (finalState (handleModemReceive env r) s) := by
  have hcaught : finalState (handleModemReceive env r) s =
      finalState (passOn env r >>= fun _ => examine env r) s := by
    unfold finalState handleModemReceive
    rw [run_tryCatch]
    cases (passOn env r >>= fun _ => examine env r) s <;> rfl
  rw [hcaught]
  have hpass := (@passOn_moves env allowed r) s
  cases hrun : passOn env r s with
  | ok a s' =>
    have hstate : finalState (passOn env r) s = s' := by simp [finalState, hrun]
    rw [hstate] at h hpass
    have hbind : finalState (passOn env r >>= fun _ => examine env r) s =
        finalState (examine env r) s' := by simp [finalState, hrun]
    rw [hbind]
    exact hpass.trans (examine_moves h)
  | error e s' =>
    have hstate : finalState (passOn env r >>= fun _ => examine env r) s =
        finalState (passOn env r) s := by simp [finalState, hrun]
    rw [hstate]
    exact hpass

end Goby.Bridge
