import Goby.BridgeMoves
import Goby.CallRuns
import Goby.LatestEvents

/-! The sender of a request for a time update is told of an ack if the node has acknowledged the
response, and the response has a time of flight that was measured with that node. The bridge looks
neither at the source of a ping reply nor at that of an ack, so that this depends on the traffic. -/

namespace Goby.Bridge

def requestOf : BridgeEvent → Option TimeUpdateRequest
  | .requested request => some request
  | _ => none

def isTransmitted : BridgeEvent → Bool
  | .transmitted _ _ _ => true
  | _ => false

def transmissions (log : List BridgeEvent) : ℕ := log.countP isTransmitted

def requestAck (request : TimeUpdateRequest) (type : AckType) : NetworkAck where
  ackSrc := request.updateTimeForId
  messageDcclId := timeUpdateRequestId
  messageSrc := request.src
  messageDest := request.updateTimeForId
  messageTime := request.time
  ackType := type

def Answers (response : TimeUpdateResponse) (request : TimeUpdateRequest) : Prop :=
  response.dest = request.updateTimeForId ∧ response.requestSrc = request.src

def FlightMeasured (request : TimeUpdateRequest) (events : List BridgeEvent) (flight : Option ℕ) : Prop :=
  ∃ r t rest, .received r ∈ events ∧ isPingReply r.message = true ∧
    r.message.src = request.updateTimeForId ∧ travelTimes r.message = t :: rest ∧
    flight = some (toUint64 (t * 1000000))

/-- A response to the request has been transmitted, and then the node's ack for it received. -/
def Acknowledged (before : List BridgeEvent) (request : TimeUpdateRequest) : Prop :=
  ∃ first subnet t response rest events r,
    before = first ++ .transmitted subnet t (some response) :: rest ∧
    since requestOf first = some (request, events) ∧ (∀ e ∈ rest, requestOf e = none) ∧
    Answers response request ∧ .received r ∈ rest ∧ r.message.type = .ack ∧
    r.message.src = request.updateTimeForId ∧ r.acknowledges = some (transmissions first)

def Justified (before : List BridgeEvent) : BridgeEvent → Prop
  | .routed _ (.networkAck ack) => ack.ackType = .ack → ack.messageDcclId = timeUpdateRequestId →
      ∃ request events, since requestOf before = some (request, events) ∧
        ack = requestAck request .ack ∧ Acknowledged before request
  | .transmitted _ _ (some response) => ∃ request events,
      since requestOf before = some (request, events) ∧ Answers response request ∧
        FlightMeasured request events response.timeOfFlightMicrosec
  | _ => True

/-- Every network ack for a time update and every response that is transmitted is justified by
what was before. -/
def Sound (log : List BridgeEvent) : Prop :=
  ∀ before e after, log = before ++ e :: after → Justified before e

/-- The ack is for a data transmission to the node that was made since the latest request. -/
def AcksData (log : List BridgeEvent) (dest : ℤ) (r : BridgeReception) : Prop :=
  ∃ first subnet t response rest, log = first ++ .transmitted subnet t response :: rest ∧
    (since requestOf first).isSome = true ∧ (∀ e ∈ rest, requestOf e = none) ∧ t.type = .data ∧
    t.destD = dest ∧ r.acknowledges = some (transmissions first)

/-- While a time update is pending, ping replies and acks come from the node, and these for data
that was sent to it since the request. -/
def Undisturbed (s : Bridge) (r : BridgeReception) : Prop :=
  ∀ p, s.pendingTimeUpdate = some p →
    (isPingReply r.message = true → travelTimes r.message ≠ [] → r.message.src = p.dest) ∧
    (isFirstFrameAck r.message = true → p.timeOfFlightMicrosec.isSome = true →
      r.message.src = p.dest ∧ AcksData s.log p.dest r)

def UndisturbedCall (env : BridgeEnv) (s : Bridge) : Call → Prop
  | .modemReceive r => Undisturbed (finalState (passOn env r) s) r
  | _ => True

def UndisturbedRun (env : BridgeEnv) : List Call → Bridge → Prop
  | [], _ => True
  | c :: calls, s => UndisturbedCall env s c ∧ UndisturbedRun env calls (step env c s)

section Invariant

variable {log : List BridgeEvent} {time : ℕ} {request : TimeUpdateRequest} {events : List BridgeEvent}
  {p : TimeUpdateResponse} {e : BridgeEvent} {r : BridgeReception}

theorem Sound.concat (h : Sound log) (he : Justified log e) : Sound (log ++ [e]) :=
  forall_events_concat h he

theorem FlightMeasured.mono {events' : List BridgeEvent} {flight : Option ℕ}
    (h : FlightMeasured request events flight) (hsub : events ⊆ events') :
    FlightMeasured request events' flight := by
  obtain ⟨r, t, rest, hr, hfacts⟩ := h
  exact ⟨r, t, rest, hsub hr, hfacts⟩

structure Tracks (log : List BridgeEvent) (time : ℕ) (request : TimeUpdateRequest)
    (events : List BridgeEvent) (p : TimeUpdateResponse) : Prop where
  since_eq : since requestOf log = some (request, events)
  answers : Answers p request
  time_eq : time = request.time
  flight : p.timeOfFlightMicrosec.isSome = true →
    FlightMeasured request events p.timeOfFlightMicrosec
  data : ∀ subnet t response, .transmitted subnet t response ∈ events → t.type = .data →
    t.destD = p.dest → ∃ q, response = some q ∧ Answers q request

theorem Tracks.concat (h : Tracks log time request events p) (hstart : requestOf e = none)
    (hdata : ∀ subnet t response, e = .transmitted subnet t response → t.type = .data →
      t.destD = p.dest → ∃ q, response = some q ∧ Answers q request) :
    Tracks (log ++ [e]) time request (events ++ [e]) p where
  since_eq := by rw [since_concat hstart, h.since_eq, Option.map_some]
  answers := h.answers
  time_eq := h.time_eq
  flight htimed := (h.flight htimed).mono (List.subset_append_left _ _)
  data subnet t response hmem htype hdest := by
    rcases List.mem_append.mp hmem with hmem | hmem
    · exact h.data subnet t response hmem htype hdest
    · exact hdata subnet t response (List.mem_singleton.mp hmem).symm htype hdest

theorem Tracks.other (h : Tracks log time request events p) (hstart : requestOf e = none)
    (he : isTransmitted e = false) : Tracks (log ++ [e]) time request (events ++ [e]) p := by
  refine h.concat hstart ?_
  rintro subnet t response rfl
  cases he

theorem Tracks.measured (h : Tracks log time request events p)
    (hping : isPingReply r.message = true)
    (hsrc : travelTimes r.message ≠ [] → r.message.src = p.dest) :
    Tracks (log ++ [.received r]) time request (events ++ [.received r]) (measured r.message p) := by
  have hreceived : Tracks (log ++ [.received r]) time request (events ++ [.received r]) p :=
    h.other rfl rfl
  cases htimes : travelTimes r.message with
  | nil => simpa [Bridge.measured, htimes] using hreceived
  | cons t rest =>
    have hnode := (hsrc (by simp [htimes])).trans h.answers.1
    have hflight : FlightMeasured request (events ++ [.received r]) (some (toUint64 (t * 1000000))) :=
      ⟨r, t, rest, by simp, hping, hnode, htimes, rfl⟩
    simp only [Bridge.measured, htimes]
    exact ⟨hreceived.since_eq, hreceived.answers, hreceived.time_eq, fun _ => hflight, hreceived.data⟩

theorem Answers.ack_eq (h : Answers p request) (htime : time = request.time) (type : AckType) :
    timeUpdateNetworkAck p time type = requestAck request type := by
  simp [timeUpdateNetworkAck, requestAck, h.1, h.2, htime]

/-- Data that was sent to the node since the request is a response. -/
theorem Tracks.acknowledged (h : Tracks log time request events p)
    (htype : r.message.type = .ack) (hsrc : r.message.src = p.dest) (hdata : AcksData log p.dest r) :
    Acknowledged (log ++ [.received r]) request := by
  obtain ⟨first, subnet, t, response, rest, rfl, hfirst, hrest, htdata, hdest, hnumber⟩ := hdata
  obtain ⟨⟨request', events'⟩, hfirst⟩ := Option.isSome_iff_exists.mp hfirst
  have hsince : since requestOf (first ++ .transmitted subnet t response :: rest) =
      some (request', events' ++ .transmitted subnet t response :: rest) := by
    rw [since_append (List.forall_mem_cons.mpr ⟨rfl, hrest⟩), hfirst, Option.map_some]
  obtain ⟨rfl, rfl⟩ := Prod.mk.inj (Option.some.inj (hsince.symm.trans h.since_eq))
  obtain ⟨q, rfl, hanswers⟩ := h.data subnet t response (by simp) htdata hdest
  refine ⟨first, subnet, t, q, rest ++ [.received r], events', r, by simp, hfirst, ?_, hanswers, by simp,
    htype, hsrc.trans h.answers.1, hnumber⟩
  exact List.forall_mem_append.mpr ⟨hrest, List.forall_mem_singleton.mpr rfl⟩

structure Inv (s : Bridge) : Prop where
  sound : Sound s.log
  pending : ∀ p, s.pendingTimeUpdate = some p →
    ∃ request events, Tracks s.log s.timeUpdateRequestTime request events p

variable {s s' : Bridge}

theorem inv_new : Inv {} := by
  refine ⟨fun before e after hlog => ?_, fun p hp => ?_⟩
  · simp at hlog
  · cases hp

/-- An event that needs no justification and is neither a request nor a transmission. -/
def isNeutral : BridgeEvent → Bool
  | .requested _ => false
  | .transmitted _ _ _ => false
  | .routed _ (.networkAck ack) => ack.ackType ≠ .ack || ack.messageDcclId ≠ timeUpdateRequestId
  | _ => true

theorem justified_of_isNeutral (h : isNeutral e = true) : Justified log e := by
  cases e with
  | routed inQueue message =>
    cases message with
    | networkAck ack =>
      intro htype hid
      simp [isNeutral, htype, hid] at h
    | receiveStatistics => trivial
    | rangingReply ranging => trivial
  | transmitted subnet t response => cases h
  | _ => trivial

theorem Inv.neutral (h : Inv s) (he : isNeutral e = true) {left : Option TimeUpdateResponse}
    (hleft : left = none ∨ left = s.pendingTimeUpdate) :
    Inv (record e { s with pendingTimeUpdate := left }) := by
  have hstart : requestOf e = none := by cases e <;> first | rfl | cases he
  have hother : isTransmitted e = false := by cases e <;> first | rfl | cases he
  refine ⟨h.sound.concat (justified_of_isNeutral he), fun p hp => ?_⟩
  rcases hleft with rfl | rfl
  · cases hp
  · obtain ⟨request, events, ht⟩ := h.pending p hp
    exact ⟨request, events ++ [e], ht.other hstart hother⟩

theorem Inv.move (h : Inv s) (hmove : Move Undisturbed s s') : Inv s' := by
  cases hmove with
  | route cfg => exact ⟨h.sound, h.pending⟩
  | read => exact ⟨h.sound, h.pending⟩
  | command c =>
    have hcommanded := h.neutral (e := .commanded c) rfl (.inr rfl)
    exact ⟨hcommanded.sound, hcommanded.pending⟩
  | request modemId request =>
    refine ⟨h.sound.concat trivial, fun p hp => ?_⟩
    obtain rfl : responseTo modemId request = p := Option.some.inj hp
    refine ⟨request, [], since_concat_of_start rfl, ⟨rfl, rfl⟩, rfl, fun htimed => ?_, ?_⟩
    · cases htimed
    · exact fun _ _ _ hmem => absurd hmem List.not_mem_nil
  | @forward inQueue message hmessage =>
    have hneutral : isNeutral (.routed inQueue message) = true := by
      cases message with
      | networkAck ack => exact absurd rfl (hmessage ack)
      | receiveStatistics => rfl
      | rangingReply ranging => rfl
    exact h.neutral hneutral (.inr rfl)
  | receive r => exact h.neutral (e := .received r) rfl (.inr rfl)
  | @measure r p hp hr hallowed =>
    refine ⟨h.sound.concat trivial, fun p' hp' => ?_⟩
    obtain rfl : measured r.message p = p' := Option.some.inj hp'
    obtain ⟨request, events, ht⟩ := h.pending p hp
    exact ⟨request, _, ht.measured hr ((hallowed p hp).1 hr)⟩
  | @acknowledge r p hp hr htimed hallowed left hleft =>
    obtain ⟨request, events, ht⟩ := h.pending p hp
    obtain ⟨hsrc, hdata⟩ := (hallowed p hp).2 hr htimed
    have htype : r.message.type = .ack := of_decide_eq_true (Bool.and_eq_true_iff.mp hr).1
    have hreceived : Tracks (s.log ++ [.received r]) s.timeUpdateRequestTime request
        (events ++ [.received r]) p := ht.other rfl rfl
    have hsound : Sound (s.log ++ [.received r]) := h.sound.concat trivial
    refine ⟨hsound.concat fun _ _ => ?_, fun p' hp' => ?_⟩
    · exact ⟨request, _, hreceived.since_eq, ht.answers.ack_eq ht.time_eq .ack, ht.acknowledged htype hsrc hdata⟩
    · rcases hleft with rfl | rfl
      · cases hp'
      · obtain rfl : p = p' := Option.some.inj hp'
        exact ⟨request, _, hreceived.other rfl rfl⟩
  | @control inQueue c hc left hleft =>
    have hack := h.neutral (e := .routed inQueue (.networkAck (hwCtlNetworkAck c .ack))) rfl (.inr rfl)
    exact ⟨hack.sound, hack.pending⟩
  | @transmit subnet t hother =>
    refine ⟨h.sound.concat trivial, fun p hp => ?_⟩
    obtain ⟨request, events, ht⟩ := h.pending p hp
    refine ⟨request, _, ht.concat rfl ?_⟩
    rintro _ _ _ ⟨⟩ htype hdest
    exact absurd hdest (hother p hp htype)
  | @stamp p now hp htimed =>
    refine ⟨h.sound.concat trivial, fun p' hp' => ?_⟩
    obtain rfl := Option.some.inj hp'
    obtain ⟨request, events, ht⟩ := h.pending p hp
    have hstamped : Tracks _ _ _ _ p := ht.other (e := .stamped { p with time := now }) rfl rfl
    exact ⟨request, _, hstamped.since_eq, hstamped.answers, hstamped.time_eq, hstamped.flight,
      hstamped.data⟩
  | @respond p subnet m bytes hp htimed =>
    obtain ⟨request, events, ht⟩ := h.pending p hp
    refine ⟨h.sound.concat ⟨request, events, ht.since_eq, ht.answers, ht.flight htimed⟩, fun p' hp' => ?_⟩
    obtain rfl : p = p' := Option.some.inj (hp.symm.trans hp')
    refine ⟨request, _, ht.concat rfl ?_⟩
    rintro _ _ _ ⟨⟩ _ _
    exact ⟨p, rfl, ht.answers⟩

theorem Inv.moves (h : Inv s) (hmoves : Moves Undisturbed s s') : Inv s' :=
  hmoves.invariant h fun _ _ hmove hs => hs.move hmove

end Invariant

section Runs

variable {env : BridgeEnv} {s : Bridge} {α : Type}

theorem guarantees_inv {m : BridgeM α} (h : Guarantees (Moves Undisturbed) m) :
    Guarantees (Preserves Inv) m := h.mono fun _ _ hmoves hs => hs.moves hmoves

theorem expireHwCtl_inv (now : ℕ) : Guarantees (Preserves Inv) (expireHwCtl env now) := by
  apply Guarantees.get_bind
  intro s
  apply Ensures.of_finalState
  intro hs
  split
  · exact hs
  · next c hc =>
    split_ifs
    · obtain hsame | ⟨left, -, hend⟩ := @endHwCtl_cases env 0 c .expire s
      · rwa [hsame]
      · have hack := hs.neutral (e := .routed 0 (.networkAck (hwCtlNetworkAck c .expire))) rfl (.inr rfl)
        rw [hend]
        exact ⟨hack.sound, hack.pending⟩
    · exact hs

theorem expireTimeUpdate_inv (now : ℕ) : Guarantees (Preserves Inv) (expireTimeUpdate env now) := by
  apply Guarantees.get_bind
  intro s
  apply Ensures.of_finalState
  intro hs
  split
  · exact hs
  · next p hp =>
    split_ifs
    · obtain hsame | ⟨left, hleft, hend⟩ := @endTimeUpdate_cases env 0 p .expire s
      · rwa [hsame]
      · rw [hend]
        exact hs.neutral rfl hleft
    · exact hs

theorem loop_inv (work : List Work) : Guarantees (Preserves Inv) (loop env work) := by
  refine (guarantees_inv (doWork_moves work)).bind fun _ => ?_
  refine (guarantees_inv readClock_moves).bind fun now => ?_
  have hlooped : Guarantees (Preserves Inv) (modify (record (.looped now)) : BridgeM Unit) :=
    Guarantees.modify fun s hs => hs.neutral rfl (.inr rfl)
  exact hlooped.bind fun _ => (expireHwCtl_inv now).bind fun _ => expireTimeUpdate_inv now

theorem step_inv {c : Call} (h : Inv s) (hc : UndisturbedCall env s c) :
    Inv (step env c s) := by
  cases c with
  | queueReceive fromQueue msg => exact h.moves (handleQueueReceive_moves fromQueue msg)
  | modemReceive r => exact h.moves (handleModemReceive_moves hc)
  | loop work => exact loop_inv work s h

theorem performAll_inv {calls : List Call} (h : Inv s)
    (hcalls : UndisturbedRun env calls s) : Inv (performAll (step env) calls s) := by
  induction calls generalizing s with
  | nil => exact h
  | cons c calls ih => exact ih (step_inv h hcalls.1) hcalls.2

end Runs

def sampleEnv : BridgeEnv where
  modemId _ := 1
  clock n := 1000000 * n
  encode _ := some [5]
  routing _ _ _ := .returns

def updateForFive : Call :=
  .queueReceive 0 (.timeUpdateRequest
    { src := 1
      time := 0
      updateTimeForId := 5 })

def initiateTo (dest : ℤ) : Call := .loop [.initiate { dest := some dest, type := .data } 0]

def pingReply (src : ℤ) (travelTime : ℚ) : BridgeReception where
  inQueue := 0
  message :=
    { src := src
      type := .driverSpecific
      microModemType := .twoWayPing
      rangingReply := some { oneWayTravelTime := [travelTime] } }

def ackFrom (src : ℤ) (number : ℕ) : BridgeReception where
  inQueue := 0
  message :=
    { src := src
      type := .ack
      ackedFrame := [0] }
  acknowledges := some number

theorem undisturbed_of_pending {s : Bridge} {r : BridgeReception} {p : TimeUpdateResponse}
    (hp : s.pendingTimeUpdate = some p) (hsrc : r.message.src = p.dest)
    (hack : isFirstFrameAck r.message = true → AcksData s.log p.dest r) : Undisturbed s r := by
  intro q hq
  obtain rfl : p = q := Option.some.inj (hp.symm.trans hq)
  exact ⟨fun _ _ => hsrc, fun hfirst _ => ⟨hsrc, hack hfirst⟩⟩

/-- The node is pinged, the time is sent to it, and it acknowledges the second transmission. -/
def sampleUpdate : List Call :=
  [updateForFive, initiateTo 5, .modemReceive (pingReply 5 2), initiateTo 5,
    .modemReceive (ackFrom 5 1)]

theorem sampleUpdate_undisturbed : UndisturbedRun sampleEnv sampleUpdate {} := by
  refine ⟨trivial, trivial, ?_, trivial, ?_, trivial⟩
  · refine undisturbed_of_pending rfl rfl fun hack => ?_
    cases hack
  · refine undisturbed_of_pending rfl rfl fun _ => ?_
    let log := (performAll (step sampleEnv) (sampleUpdate.take 4) {}).log
    exact ⟨log.take 6, 0, _, _, log.drop 7, rfl, rfl, by decide +kernel, rfl, rfl, rfl⟩

/-- Data for node seven, a request for node five and a ping reply from it, and the ack from node
seven for the data. -/
def strangeAck : List Call :=
  [initiateTo 7, updateForFive, .modemReceive (pingReply 5 2), .modemReceive (ackFrom 7 0)]

def strangePing : List Call := [updateForFive, .modemReceive (pingReply 7 2), initiateTo 5]

def responseIn : BridgeEvent → Option TimeUpdateResponse
  | .transmitted _ _ response => response
  | _ => none

def sourceOf : BridgeEvent → Option ℤ
  | .received r => some r.message.src
  | _ => none

theorem Acknowledged.exists_response {before : List BridgeEvent} {request : TimeUpdateRequest}
    (h : Acknowledged before request) : before.filterMap responseIn ≠ [] := by
  obtain ⟨first, subnet, t, response, rest, events, r, rfl, -⟩ := h
  simp [responseIn]

theorem FlightMeasured.mem_sources {request : TimeUpdateRequest} {events : List BridgeEvent}
    {flight : Option ℕ} (h : FlightMeasured request events flight) :
    request.updateTimeForId ∈ events.filterMap sourceOf := by
  obtain ⟨r, t, rest, hr, -, hsrc, -⟩ := h
  exact List.mem_filterMap.mpr ⟨.received r, hr, congrArg some hsrc⟩

/-- In undisturbed traffic, the sender of a request is told of an ack only after the node has
acknowledged a response, whose time of flight was measured with the node. -/
theorem sound_of_undisturbed {env : BridgeEnv} {calls : List Call}
    (h : UndisturbedRun env calls {}) : Sound (performAll (step env) calls {}).log :=
  (performAll_inv inv_new h).sound

theorem sound_sampleUpdate :
    UndisturbedRun sampleEnv sampleUpdate {} ∧
      Sound (performAll (step sampleEnv) sampleUpdate {}).log ∧
      (performAll (step sampleEnv) sampleUpdate {}).pendingTimeUpdate = none :=
  ⟨sampleUpdate_undisturbed, sound_of_undisturbed sampleUpdate_undisturbed, by decide +kernel⟩

/-- The sender is told of an ack although no response has been transmitted, and a response has the
time of flight of another node. -/
theorem not_sound :
    ¬ Sound (performAll (step sampleEnv) strangeAck {}).log ∧
      ¬ Sound (performAll (step sampleEnv) strangePing {}).log := by
  constructor
  · intro h
    let log := (performAll (step sampleEnv) strangeAck {}).log
    obtain ⟨request, events, -, -, hacked⟩ := h (log.take 6) _ [] rfl rfl rfl
    exact hacked.exists_response (by decide +kernel)
  · intro h
    let log := (performAll (step sampleEnv) strangePing {}).log
    obtain ⟨request, events, hsince, -, hflight⟩ := h (log.take 4) _ (log.drop 5) rfl
    have hevents : since requestOf (log.take 4) = some (⟨1, 0, 5⟩, (log.take 4).drop 1) := by
      decide +kernel
    obtain ⟨rfl, rfl⟩ := Prod.mk.inj (Option.some.inj (hevents.symm.trans hsince))
    exact absurd hflight.mem_sources (by decide +kernel)

end Goby.Bridge
