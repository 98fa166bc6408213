import Goby.BridgeTimeUpdates

/-! A pending command that is neither acknowledged nor replaced is dropped by the first loop that
finds it older than the time to live, and its sender is told once. The deadline is computed in
`int`, and for a time update from a field of the pending response that is set again whenever a
response is sent. -/

namespace Goby.Bridge

def commandOf : BridgeEvent → Option HardwareControlCommand
  | .commanded command => some command
  | _ => none

def ackOf (id : ℕ) (type : AckType) : BridgeEvent → Option NetworkAck
  | .routed _ (.networkAck ack) =>
    if ack.messageDcclId = id ∧ ack.ackType = type then some ack else none
  | _ => none

def expiries (id : ℕ) (events : List BridgeEvent) : List NetworkAck :=
  events.filterMap (ackOf id .expire)

def isAcknowledged (id : ℕ) (e : BridgeEvent) : Bool := (ackOf id .ack e).isSome

def isLate (deadline : ℤ) : BridgeEvent → Bool
  | .looped now => deadline < now
  | _ => false

/-- A command is pending up to the first late loop, and is then dropped with one network ack. -/
def EndsOnTime (id : ℕ) (deadline : ℤ) (notice : NetworkAck) (pending : Bool)
    (events : List BridgeEvent) : Prop :=
  if events.any (isLate deadline) then pending = false ∧ expiries id events = [notice]
  else pending = true ∧ expiries id events = []

instance (id : ℕ) (deadline : ℤ) (notice : NetworkAck) (pending : Bool) (events : List BridgeEvent) :
    Decidable (EndsOnTime id deadline notice pending events) :=
  inferInstanceAs (Decidable
    (if events.any (isLate deadline) then pending = false ∧ expiries id events = [notice]
    else pending = true ∧ expiries id events = []))

section OnTime

variable {α : Type} (start : BridgeEvent → Option α) (id : ℕ) (deadline : α → ℤ)
  (notice : α → NetworkAck) (fits : α → Prop) (disturbs : BridgeEvent → Bool)

/-- The latest command ends on time, if it fits and no event since then disturbs it. -/
def OnTime (log : List BridgeEvent) (pending : Bool) : Prop :=
  ∀ a events, since start log = some (a, events) → fits a → events.any disturbs = false →
    EndsOnTime id (deadline a) (notice a) pending events

end OnTime

def deadline (env : BridgeEnv) (time : ℕ) : ℤ := time + env.specialCommandTtl * 1000000

def HwCtlOnTime (env : BridgeEnv) (s : Bridge) : Prop :=
  OnTime commandOf hardwareControlCommandId (fun c => deadline env c.time)
    (fun c => hwCtlNetworkAck (withDest c) .expire) (fun _ => True)
    (isAcknowledged hardwareControlCommandId) s.log s.pendingHwCtl.isSome

def TimeUpdateOnTime (env : BridgeEnv) (s : Bridge) : Prop :=
  OnTime requestOf timeUpdateRequestId (fun request => deadline env request.time)
    (fun request => requestAck request .expire) (fun _ => True) (isAcknowledged timeUpdateRequestId)
    s.log s.pendingTimeUpdate.isSome

section Events

variable {id : ℕ} {pending : Bool} {e : BridgeEvent} {limit : ℤ} {ack : NetworkAck}
  {events : List BridgeEvent}

def isQuiet (id : ℕ) : BridgeEvent → Bool
  | .looped _ => false
  | e => (ackOf id .expire e).isNone

theorem expiries_append (events events' : List BridgeEvent) :
    expiries id (events ++ events') = expiries id events ++ expiries id events' :=
  List.filterMap_append

theorem isLate_of_isQuiet (he : isQuiet id e = true) : isLate limit e = false := by
  cases e <;> first | rfl | cases he

theorem expiries_of_isQuiet (he : isQuiet id e = true) : expiries id [e] = [] := by
  cases e <;> first | rfl | exact List.filterMap_cons_none (Option.isNone_iff_eq_none.mp he)

theorem EndsOnTime.concat (h : EndsOnTime id limit ack pending events) (he : isQuiet id e = true) :
    EndsOnTime id limit ack pending (events ++ [e]) := by
  rw [EndsOnTime, List.any_append, List.any_cons, List.any_nil, isLate_of_isQuiet he, Bool.or_false,
    Bool.or_false, expiries_append, expiries_of_isQuiet he, List.append_nil]
  exact h

theorem EndsOnTime.looped {now : ℕ} {rest : List BridgeEvent}
    (h : EndsOnTime id limit ack pending events) (hrest : rest.any (isLate limit) = false)
    (hidle : pending = false → expiries id rest = [])
    (hdue : pending = true → expiries id rest = if limit < now then [ack] else []) :
    EndsOnTime id limit ack (pending && (expiries id rest).isEmpty) (events ++ .looped now :: rest) := by
  have hlate : (events ++ .looped now :: rest).any (isLate limit) =
      (events.any (isLate limit) || decide (limit < now)) := by
    rw [List.any_append, List.any_cons, hrest, Bool.or_false]
    rfl
  have hexpiries : expiries id (events ++ .looped now :: rest) =
      expiries id events ++ expiries id rest := expiries_append events _
  unfold EndsOnTime at h ⊢
  rw [hlate, hexpiries]
  cases hbefore : events.any (isLate limit) with
  | true =>
    -- it has been dropped earlier
    obtain ⟨rfl, hnotices⟩ := by simpa [hbefore] using h
    simp [hidle rfl, hnotices]
  | false =>
    obtain ⟨rfl, hnone⟩ := by simpa [hbefore] using h
    rw [hdue rfl, hnone]
    by_cases hnow : limit < now <;> simp [hnow]

def routedAcks (acks : List NetworkAck) : List BridgeEvent :=
  acks.map fun ack => .routed 0 (.networkAck ack)

theorem any_isLate_routedAcks (acks : List NetworkAck) : (routedAcks acks).any (isLate limit) = false := by
  refine List.any_eq_false.mpr fun e he => ?_
  obtain ⟨ack, -, rfl⟩ := List.mem_map.mp he
  exact Bool.false_ne_true

theorem expiries_routedAcks (acks : List NetworkAck) : expiries id (routedAcks acks) =
    acks.filter fun ack => ack.messageDcclId = id ∧ ack.ackType = .expire := by
  rw [expiries, routedAcks, List.filterMap_map, ← List.filterMap_eq_filter]
  congr 1
  funext ack
  simp [ackOf, Option.guard]

end Events

/-- The conditions under which the deadline is computed as it is meant. -/
structure TtlFits (env : BridgeEnv) : Prop where
  nonneg : 0 ≤ env.specialCommandTtl
  le : env.specialCommandTtl ≤ 2147

theorem expired_iff {env : BridgeEnv} (h : TtlFits env) {time now : ℕ}
    (htime : deadline env time < 2 ^ 64) : expired env time now = true ↔ deadline env time < now := by
  have := h.nonneg
  have := h.le
  have hproduct : toInt (env.specialCommandTtl * 1000000) = env.specialCommandTtl * 1000000 := by
    rw [toInt, Int.bmod_eq_of_le (by omega) (by omega)]
  have hsum : (time + env.specialCommandTtl * 1000000) % 2 ^ 64 = deadline env time :=
    Int.emod_eq_of_lt (by omega) htime
  rw [expired, decide_eq_true_iff, hproduct, hsum, deadline]
  omega

section Slot

variable {env : BridgeEnv} {β : Type} {now : ℕ} {slot : Option β} {b : β}

def expiredIn (env : BridgeEnv) (now : ℕ) (time : β → ℕ) (slot : Option β) : List β :=
  slot.toList.filter fun b => expired env (time b) now

def leftIn (env : BridgeEnv) (now : ℕ) (time : β → ℕ) (slot : Option β) : Option β :=
  slot.filter fun b => !expired env (time b) now

variable {time : β → ℕ}

section

variable (time : β → ℕ)

theorem expiredIn_none : expiredIn env now time none = [] := rfl

theorem leftIn_none : leftIn env now time none = none := rfl

theorem expiredIn_some (b : β) :
    expiredIn env now time (some b) = if expired env (time b) now then [b] else [] := by
  by_cases h : expired env (time b) now <;> simp [expiredIn, h]

theorem leftIn_some (b : β) :
    leftIn env now time (some b) = if expired env (time b) now then none else some b := by
  by_cases h : expired env (time b) now <;> simp [leftIn, h]

end

theorem eq_some_of_leftIn (h : leftIn env now time slot = some b) : slot = some b :=
  (Option.filter_eq_some_iff.mp h).1

theorem leftIn_isSome (f : β → NetworkAck) : (leftIn env now time slot).isSome =
    (slot.isSome && ((expiredIn env now time slot).map f).isEmpty) := by
  cases slot with
  | none => rfl
  | some b =>
    rw [leftIn_some, expiredIn_some]
    split <;> rfl

theorem map_expiredIn (httl : TtlFits env) {requestTime : ℕ} (htime : time b = requestTime)
    (hfits : deadline env requestTime < 2 ^ 64) (f : β → NetworkAck) :
    (expiredIn env now time (some b)).map f = if deadline env requestTime < now then [f b] else [] := by
  subst htime
  rw [expiredIn_some, apply_ite (List.map f)]
  exact if_congr (expired_iff httl hfits) rfl rfl

end Slot

/-- What starts a command, when it ends, and what the pending one has to do with the events since
it was given. -/
structure Kind (α β : Type) where
  start : BridgeEvent → Option α
  id : ℕ
  limit : α → ℤ
  notice : α → NetworkAck
  disturbs : BridgeEvent → Bool
  content : α → List BridgeEvent → β → Prop
  start_looped : ∀ now, start (.looped now) = none
  start_routed : ∀ ack, start (.routed 0 (.networkAck ack)) = none
  content_append : ∀ {a events new b}, content a events b → content a (events ++ new) b

section Kinds

variable {α β : Type} {k : Kind α β} {log : List BridgeEvent} {slot slot' : Option β}
  {e : BridgeEvent}
  {env : BridgeEnv} {now : ℕ}

structure Kind.Inv (k : Kind α β) (log : List BridgeEvent) (slot : Option β) : Prop where
  onTime : OnTime k.start k.id k.limit k.notice (fun a => k.limit a < 2 ^ 64) k.disturbs log slot.isSome
  describes : ∀ b, slot = some b →
    ∃ a events, since k.start log = some (a, events) ∧ k.content a events b

namespace Kind.Inv

theorem new : k.Inv [] none := by
  refine ⟨fun a events hsince => ?_, fun b hb => ?_⟩
  · cases hsince
  · cases hb

theorem start_concat {a : α} {b : β} (he : k.start e = some a) (hcontent : k.content a [] b) :
    k.Inv (log ++ [e]) (some b) := by
  constructor
  · intro a' events hsince _ _
    rw [since_concat_of_start he] at hsince
    obtain ⟨rfl, rfl⟩ := Prod.mk.inj (Option.some.inj hsince)
    exact ⟨rfl, rfl⟩
  · intro b' hb
    obtain rfl := Option.some.inj hb
    exact ⟨a, [], since_concat_of_start he, hcontent⟩

section

variable (h : k.Inv log slot) (hstart : k.start e = none)
include h hstart

/-- The event is none that ends the command, or it disturbs it. -/
theorem change (he : isQuiet k.id e = true ∧ slot'.isSome = slot.isSome ∨ k.disturbs e = true)
    (hslot : ∀ b', slot' = some b' → ∃ b, slot = some b ∧
      ∀ a events, k.content a events b → k.content a (events ++ [e]) b') :
    k.Inv (log ++ [e]) slot' := by
  constructor
  · intro a events hsince hfits hevents
    rw [since_concat hstart] at hsince
    obtain ⟨⟨a', events'⟩, hlog, heq⟩ := Option.map_eq_some_iff.mp hsince
    obtain ⟨rfl, rfl⟩ := Prod.mk.inj heq
    rw [List.any_append, Bool.or_eq_false_iff] at hevents
    rcases he with ⟨hquiet, hsome⟩ | he
    · rw [hsome]
      exact (h.onTime a' events' hlog hfits hevents.1).concat hquiet
    · simp [he] at hevents
  · intro b' hb'
    obtain ⟨b, hb, hnew⟩ := hslot b' hb'
    obtain ⟨a, events, hsince, hevents⟩ := h.describes b hb
    exact ⟨a, events ++ [e], by rw [since_concat hstart, hsince, Option.map_some], hnew a events hevents⟩

theorem concat (he : isQuiet k.id e = true) : k.Inv (log ++ [e]) slot :=
  h.change hstart (.inl ⟨he, rfl⟩) fun b hb => ⟨b, hb, fun _ _ hcontent => k.content_append hcontent⟩

theorem disturbed (he : k.disturbs e = true)
    (hslot : slot' = none ∨ slot' = slot) : k.Inv (log ++ [e]) slot' := by
  refine h.change hstart (.inr he) fun b hb => ?_
  rcases hslot with rfl | rfl
  · cases hb
  · exact ⟨b, hb, fun _ _ hcontent => k.content_append hcontent⟩

end

theorem looped {time : β → ℕ} {f : β → NetworkAck} {acks acks' : List NetworkAck}
    (h : k.Inv log slot)
    (hacks : expiries k.id (routedAcks acks ++ routedAcks acks') =
      (expiredIn env now time slot).map f)
    (hdue : ∀ a events b, k.content a events b → k.limit a < 2 ^ 64 → events.any k.disturbs = false →
      (expiredIn env now time (some b)).map f = if k.limit a < now then [k.notice a] else []) :
    k.Inv (log ++ .looped now :: (routedAcks acks ++ routedAcks acks')) (leftIn env now time slot) := by
  have hrouted : ∀ acks, ∀ e ∈ routedAcks acks, k.start e = none := by
    intro acks e he
    obtain ⟨ack, -, rfl⟩ := List.mem_map.mp he
    exact k.start_routed ack
  have hstart : ∀ e ∈ .looped now :: (routedAcks acks ++ routedAcks acks'), k.start e = none :=
    List.forall_mem_cons.mpr ⟨k.start_looped now,
      List.forall_mem_append.mpr ⟨hrouted acks, hrouted acks'⟩⟩
  constructor
  · intro a events hsince hfits hevents
    rw [since_append hstart] at hsince
    obtain ⟨⟨a', events'⟩, hlog, heq⟩ := Option.map_eq_some_iff.mp hsince
    obtain ⟨rfl, rfl⟩ := Prod.mk.inj heq
    rw [List.any_append, Bool.or_eq_false_iff] at hevents
    rw [leftIn_isSome f, ← hacks]
    refine (h.onTime a' events' hlog hfits hevents.1).looped ?_ (fun hnone => ?_) fun hsome => ?_
    · rw [List.any_append, any_isLate_routedAcks, any_isLate_routedAcks, Bool.or_false]
    · have hslot : slot = none := Option.isNone_iff_eq_none.mp (by simpa using hnone)
      rw [hacks, hslot]
      rfl
    · obtain ⟨b, rfl⟩ := Option.isSome_iff_exists.mp hsome
      obtain ⟨a'', events'', hsince', hcontent⟩ := h.describes b rfl
      obtain ⟨rfl, rfl⟩ := Prod.mk.inj (Option.some.inj (hsince'.symm.trans hlog))
      rw [hacks]
      exact hdue a'' events'' b hcontent hfits hevents.1
  · intro b hb
    obtain ⟨a, events, hsince, hcontent⟩ := h.describes b (eq_some_of_leftIn hb)
    exact ⟨a, _, by rw [since_append hstart, hsince, Option.map_some], k.content_append hcontent⟩

end Kind.Inv

end Kinds

def isStamped : BridgeEvent → Bool
  | .stamped _ => true
  | _ => false

/-- A time update is also disturbed by a response that is given a new time. -/
def disturbsUpdate (e : BridgeEvent) : Bool := isAcknowledged timeUpdateRequestId e || isStamped e

def hwCtlKind (env : BridgeEnv) : Kind HardwareControlCommand HardwareControlCommand where
  start := commandOf
  id := hardwareControlCommandId
  limit c := deadline env c.time
  notice c := hwCtlNetworkAck (withDest c) .expire
  disturbs := isAcknowledged hardwareControlCommandId
  content c _ pending := pending = withDest c
  start_looped _ := rfl
  start_routed _ := rfl
  content_append h := h

/-- The pending response is to the request and has its time, unless it has been given another. -/
def Keeps (requestTime : ℕ) (request : TimeUpdateRequest) (events : List BridgeEvent)
    (p : TimeUpdateResponse) : Prop :=
  Answers p request ∧ requestTime = request.time ∧
    (events.any isStamped = false → p.time = request.time)

theorem Keeps.append {time : ℕ} {request : TimeUpdateRequest} {events new : List BridgeEvent}
    {p : TimeUpdateResponse} (h : Keeps time request events p) : Keeps time request (events ++ new) p := by
  refine ⟨h.1, h.2.1, fun hevents => h.2.2 ?_⟩
  rw [List.any_append, Bool.or_eq_false_iff] at hevents
  exact hevents.1

def timeUpdateKind (env : BridgeEnv) (requestTime : ℕ) : Kind TimeUpdateRequest TimeUpdateResponse where
  start := requestOf
  id := timeUpdateRequestId
  limit request := deadline env request.time
  notice request := requestAck request .expire
  disturbs := disturbsUpdate
  content := Keeps requestTime
  start_looped _ := rfl
  start_routed _ := rfl
  content_append := Keeps.append

def HwCtlInv (env : BridgeEnv) (s : Bridge) : Prop := (hwCtlKind env).Inv s.log s.pendingHwCtl

def TimeUpdateInv (env : BridgeEnv) (s : Bridge) : Prop :=
  (timeUpdateKind env s.timeUpdateRequestTime).Inv s.log s.pendingTimeUpdate

theorem TimeUpdateInv.onTime {env : BridgeEnv} {s : Bridge} (h : TimeUpdateInv env s) :
    OnTime requestOf timeUpdateRequestId (fun request => deadline env request.time)
      (fun request => requestAck request .expire) (fun request => deadline env request.time < 2 ^ 64)
      disturbsUpdate s.log s.pendingTimeUpdate.isSome :=
  Kind.Inv.onTime h

section Invariants

variable {env : BridgeEnv} {allowed : Bridge → BridgeReception → Prop} {s s' : Bridge}

theorem isQuiet_routed (id inQueue : ℕ) {message : RoutedMessage}
    (h : ∀ ack, message ≠ .networkAck ack) : isQuiet id (.routed inQueue message) = true := by
  cases message with
  | networkAck ack => exact absurd rfl (h ack)
  | receiveStatistics => rfl
  | rangingReply ranging => rfl

theorem HwCtlInv.move (h : HwCtlInv env s) (hmove : Move allowed s s') : HwCtlInv env s' := by
  cases hmove with
  | route cfg => exact h
  | read => exact h
  | command c => exact .start_concat rfl rfl
  | control inQueue hc hleft => exact h.disturbed rfl rfl (hleft.imp_right fun hl => hl.trans hc.symm)
  | @forward inQueue message hmessage => exact h.concat rfl (isQuiet_routed _ inQueue hmessage)
  | request modemId request => exact h.concat rfl rfl
  | receive r => exact h.concat rfl rfl
  | measure => exact h.concat rfl rfl
  | acknowledge => exact (h.concat rfl rfl).concat rfl rfl
  | transmit => exact h.concat rfl rfl
  | stamp => exact h.concat rfl rfl
  | respond => exact h.concat rfl rfl

theorem TimeUpdateInv.move (h : TimeUpdateInv env s) (hmove : Move allowed s s') :
    TimeUpdateInv env s' := by
  cases hmove with
  | route cfg => exact h
  | read => exact h
  | request modemId request => exact .start_concat rfl ⟨⟨rfl, rfl⟩, rfl, fun _ => rfl⟩
  | @measure r p hp hr hallowed =>
    refine h.change rfl (.inl ⟨rfl, by rw [hp]; rfl⟩) fun p' hp' => ⟨p, hp, fun request events hkeeps => ?_⟩
    obtain rfl := Option.some.inj hp'
    have hsame : Keeps s.timeUpdateRequestTime request (events ++ [.received r]) p := hkeeps.append
    unfold measured
    split
    · exact hsame
    · exact hsame
  | @acknowledge r p hp hr htimed hallowed left hleft =>
    have hreceived := h.concat (e := .received r) rfl rfl
    exact hreceived.disturbed rfl rfl (hleft.imp_right fun hl => hl.trans hp.symm)
  | @stamp p now hp =>
    refine h.change rfl (.inr rfl) fun p' hp' => ⟨p, hp, fun request events hkeeps => ?_⟩
    obtain rfl := Option.some.inj hp'
    refine ⟨hkeeps.1, hkeeps.2.1, fun hevents => ?_⟩
    simp [isStamped] at hevents
  | command c => exact h.concat rfl rfl
  | @forward inQueue message hmessage => exact h.concat rfl (isQuiet_routed _ inQueue hmessage)
  | receive r => exact h.concat rfl rfl
  | control => exact h.concat rfl rfl
  | transmit => exact h.concat rfl rfl
  | respond => exact h.concat rfl rfl

end Invariants

section Loops

variable {env : BridgeEnv} {now : ℕ} {s : Bridge}

def hwCtlExpiries (env : BridgeEnv) (now : ℕ) (s : Bridge) : List NetworkAck :=
  (expiredIn env now HardwareControlCommand.time s.pendingHwCtl).map (hwCtlNetworkAck · .expire)

def timeUpdateExpiries (env : BridgeEnv) (now : ℕ) (s : Bridge) : List NetworkAck :=
  (expiredIn env now TimeUpdateResponse.time s.pendingTimeUpdate).map
    (timeUpdateNetworkAck · s.timeUpdateRequestTime .expire)

/-- Every network ack that `loop` makes is routed. -/
def AcksRouted (env : BridgeEnv) : Prop := ∀ n ack, env.routing n 0 (.networkAck ack) = .returns

theorem expireHwCtl_run (h : AcksRouted env) (s : Bridge) :
    expireHwCtl env now s = .ok ()
      { s with
        pendingHwCtl := leftIn env now HardwareControlCommand.time s.pendingHwCtl
        log := s.log ++ routedAcks (hwCtlExpiries env now s) } := by
  cases hc : s.pendingHwCtl with
  | none =>
    simp only [expireHwCtl, hc, hwCtlExpiries, run_bind, run_get, run_pure, expiredIn_none, leftIn_none]
    simp [routedAcks, ← hc]
  | some c =>
    simp only [expireHwCtl, hc, hwCtlExpiries, run_bind, run_get, expiredIn_some, leftIn_some]
    by_cases hexpired : expired env c.time now
    · simp [hexpired, routedAcks, endHwCtl, routeIn, h _ _, record]
    · simp [hexpired, routedAcks, ← hc]

theorem expireTimeUpdate_run (h : AcksRouted env) (s : Bridge) :
    expireTimeUpdate env now s = .ok ()
      { s with
        pendingTimeUpdate := leftIn env now TimeUpdateResponse.time s.pendingTimeUpdate
        log := s.log ++ routedAcks (timeUpdateExpiries env now s) } := by
  cases hp : s.pendingTimeUpdate with
  | none =>
    simp only [expireTimeUpdate, hp, timeUpdateExpiries, run_bind, run_get, run_pure, expiredIn_none,
      leftIn_none]
    simp [routedAcks, ← hp]
  | some p =>
    simp only [expireTimeUpdate, hp, timeUpdateExpiries, run_bind, run_get, expiredIn_some, leftIn_some]
    by_cases hexpired : expired env p.time now
    · simp [hexpired, routedAcks, endTimeUpdate, routeIn, h _ _, record]
    · simp [hexpired, routedAcks, ← hp]

def afterExpiry (env : BridgeEnv) (now : ℕ) (s : Bridge) : Bridge :=
  { s with
    pendingHwCtl := leftIn env now HardwareControlCommand.time s.pendingHwCtl
    pendingTimeUpdate := leftIn env now TimeUpdateResponse.time s.pendingTimeUpdate
    log := s.log ++ .looped now ::
      (routedAcks (hwCtlExpiries env now s) ++ routedAcks (timeUpdateExpiries env now s)) }

theorem finalState_expireCommands (h : AcksRouted env) (s : Bridge) :
    finalState (expireCommands env now) s = afterExpiry env now s := by
  simp [finalState, expireCommands, expireHwCtl_run h, expireTimeUpdate_run h, record, afterExpiry,
    hwCtlExpiries, timeUpdateExpiries]

theorem expiries_hwCtlExpiries (id : ℕ) : expiries id (routedAcks (hwCtlExpiries env now s)) =
    if id = hardwareControlCommandId then hwCtlExpiries env now s else [] := by
  rw [expiries_routedAcks, hwCtlExpiries, List.filter_map]
  split_ifs with hid
  · simp [Function.comp_def, hwCtlNetworkAck, hid]
  · simp [Function.comp_def, hwCtlNetworkAck, Ne.symm hid]

theorem expiries_timeUpdateExpiries (id : ℕ) : expiries id (routedAcks (timeUpdateExpiries env now s)) =
    if id = timeUpdateRequestId then timeUpdateExpiries env now s else [] := by
  rw [expiries_routedAcks, timeUpdateExpiries, List.filter_map]
  split_ifs with hid
  · simp [Function.comp_def, timeUpdateNetworkAck, hid]
  · simp [Function.comp_def, timeUpdateNetworkAck, Ne.symm hid]

theorem HwCtlInv.afterExpiry (h : HwCtlInv env s) (httl : TtlFits env) :
    HwCtlInv env (afterExpiry env now s) := by
  refine Kind.Inv.looped (f := (hwCtlNetworkAck · .expire)) h ?_ fun c events _ hc hfits _ => ?_
  · rw [expiries_append, expiries_hwCtlExpiries, expiries_timeUpdateExpiries]
    exact List.append_nil _
  · obtain rfl := hc
    have htime : (withDest c).time = c.time := rfl
    exact map_expiredIn httl htime hfits _

theorem TimeUpdateInv.afterExpiry (h : TimeUpdateInv env s) (httl : TtlFits env) :
    TimeUpdateInv env (afterExpiry env now s) := by
  refine Kind.Inv.looped (f := (timeUpdateNetworkAck · s.timeUpdateRequestTime .expire)) h ?_
    fun request events p hkeeps hfits hevents => ?_
  · rw [expiries_append, expiries_hwCtlExpiries, expiries_timeUpdateExpiries]
    rfl
  · obtain ⟨hanswers, htime : s.timeUpdateRequestTime = request.time, hunstamped⟩ := hkeeps
    have hstamped : events.any isStamped = false := by
      rw [List.any_eq_false] at hevents ⊢
      intro e he hstamped
      exact hevents e he (by simp [timeUpdateKind, disturbsUpdate, hstamped])
    rw [map_expiredIn httl (hunstamped hstamped) hfits, hanswers.ack_eq htime]
    rfl

section

variable {P : Bridge → Prop} (hacks : AcksRouted env)
  (hmove : ∀ s s', Move (fun _ _ => True) s s' → P s → P s')
  (hexpiry : ∀ now s, P s → P (afterExpiry env now s))
include hacks hmove hexpiry

theorem step_invariant (c : Call) (hs : P s) : P (step env c s) := by
  have hmoves : ∀ {s s'}, Moves (fun _ _ => True) s s' → Preserves P s s' :=
    fun hmoves hs => hmoves.invariant hs hmove
  cases c with
  | queueReceive fromQueue msg => exact hmoves (handleQueueReceive_moves fromQueue msg) hs
  | modemReceive r => exact hmoves (handleModemReceive_moves trivial) hs
  | loop work =>
    have hwork : Guarantees (Preserves P) (doWork env work) :=
      (doWork_moves work).mono fun _ _ => hmoves
    have hread : Guarantees (Preserves P) (readClock env) := readClock_moves.mono fun _ _ => hmoves
    have hexpire : ∀ now, Guarantees (Preserves P) (expireCommands env now) := by
      intro now s hs
      rw [finalState_expireCommands hacks]
      exact hexpiry now s hs
    exact (hwork.bind fun _ => hread.bind hexpire) s hs

theorem performAll_invariant (calls : List Call) (hs : P s) : P (performAll (step env) calls s) :=
  List.foldlRecOn calls _ hs fun _ hs c _ => step_invariant hacks hmove hexpiry c hs

end

end Loops

def slowEnv : BridgeEnv := { sampleEnv with clock := fun n => 2000000000 + 1000000000 * n }

def longEnv : BridgeEnv := { slowEnv with specialCommandTtl := 3000 }

def controlFive : HardwareControlCommand where
  commandSrc := 1
  commandDest := 5
  time := 2000000000

def updateFive : TimeUpdateRequest where
  src := 1
  time := 2000000000
  updateTimeForId := 5

/-- Both commands are given, and the node is pinged, but never answers. -/
def unanswered : List Call :=
  [.queueReceive 0 (.hardwareControlCommand controlFive), .queueReceive 0 (.timeUpdateRequest updateFive),
    initiateTo 5, .loop [], .loop []]

def answeredLate : List Call :=
  [.queueReceive 0 (.timeUpdateRequest updateFive), .loop [], .modemReceive (pingReply 5 2), initiateTo 5]

def CommandFits (env : BridgeEnv) (s : Bridge) : Prop :=
  ∀ c events, since commandOf s.log = some (c, events) → deadline env c.time < 2 ^ 64

/-- The latest request has a deadline that fits, and no response to it has been given a time. -/
def RequestFits (env : BridgeEnv) (s : Bridge) : Prop :=
  ∀ request events, since requestOf s.log = some (request, events) →
    deadline env request.time < 2 ^ 64 ∧ events.any isStamped = false

/-- With a time to live that fits into `int` in microseconds, a command that is neither acknowledged
nor replaced ends on time; for a time update, if no response has been sent. -/
theorem endsOnTime_of_fits {env : BridgeEnv} (httl : TtlFits env) (hacks : AcksRouted env)
    (calls : List Call) :
    (CommandFits env (performAll (step env) calls {}) →
      HwCtlOnTime env (performAll (step env) calls {})) ∧
    (RequestFits env (performAll (step env) calls {}) →
      TimeUpdateOnTime env (performAll (step env) calls {})) := by
  constructor
  · intro hfits c events hsince _ hevents
    have hinv := performAll_invariant hacks (fun _ _ hmove hs => HwCtlInv.move hs hmove)
      (fun _ _ hs => hs.afterExpiry httl) calls (s := {}) .new
    exact hinv.onTime c events hsince (hfits c events hsince) hevents
  · intro hfits request events hsince _ hevents
    have hinv := performAll_invariant hacks (fun _ _ hmove hs => TimeUpdateInv.move hs hmove)
      (fun _ _ hs => hs.afterExpiry httl) calls (s := {}) .new
    obtain ⟨hdeadline, hstamped⟩ := hfits request events hsince
    refine hinv.onTime request events hsince hdeadline ?_
    rw [List.any_eq_false] at hevents hstamped ⊢
    intro e he
    simp [disturbsUpdate, hevents e he, hstamped e he]

theorem endsOnTime_unanswered :
    HwCtlOnTime slowEnv (performAll (step slowEnv) unanswered {}) ∧
      TimeUpdateOnTime slowEnv (performAll (step slowEnv) unanswered {}) ∧
      (performAll (step slowEnv) unanswered {}).pendingHwCtl = none ∧
      (performAll (step slowEnv) unanswered {}).pendingTimeUpdate = none := by
  have hends := @endsOnTime_of_fits slowEnv ⟨by decide, by decide⟩ (fun _ _ => rfl) unanswered
  refine ⟨hends.1 ?_, hends.2 ?_, by decide +kernel, by decide +kernel⟩
  · intro c events hsince
    have hc : (since commandOf (performAll (step slowEnv) unanswered {}).log).map Prod.fst =
        some controlFive := by decide +kernel
    rw [hsince] at hc
    obtain rfl : c = controlFive := Option.some.inj hc
    decide
  · intro request events hsince
    let log := (performAll (step slowEnv) unanswered {}).log
    have hrequest : since requestOf log = some (updateFive, log.drop 2) := by decide +kernel
    obtain ⟨rfl, rfl⟩ := Prod.mk.inj (Option.some.inj (hrequest.symm.trans hsince))
    exact ⟨by decide, by decide +kernel⟩

/-- With a time to live of fifty minutes a command is dropped at once, and a time update is kept
beyond thirty minutes if a response has been sent. -/
theorem not_endsOnTime :
    ¬ HwCtlOnTime longEnv (performAll (step longEnv)
        [.queueReceive 0 (.hardwareControlCommand controlFive), .loop []] {}) ∧
      ¬ TimeUpdateOnTime slowEnv (performAll (step slowEnv) answeredLate {}) := by
  constructor
  · intro h
    have hends := h controlFive [.looped 2000000000,
      .routed 0 (.networkAck (hwCtlNetworkAck (withDest controlFive) .expire))] (by decide +kernel) trivial
      (by decide +kernel)
    exact absurd hends (by decide +kernel)
  · intro h
    let log := (performAll (step slowEnv) answeredLate {}).log
    have hends := h updateFive (log.drop 1) (by decide +kernel) trivial (by decide +kernel)
    exact absurd hends (by decide +kernel)

end Goby.Bridge
