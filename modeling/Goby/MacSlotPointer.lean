import Goby.MacAgreement

/-! A manager keeps a pointer into its list of slots and the time of the slot pointed at. Starting
it, editing the list and stepping through it replace the list, the pointer and the time in
different functions. While the timer is set, the pointer is into the list last given and the
time was computed from that list, if the manager is never started up while it is running. -/

namespace Goby.MacManager

/-- What may happen to a manager. An edit of the list is followed by an update. -/
inductive SlotCall where
  | startup (cfg : MacConfig) (now₁ now₂ : ℤ)
  | restart (now₁ now₂ : ℤ)
  | shutdown
  | edit (f : List ModemTransmission → List ModemTransmission) (now₁ now₂ : ℤ)
  | expire (now now₁ now₂ : ℤ)

/-- The manager after a call that returns; the timer only expires if it is set. -/
def perform (m : MacManager) : SlotCall → Except Failure MacManager
  | .startup cfg now₁ now₂ => m.startup cfg now₁ now₂
  | .restart now₁ now₂ => m.restart now₁ now₂
  | .shutdown => .ok m.shutdown
  | .edit f now₁ now₂ => update now₁ now₂ { m with slots := f m.slots }
  | .expire now now₁ now₂ =>
    if m.timer.isSome then (m.beginSlot now now₁ now₂).map (fun r => r.1) else .ok m

/-- A list of slots, with the readings of the clock that updates have made since it was given. -/
structure Given where
  slots : List ModemTransmission := []
  readings : List ℤ := []

/-- The list that the last configuration gives, with the later edits. -/
def SlotCall.given (given : Given) : SlotCall → Given
  | .startup cfg now₁ _ => ⟨keptSlots cfg, [now₁]⟩
  | .edit f now₁ _ => ⟨f given.slots, [now₁]⟩
  | .restart now₁ _ => ⟨given.slots, now₁ :: given.readings⟩
  | .expire _ now₁ _ => ⟨given.slots, now₁ :: given.readings⟩
  | .shutdown => given

/-- The time was computed from the list, by the configuration and at one of the readings, as the
start of the slot at a place in it: the beginning of the next cycle, the one of the cycle before,
or the end of the slot before. -/
inductive ComputedFrom (cfg : MacConfig) (slots : List ModemTransmission) (readings : List ℤ) :
    ℕ → Ptime → Prop
  | cycle {now : ℤ} {t : Ptime} (hnow : now ∈ readings)
    (h : nextCycleTime { cfg := cfg, slots := slots } now = .ok t) : ComputedFrom cfg slots readings 0 t
  | back {now : ℤ} {t : Ptime} (hnow : now ∈ readings)
    (h : nextCycleTime { cfg := cfg, slots := slots } now = .ok t) :
    ComputedFrom cfg slots readings 0
      (t.addMicroseconds (-truncate (cycleDuration { slots := slots } * 1000000)))
  | next {i : ℕ} {slot : ModemTransmission} {t : Ptime} (hs : slots[i]? = some slot)
    (h : ComputedFrom cfg slots readings i t) :
    ComputedFrom cfg slots readings (if i + 1 = slots.length then 0 else i + 1)
      (t.addMicroseconds (slotMicroseconds slot))

/-- The manager points at a slot of the list given, at the time computed from that list. -/
structure Fresh (given : Given) (m : MacManager) : Prop where
  current : m.currentSlot < m.slots.length
  slots : m.slots = given.slots
  computed : ComputedFrom m.cfg m.slots given.readings m.currentSlot m.nextSlotT

/-- A manager is not started up while it is running, nor without a type of access control while
it has slots. -/
def Orderly (m : MacManager) : SlotCall → Prop
  | .startup cfg _ _ => m.startedUp = false ∧ (cfg.type = .none → m.slots = [])
  | _ => True

inductive Runs (allowed : MacManager → SlotCall → Prop) : Given → MacManager → Prop
  | new : Runs allowed {} {}
  | call {given : Given} {m m' : MacManager} (c : SlotCall)
    (h : Runs allowed given m) (hc : allowed m c) (hm : m.perform c = .ok m') :
    Runs allowed (c.given given) m'

def performAll (m : MacManager) : List SlotCall → Except Failure MacManager
  | [] => .ok m
  | c :: calls => m.perform c >>= fun m' => performAll m' calls

def Placed (readings : List ℤ) (m : MacManager) : Prop :=
  m.currentSlot < m.slots.length ∧ ComputedFrom m.cfg m.slots readings m.currentSlot m.nextSlotT

variable {m m' : MacManager} {now₁ now₂ : ℤ} {cfg : MacConfig} {readings : List ℤ}

theorem Placed.incrementSlot (h : m.Placed readings) (hm : m.incrementSlot = .ok m') :
    m'.Placed readings := by
  unfold MacManager.incrementSlot at hm
  split at hm
  · cases hm
    exact h
  · split at hm
    · cases hm
    next slot hslot =>
      cases hm
      refine ⟨?_, .next hslot h.2⟩
      have hlt := h.1
      show (if m.currentSlot + 1 = m.slots.length then 0 else m.currentSlot + 1) < m.slots.length
      split <;> omega

theorem Placed.skipSlots {now : ℤ} {fuel : ℕ} (h : m.Placed readings)
    (hm : skipSlots now fuel m = .ok m') : m'.Placed readings := by
  induction fuel generalizing m with
  | zero =>
    unfold MacManager.skipSlots at hm
    split at hm
    · cases hm
    · cases hm
      exact h
  | succ fuel ih =>
    unfold MacManager.skipSlots at hm
    split at hm
    · obtain ⟨m₁, hm₁, hrest⟩ := bind_eq_ok hm
      exact ih (h.incrementSlot hm₁) hrest
    · cases hm
      exact h

/-- At the beginning of the next cycle, or behind the slots of this one that are past. -/
theorem joinCycle_placed {next : Ptime} (hslots : m.slots.length ≠ 0) (hnow : now₁ ∈ readings)
    (hnext : m.nextCycleTime now₁ = .ok next)
    (hm : joinCycle now₂ { m with currentSlot := 0, nextSlotT := next } = .ok m') :
    m'.Placed readings := by
  have hpos := Nat.pos_of_ne_zero hslots
  unfold MacManager.joinCycle at hm
  split at hm
  · exact Placed.skipSlots ⟨hpos, .back hnow hnext⟩ hm
  · cases hm
    exact ⟨hpos, .cycle hnow hnext⟩

/-- An update stops the timer of an empty list, and otherwise finds a place in the list and
sets the timer of a running manager. -/
theorem update_placed (hnow : now₁ ∈ readings) (hm : m.update now₁ now₂ = .ok m') :
    m'.slots = m.slots ∧ m'.startedUp = m.startedUp ∧
      (m.slots = [] ∧ m'.timer = none ∨
        m.slots ≠ [] ∧ m'.Placed readings ∧
          m'.timer = if m.startedUp then some m'.nextSlotT else m.timer) := by
  unfold update at hm
  split at hm
  next hlen =>
    cases hm
    exact ⟨rfl, rfl, .inl ⟨List.eq_nil_of_length_eq_zero hlen, rfl⟩⟩
  next hlen =>
    obtain ⟨next, hnext, hm⟩ := bind_eq_ok hm
    obtain ⟨m₁, hjoin, hm⟩ := bind_eq_ok hm
    have hk := joinCycle_keeps hjoin
    have hplaced := joinCycle_placed hlen hnow hnext hjoin
    have hne : m.slots ≠ [] := fun hnil => hlen (by rw [hnil]; rfl)
    have hup : m₁.startedUp = m.startedUp := hk.startedUp
    cases hm
    rw [hup]
    split
    · exact ⟨hk.slots, hk.startedUp, .inr ⟨hne, hplaced, rfl⟩⟩
    · exact ⟨hk.slots, hk.startedUp, .inr ⟨hne, hplaced, hk.timer⟩⟩

/-- The list is the one given; the timer is only set while the manager runs, and then it has a
place in the list. -/
structure Sound (given : Given) (m : MacManager) : Prop where
  slots : m.slots = given.slots
  running : m.timer.isSome → m.startedUp = true
  placed : m.timer.isSome → m.Placed given.readings

variable {given : Given}

theorem Sound.fresh (h : Sound given m) (ht : m.timer.isSome) : Fresh given m :=
  ⟨(h.placed ht).1, h.slots, (h.placed ht).2⟩

theorem sound_of_timer_none (hs : m.slots = given.slots) (ht : m.timer = none) : Sound given m :=
  ⟨hs, by simp [ht], by simp [ht]⟩

theorem update_sound (hs : m.slots = given.slots) (hnow : now₁ ∈ given.readings)
    (hup : m.timer.isSome → m.startedUp = true) (hm : m.update now₁ now₂ = .ok m') :
    Sound given m' := by
  obtain ⟨hslots, hstarted, ⟨-, htimer⟩ | ⟨-, hplaced, htimer⟩⟩ := update_placed hnow hm
  · exact sound_of_timer_none (hslots.trans hs) htimer
  · refine ⟨hslots.trans hs, fun ht => ?_, fun _ => hplaced⟩
    rw [hstarted]
    rw [htimer] at ht
    split at ht
    next hyes => exact hyes
    next => exact hup ht

theorem ComputedFrom.mono {slots : List ModemTransmission} {readings' : List ℤ} {i : ℕ} {t : Ptime}
    (h : ComputedFrom cfg slots readings i t) (hsub : readings ⊆ readings') :
    ComputedFrom cfg slots readings' i t := by
  induction h with
  | cycle hnow h => exact .cycle (hsub hnow) h
  | back hnow h => exact .back (hsub hnow) h
  | next hs _ ih => exact .next hs ih

theorem Sound.read (h : Sound given m) (now : ℤ) : Sound ⟨given.slots, now :: given.readings⟩ m := by
  refine ⟨h.slots, h.running, fun ht => ⟨(h.placed ht).1, ?_⟩⟩
  exact (h.placed ht).2.mono (List.subset_cons_self now given.readings)

theorem Sound.restart (h : Sound given m) (hnow : now₁ ∈ given.readings)
    (hm : m.restart now₁ now₂ = .ok m') : Sound given m' := by
  unfold MacManager.restart at hm
  split at hm
  · cases hm
    exact h
  · exact update_sound (m := { m with startedUp := true }) h.slots hnow (fun _ => rfl) hm

theorem startup_sound (h : Sound given m)
    (hup : m.startedUp = false) (hnone : cfg.type = .none → m.slots = [])
    (hm : m.startup cfg now₁ now₂ = .ok m') : Sound ⟨keptSlots cfg, [now₁]⟩ m' := by
  have htimer : m.timer = none := by
    by_contra hset
    have hrun := h.running (Option.isSome_iff_ne_none.mpr hset)
    exact absurd (hup.symm.trans hrun) Bool.noConfusion
  unfold startup at hm
  split at hm
  next ht =>
    cases hm
    refine sound_of_timer_none ?_ htimer
    simpa [keptSlots, ht] using hnone ht
  next ht =>
    have hnew : Sound ⟨keptSlots cfg, [now₁]⟩ { m with
        cfg := cfg
        slots := cfg.indexedSlots
        currentSlot := cfg.indexedSlots.length } :=
      sound_of_timer_none (by simp [keptSlots, ht]) htimer
    exact hnew.restart List.mem_cons_self hm

theorem Sound.beginSlot {now now₁ now₂ : ℤ} {r : MacManager × List MacEvent}
    (h : Sound given m) (hnow : now₁ ∈ given.readings) (ht : m.timer.isSome)
    (hm : m.beginSlot now now₁ now₂ = .ok r) :
    Sound given r.1 := by
  unfold MacManager.beginSlot at hm
  split at hm
  · obtain ⟨m₁, hupdate, hm⟩ := bind_eq_ok hm
    cases hm
    exact update_sound (m := m.stopTimer) h.slots hnow (fun hset => by cases hset) hupdate
  · split at hm
    · cases hm
    · obtain ⟨m₁, hnext, hm⟩ := bind_eq_ok hm
      have hk := incrementSlot_keeps hnext
      have hplaced := (h.placed ht).incrementSlot hnext
      cases hm
      exact ⟨hk.slots.trans h.slots, fun _ => hk.startedUp.trans (h.running ht), fun _ => hplaced⟩

theorem Sound.perform (h : Sound given m) {c : SlotCall} (hc : Orderly m c)
    (hm : m.perform c = .ok m') : Sound (c.given given) m' := by
  cases c with
  | startup cfg now₁ now₂ => exact startup_sound h hc.1 hc.2 hm
  | restart now₁ now₂ => exact (h.read now₁).restart List.mem_cons_self hm
  | shutdown =>
    cases hm
    exact sound_of_timer_none h.slots rfl
  | edit f now₁ now₂ =>
    have hedit : f m.slots = f given.slots := congrArg f h.slots
    exact update_sound (m := { m with slots := f m.slots }) hedit List.mem_cons_self h.running hm
  | expire now now₁ now₂ =>
    simp only [MacManager.perform] at hm
    split at hm
    next ht =>
      cases hb : m.beginSlot now now₁ now₂ with
      | error e => simp [hb, Except.map] at hm
      | ok r =>
        rw [hb] at hm
        cases hm
        exact (h.read now₁).beginSlot List.mem_cons_self ht hb
    next =>
      cases hm
      exact h.read now₁

theorem Runs.sound (h : Runs Orderly given m) : Sound given m := by
  induction h with
  | new => exact sound_of_timer_none rfl rfl
  | call c _ hc hm ih => exact ih.perform hc hm

theorem startup_timer (hup : m.startedUp = false)
    (ht : cfg.type ≠ .none) (hs : cfg.slot ≠ []) (hm : m.startup cfg now₁ now₂ = .ok m') :
    m'.timer.isSome := by
  rw [startup, if_neg ht, restart, if_neg (by simp [hup])] at hm
  obtain ⟨-, -, ⟨hnil, -⟩ | ⟨-, -, htimer⟩⟩ := update_placed (List.mem_singleton_self now₁) hm
  · have hlen := congrArg List.length hnil
    rw [MacConfig.indexedSlots_length] at hlen
    exact absurd (List.eq_nil_of_length_eq_zero hlen) hs
  · rw [htimer]
    rfl

theorem startup_while_running (hup : m.startedUp = true)
    (ht : cfg.type ≠ .none) (hm : m.startup cfg now₁ now₂ = .ok m') :
    ¬m'.currentSlot < m'.slots.length := by
  rw [startup, if_neg ht, restart, if_pos hup] at hm
  cases hm
  exact Nat.lt_irrefl _

/-- While the timer is set it runs on a slot of the list given, in every run in which the
manager is started up only when it is not running. And when a manager is started up, its timer
is set on a slot of the new schedule if and only if it was not running. -/
theorem timer_fresh (h : Runs Orderly given m) :
    (m.timer.isSome → Fresh given m) ∧
    ∀ (cfg : MacConfig) (now₁ now₂ : ℤ) (m' : MacManager), cfg.type ≠ .none → cfg.slot ≠ [] →
      m.startup cfg now₁ now₂ = .ok m' →
      (m'.timer.isSome ∧ Fresh ⟨keptSlots cfg, [now₁]⟩ m' ↔ m.startedUp = false) := by
  refine ⟨h.sound.fresh, fun cfg now₁ now₂ m' ht hs hm => ⟨fun hfresh => ?_, fun hup => ?_⟩⟩
  · by_contra hrunning
    have hup : m.startedUp = true := by simpa using hrunning
    exact startup_while_running hup ht hm hfresh.2.current
  · have hset := startup_timer hup ht hs hm
    exact ⟨hset, (startup_sound h.sound hup (fun hnone => absurd hnone ht) hm).fresh hset⟩

theorem Runs.performAll {allowed : MacManager → SlotCall → Prop} (h : Runs allowed given m)
    (hall : ∀ m c, allowed m c) {calls : List SlotCall} (hm : m.performAll calls = .ok m') :
    Runs allowed (calls.foldl SlotCall.given given) m' := by
  induction calls generalizing given m with
  | nil =>
    cases hm
    exact h
  | cons c calls ih =>
    obtain ⟨m₁, hm₁, hrest⟩ := bind_eq_ok hm
    exact ih (.call c h (hall m c) hm₁) hrest

theorem exists_of_map_eq_ok {α β : Type} {x : Except Failure α} {f : α → β} {b : β}
    (h : x.map f = .ok b) : ∃ a, x = .ok a ∧ f a = b := by
  cases x with
  | error e => cases h
  | ok a => exact ⟨a, rfl, Except.ok.inj h⟩

/-- A new manager that is started up. -/
theorem timer_fresh_startup :
    ∃ m, startup (sampleMacConfig [5000000, 5000000] true) 1000000 1000000 {} = .ok m ∧
      m.timer.isSome ∧ Fresh ⟨keptSlots (sampleMacConfig [5000000, 5000000] true), [1000000]⟩ m := by
  have hrun : (startup (sampleMacConfig [5000000, 5000000] true) 1000000 1000000 {}).map
      (fun m => m.timer.isSome) = .ok true := by decide +kernel
  obtain ⟨m, hm, ht⟩ := exists_of_map_eq_ok hrun
  have hruns : Runs Orderly ⟨keptSlots (sampleMacConfig [5000000, 5000000] true), [1000000]⟩ m :=
    .call (.startup (sampleMacConfig [5000000, 5000000] true) 1000000 1000000) .new
      ⟨rfl, fun _ => rfl⟩ hm
  exact ⟨m, hm, ht, (timer_fresh hruns).1 ht⟩

/-- Started up again while it runs, a manager keeps its pointer into the list it had. Started
up without a type of access control, it keeps that list, and a restart sets the timer on it. -/
theorem stale_slots :
    (∃ given m, Runs (fun _ _ => True) given m ∧
      given.slots = keptSlots (sampleMacConfig [3000000] true) ∧ m.timer.isSome ∧ ¬Fresh given m) ∧
    ∃ given m, Runs (fun _ _ => True) given m ∧ given.slots = keptSlots {} ∧ m.timer.isSome ∧
      ¬Fresh given m := by
  have hrun : (performAll {} [.startup (sampleMacConfig [5000000, 5000000] true) 1000000 1000000,
      .startup (sampleMacConfig [3000000] true) 2000000 2000000]).map
      (fun m => (m.timer.isSome, m.currentSlot, m.slots.length)) = .ok (true, 1, 1) := by
    decide +kernel
  have hrun' : (performAll {} [.startup (sampleMacConfig [5000000, 5000000] true) 1000000 1000000,
      .shutdown, .startup {} 2000000 2000000, .restart 2000000 2000000]).map
      (fun m => (m.timer.isSome, m.slots.length)) = .ok (true, 2) := by
    decide +kernel
  obtain ⟨m, hm, heq⟩ := exists_of_map_eq_ok hrun
  obtain ⟨m', hm', heq'⟩ := exists_of_map_eq_ok hrun'
  simp only [Prod.mk.injEq] at heq heq'
  constructor
  · refine ⟨_, m, Runs.new.performAll (fun _ _ => trivial) hm, rfl, heq.1, fun hfresh => ?_⟩
    have := hfresh.current
    omega
  · refine ⟨_, m', Runs.new.performAll (fun _ _ => trivial) hm', rfl, heq'.1, fun hfresh => ?_⟩
    have hslots := congrArg List.length hfresh.slots
    rw [heq'.2] at hslots
    exact absurd hslots (by decide)

end Goby.MacManager
