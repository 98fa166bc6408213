import Goby.MacSchedule

/-! However a node came to be started or updated, it starts the slots of its schedule from then
on. Two nodes with the same configuration have the same schedule unless their references,
the midnights before their last updates, lie apart by other than a whole number of cycles. -/

namespace Goby.MacManager

variable {cfg : MacConfig} {m : MacManager} {m' : MacManager} {now₁ now₂ : ℤ}
  {r : Except Failure MacManager} {s : ModemTransmission}

/-- A call of a public function, or the timer. -/
inductive MacCall where
  | startup (now₁ now₂ : ℤ)
  | restart (now₁ now₂ : ℤ)
  | shutdown
  | update (now₁ now₂ : ℤ)
  | beginSlot (now now₁ now₂ : ℤ)

/-- The manager after a call that returns; the timer only expires if it is set. -/
def called (cfg : MacConfig) (m : MacManager) : MacCall → Except Failure MacManager
  | .startup now₁ now₂ => m.startup cfg now₁ now₂
  | .restart now₁ now₂ => m.restart now₁ now₂
  | .shutdown => .ok m.shutdown
  | .update now₁ now₂ => m.update now₁ now₂
  | .beginSlot now now₁ now₂ =>
    if m.timer.isSome then (m.beginSlot now now₁ now₂).map (fun r => r.1) else .ok m

inductive Reached (cfg : MacConfig) : MacManager → Prop
  | startup {m : MacManager} (now₁ now₂ : ℤ) :
    MacManager.startup cfg now₁ now₂ {} = .ok m → Reached cfg m
  | call {m m' : MacManager} (c : MacCall) :
    Reached cfg m → m.called cfg c = .ok m' → Reached cfg m'

def keptSlots (cfg : MacConfig) : List ModemTransmission :=
  if cfg.type = .none then [] else cfg.indexedSlots

/-- The manager has its configuration and slots, and the timer is only set while it runs. -/
structure Inv (cfg : MacConfig) (m : MacManager) : Prop where
  config : m.cfg = cfg
  slots : m.slots = keptSlots cfg
  idle : m.startedUp = false ∨ cfg.type = .none → m.timer = none

structure Keeps (m m' : MacManager) : Prop where
  config : m'.cfg = m.cfg
  slots : m'.slots = m.slots
  startedUp : m'.startedUp = m.startedUp
  timer : m'.timer = m.timer

theorem Keeps.refl (m : MacManager) : Keeps m m := ⟨rfl, rfl, rfl, rfl⟩

theorem Keeps.trans {m₁ m₂ m₃ : MacManager} (h : Keeps m₁ m₂) (h' : Keeps m₂ m₃) : Keeps m₁ m₃ :=
  ⟨h'.config.trans h.config, h'.slots.trans h.slots, h'.startedUp.trans h.startedUp,
    h'.timer.trans h.timer⟩

theorem bind_eq_ok {ε α β : Type} {x : Except ε α} {f : α → Except ε β} {b : β}
    (h : x >>= f = .ok b) : ∃ a, x = .ok a ∧ f a = .ok b := by
  cases x with
  | error e => cases h
  | ok a => exact ⟨a, rfl, h⟩

theorem incrementSlot_keeps (h : m.incrementSlot = .ok m') : Keeps m m' := by
  unfold incrementSlot at h
  split at h
  · cases h
    exact .refl _
  · split at h
    · cases h
    · cases h
      exact ⟨rfl, rfl, rfl, rfl⟩

theorem skipSlots_keeps {now : ℤ} {fuel : ℕ} (h : skipSlots now fuel m = .ok m') : Keeps m m' := by
  induction fuel generalizing m with
  | zero =>
    unfold skipSlots at h
    split at h
    · cases h
    · cases h
      exact .refl _
  | succ fuel ih =>
    unfold skipSlots at h
    split at h
    · obtain ⟨m₁, hm₁, hrest⟩ := bind_eq_ok h
      exact (incrementSlot_keeps hm₁).trans (ih hrest)
    · cases h
      exact .refl _

theorem joinCycle_keeps {now : ℤ} (h : joinCycle now m = .ok m') : Keeps m m' := by
  unfold joinCycle at h
  split at h
  · have hskip := skipSlots_keeps h
    exact ⟨hskip.config, hskip.slots, hskip.startedUp, hskip.timer⟩
  · cases h
    exact .refl _

theorem slots_of_length_ne_zero (h : m.slots = keptSlots cfg) (hlen : m.slots.length ≠ 0) :
    cfg.type ≠ .none ∧ m.slots = cfg.indexedSlots := by
  rw [h, keptSlots] at hlen ⊢
  split at hlen
  · exact absurd rfl hlen
  next ht => exact ⟨ht, if_neg ht⟩

/-- An update only sets the timer of a manager that runs. -/
theorem update_inv (hc : m.cfg = cfg)
    (hs : m.slots = keptSlots cfg) (ht : m.startedUp = false → m.timer = none)
    (hu : m.update now₁ now₂ = .ok m') : Inv cfg m' := by
  unfold update at hu
  split at hu
  · cases hu
    exact ⟨hc, hs, fun _ => rfl⟩
  next hlen =>
    obtain ⟨next, -, hu⟩ := bind_eq_ok hu
    obtain ⟨m₁, hjoin, hu⟩ := bind_eq_ok hu
    have hk := joinCycle_keeps hjoin
    have htype := (slots_of_length_ne_zero hs hlen).1
    cases hu
    split
    next hup =>
      exact ⟨hk.config.trans hc, hk.slots.trans hs, fun hidle => by simp_all [restartTimer]⟩
    next hup =>
      refine ⟨hk.config.trans hc, hk.slots.trans hs, fun _ => ?_⟩
      rw [hk.timer]
      exact ht (by simpa [hk.startedUp] using hup)

theorem Inv.restart (h : Inv cfg m) (hr : m.restart now₁ now₂ = .ok m') : Inv cfg m' := by
  unfold MacManager.restart at hr
  split at hr
  · cases hr
    exact h
  · have hup : ({ m with startedUp := true } : MacManager).startedUp ≠ false := Bool.noConfusion
    exact update_inv (m := { m with startedUp := true }) h.config h.slots
      (fun hdown => absurd hdown hup) hr

theorem startup_inv (hs : cfg.type = .none → m.slots = [])
    (hi : m.startedUp = false ∨ cfg.type = .none → m.timer = none)
    (hr : m.startup cfg now₁ now₂ = .ok m') : Inv cfg m' := by
  unfold startup at hr
  split at hr
  next ht =>
    cases hr
    exact ⟨rfl, by rw [keptSlots, if_pos ht]; exact hs ht, hi⟩
  next ht =>
    have hnew : Inv cfg { m with
        cfg := cfg
        slots := cfg.indexedSlots
        currentSlot := cfg.indexedSlots.length } := ⟨rfl, by rw [keptSlots, if_neg ht], hi⟩
    exact hnew.restart hr

theorem Inv.beginSlot {now now₁ now₂ : ℤ} {r : MacManager × List MacEvent} (h : Inv cfg m)
    (ht : m.timer.isSome) (hb : m.beginSlot now now₁ now₂ = .ok r) : Inv cfg r.1 := by
  unfold MacManager.beginSlot at hb
  split at hb
  · obtain ⟨m', hu, hb⟩ := bind_eq_ok hb
    cases hb
    have hconfig : m.stopTimer.cfg = cfg := h.config
    exact update_inv hconfig h.slots (fun _ => rfl) hu
  · split at hb
    · cases hb
    · obtain ⟨m', hnext, hb⟩ := bind_eq_ok hb
      have hk := incrementSlot_keeps hnext
      cases hb
      refine ⟨hk.config.trans h.config, hk.slots.trans h.slots, fun hidle => ?_⟩
      have hstarted : m'.restartTimer.startedUp = m.startedUp := hk.startedUp
      rw [hstarted] at hidle
      simp [h.idle hidle] at ht

theorem reached_inv (h : Reached cfg m) : Inv cfg m := by
  induction h with
  | startup now₁ now₂ hs => exact startup_inv (fun _ => rfl) (fun _ => rfl) hs
  | @call m m' c _ hc ih =>
    cases c with
    | startup now₁ now₂ =>
      refine startup_inv (fun ht => ?_) ih.idle hc
      rw [ih.slots, keptSlots, if_pos ht]
    | restart now₁ now₂ => exact ih.restart hc
    | shutdown =>
      cases hc
      exact ⟨ih.config, ih.slots, fun _ => rfl⟩
    | update now₁ now₂ => exact update_inv ih.config ih.slots (fun hup => ih.idle (.inl hup)) hc
    | beginSlot now now₁ now₂ =>
      simp only [called] at hc
      split at hc
      next ht =>
        cases hb : m.beginSlot now now₁ now₂ with
        | error e => simp [hb, Except.map] at hc
        | ok r =>
          rw [hb] at hc
          cases hc
          exact ih.beginSlot ht hb
      next => cases hc; exact ih

/-- The result of starting or updating a manager: it is new, or not running, or it runs and is
updated by a call or for skew of the clock. -/
inductive Launched (cfg : MacConfig) (now₁ now₂ : ℤ) : Except Failure MacManager → Prop
  | new : Launched cfg now₁ now₂ (startup cfg now₁ now₂ {})
  | startup {m : MacManager} (h : Reached cfg m) (hs : m.startedUp = false) :
    Launched cfg now₁ now₂ (m.startup cfg now₁ now₂)
  | restart {m : MacManager} (h : Reached cfg m) (hs : m.startedUp = false) :
    Launched cfg now₁ now₂ (m.restart now₁ now₂)
  | update {m : MacManager} (h : Reached cfg m) (hs : m.startedUp = true) :
    Launched cfg now₁ now₂ (m.update now₁ now₂)
  | skew {m : MacManager} (h : Reached cfg m) (hs : m.startedUp = true) :
    Launched cfg now₁ now₂ (m.stopTimer.update now₁ now₂)

/-- However it was brought about, it is the update of a running manager with the slots. -/
theorem Launched.eq_update (h : Launched cfg now₁ now₂ r) (ht : cfg.type ≠ .none) :
    ∃ m, r = MacManager.update now₁ now₂ m ∧ Configured cfg m ∧ m.startedUp = true := by
  have hconf : ∀ {m : MacManager}, Inv cfg m → Configured cfg m := fun hm =>
    ⟨hm.config, by rw [hm.slots, keptSlots, if_neg ht]⟩
  have hstart : ∀ {m : MacManager}, m.startedUp = false → ∃ m',
      m.startup cfg now₁ now₂ = MacManager.update now₁ now₂ m' ∧ Configured cfg m' ∧
        m'.startedUp = true := by
    intro m hs
    refine ⟨{ m with
      cfg := cfg
      slots := cfg.indexedSlots
      currentSlot := cfg.indexedSlots.length
      startedUp := true }, ?_, ⟨rfl, rfl⟩, rfl⟩
    rw [MacManager.startup, if_neg ht, MacManager.restart, if_neg (by simpa using hs)]
  cases h with
  | new => exact hstart rfl
  | startup h hs => exact hstart hs
  | @restart m h hs =>
    have hm := hconf (reached_inv h)
    refine ⟨{ m with startedUp := true }, ?_, ⟨hm.config, hm.slots⟩, rfl⟩
    rw [MacManager.restart, if_neg (by simpa using hs)]
  | @update m h hs => exact ⟨m, rfl, hconf (reached_inv h), hs⟩
  | @skew m h hs =>
    have hm := hconf (reached_inv h)
    exact ⟨m.stopTimer, rfl, ⟨hm.config, hm.slots⟩, hs⟩

theorem Launched.silent
    (h : Launched cfg now₁ now₂ r) (ht : cfg.type = .none) : ∃ m, r = .ok m ∧ m.timer = none := by
  have hupdate : ∀ {m : MacManager}, m.slots = keptSlots cfg →
      MacManager.update now₁ now₂ m = .ok m.stopTimer := by
    intro m hs
    rw [MacManager.update, if_pos (by rw [hs, keptSlots, if_pos ht]; rfl)]
  cases h with
  | new => exact ⟨_, if_pos ht, rfl⟩
  | startup h hs => exact ⟨_, if_pos ht, (reached_inv h).idle (.inl hs)⟩
  | restart h hs =>
    rw [MacManager.restart, if_neg (by simpa using hs)]
    exact ⟨_, hupdate (reached_inv h).slots, rfl⟩
  | update h hs => exact ⟨_, hupdate (reached_inv h).slots, rfl⟩
  | skew h hs => exact ⟨_, hupdate (reached_inv h).slots, rfl⟩

theorem afterSlots_of_timer_none (hm : m.timer = none) (late : ℕ → ℤ) (k : ℕ) :
    afterSlots late m k = .ok m := by
  induction k with
  | zero => rfl
  | succ k ih =>
    have hexpire : m.expire (late k) = .ok (m, []) := by rw [expire, hm]
    rw [afterSlots, ih]
    show (m.expire (late k) >>= _) = _
    rw [hexpire]
    rfl

theorem not_starts_of_timer_none (hm : m.timer = none) {late : ℕ → ℤ}
    {t : ℤ} : ¬Starts late m s t := by
  rintro ⟨k, m', r, hafter, -, hexpire, hs⟩
  rw [afterSlots_of_timer_none hm] at hafter
  obtain rfl := Except.ok.inj hafter
  rw [expire, hm] at hexpire
  obtain rfl := Except.ok.inj hexpire
  simp at hs

/-- A node that was started or updated has the events of the slots of its schedule, from the
time on from which it follows it, and no others. -/
theorem Launched.emits_iff {reference now₁ now₂ : ℤ}
    (h : Launched cfg now₁ now₂ r) (ht : cfg.type ≠ .none) (hv : cfg.Valid)
    (hmom : Moment hv reference now₁ now₂) :
    ∃ m, r = .ok m ∧ m.cfg = cfg ∧ ∀ late, Punctual late →
      (∀ k, ∃ m', afterSlots late m k = .ok m') ∧
      ∀ e t, Emits late m e t ↔ follows hv reference now₁ now₂ ≤ t ∧
        ∃ j, (cfg.cycle hv).start reference j = t ∧ e ∈ m.slotEvents (startedSlot hv reference j) := by
  obtain ⟨m, rfl, hm, hup⟩ := h.eq_update ht
  obtain ⟨p, hupdate, hfirst⟩ := update_spec hv ht hm hmom
  rw [if_pos hup] at hupdate
  refine ⟨_, hupdate, hm.config, fun late hl => ⟨fun k => ?_, fun e t => ?_⟩⟩
  · exact ⟨_, afterSlots_moved hv ht hm reference p hl k⟩
  · rw [emits_moved hv ht hm reference p hl]
    constructor
    · rintro ⟨j, hj, rfl, he⟩
      exact ⟨(hfirst j).mpr hj, j, rfl, he⟩
    · rintro ⟨hfollow, j, rfl, he⟩
      exact ⟨j, (hfirst j).mp hfollow, rfl, he⟩

theorem Launched.starts_iff {reference now₁ now₂ : ℤ}
    (h : Launched cfg now₁ now₂ r) (ht : cfg.type ≠ .none) (hv : cfg.Valid)
    (hmom : Moment hv reference now₁ now₂) :
    ∃ m, r = .ok m ∧ ∀ late, Punctual late → (∀ k, ∃ m', afterSlots late m k = .ok m') ∧
      ∀ s t, Starts late m s t ↔ follows hv reference now₁ now₂ ≤ t ∧
        ∃ j, (cfg.cycle hv).start reference j = t ∧ s = startedSlot hv reference j := by
  obtain ⟨m, hr, -, hemits⟩ := h.emits_iff ht hv hmom
  refine ⟨m, hr, fun late hl => ⟨(hemits late hl).1, fun s t => ?_⟩⟩
  have hstarts := (hemits late hl).2 (.slotStart s) t
  simp only [slotStart_mem_slotEvents] at hstarts
  exact hstarts

theorem startedSlot_congr (hv : cfg.Valid) {reference reference' p p' : ℤ}
    (hslot : (cfg.cycle hv).slot p' = (cfg.cycle hv).slot p)
    (hstart : (cfg.cycle hv).start reference' p' = (cfg.cycle hv).start reference p) :
    startedSlot hv reference' p' = startedSlot hv reference p := by
  have hnumber : MacConfig.slotNumber hv p' = MacConfig.slotNumber hv p := by
    refine Option.some.inj ?_
    rw [← MacConfig.getElem?_slot, ← MacConfig.getElem?_slot, hslot]
  rw [startedSlot, startedSlot, hnumber, hstart]

/-- Slots scheduled from one reference are scheduled from another one that lies a whole
number of cycles apart. -/
theorem scheduled_of_dvd (hv : cfg.Valid) {reference reference' t : ℤ}
    (h : (cfg.cycle hv).total ∣ reference - reference')
    (hs : ∃ j, (cfg.cycle hv).start reference j = t ∧ s = startedSlot hv reference j) :
    ∃ j, (cfg.cycle hv).start reference' j = t ∧ s = startedSlot hv reference' j := by
  obtain ⟨j, rfl, rfl⟩ := hs
  obtain ⟨j', hslot, hstart⟩ := (cfg.cycle hv).exists_start_of_dvd h j
  exact ⟨j', hstart, (startedSlot_congr hv hslot hstart).symm⟩

theorem references_dvd {d a b refA refB : ℤ} (ha : cfg.reference a = some refA)
    (hb : cfg.reference b = some refB)
    (hday : cfg.refTimeType = .startOfDay → d ∣ startOfDay a - startOfDay b) : d ∣ refA - refB := by
  unfold MacConfig.reference at ha hb
  cases htype : cfg.refTimeType with
  | startOfDay =>
    simp only [htype, Option.some.injEq] at ha hb
    rw [← ha, ← hb]
    exact hday htype
  | fixed =>
    simp only [htype] at ha hb
    obtain rfl : refA = refB := Option.some.inj (ha.symm.trans hb)
    simp

/-- Two nodes, each started or updated at some moment and then stepping without skew, start
the same slots at the same times once both follow their schedules, if the midnights from
which they count lie a whole number of cycles apart. -/
theorem starts_agree (modemId : ℤ) (hv : cfg.Valid) {a₁ a₂ b₁ b₂ refA refB : ℤ}
    {a b : Except Failure MacManager} (ha : Launched cfg a₁ a₂ a)
    (hb : Launched { cfg with modemId := modemId } b₁ b₂ b) (hma : Moment hv refA a₁ a₂)
    (hmb : Moment hv refB b₁ b₂) (hday : cfg.refTimeType = .startOfDay →
      (cfg.cycle hv).total ∣ startOfDay a₁ - startOfDay b₁) :
    ∃ nodeA nodeB, a = .ok nodeA ∧ b = .ok nodeB ∧
      ∀ lateA lateB, Punctual lateA → Punctual lateB →
        (∀ k, (∃ m, afterSlots lateA nodeA k = .ok m) ∧ ∃ m, afterSlots lateB nodeB k = .ok m) ∧
        ∀ s t, max (follows hv refA a₁ a₂) (follows hv refB b₁ b₂) ≤ t →
          (Starts lateA nodeA s t ↔ Starts lateB nodeB s t) := by
  by_cases ht : cfg.type = .none
  · obtain ⟨nodeA, rfl, hA⟩ := ha.silent ht
    obtain ⟨nodeB, rfl, hB⟩ := hb.silent ht
    refine ⟨nodeA, nodeB, rfl, rfl, fun lateA lateB _ _ => ⟨fun k => ⟨⟨nodeA, ?_⟩, ⟨nodeB, ?_⟩⟩, ?_⟩⟩
    · exact afterSlots_of_timer_none hA lateA k
    · exact afterSlots_of_timer_none hB lateB k
    · exact fun s t _ => iff_of_false (not_starts_of_timer_none hA) (not_starts_of_timer_none hB)
  · have hvB : ({ cfg with modemId := modemId } : MacConfig).Valid := hv
    have hmb' : Moment hvB refB b₁ b₂ := ⟨hmb.isReference, hmb.past, hmb.recent, hmb.order⟩
    obtain ⟨nodeA, rfl, hA⟩ := ha.starts_iff ht hv hma
    obtain ⟨nodeB, rfl, hB⟩ := hb.starts_iff ht hvB hmb'
    have hphase := references_dvd hma.isReference hmb.isReference hday
    have hphase' : (cfg.cycle hv).total ∣ refB - refA := (dvd_sub_comm).mp hphase
    refine ⟨nodeA, nodeB, rfl, rfl, fun lateA lateB hlA hlB => ⟨fun k => ⟨?_, ?_⟩, ?_⟩⟩
    · exact (hA lateA hlA).1 k
    · exact (hB lateB hlB).1 k
    · intro s t hfollow
      rw [(hA lateA hlA).2, (hB lateB hlB).2]
      constructor
      · rintro ⟨-, hs⟩
        exact ⟨le_trans (le_max_right _ _) hfollow, scheduled_of_dvd hv hphase hs⟩
      · rintro ⟨-, hs⟩
        exact ⟨le_trans (le_max_left _ _) hfollow, scheduled_of_dvd hv hphase' hs⟩

def sampleMacConfig (microseconds : List ℤ) (startCycleInMiddle : Bool) : MacConfig where
  type := .fixedDecentralized
  slot := microseconds.map (fun d : ℤ => { slotSeconds := (d : ℚ) / 1000000 })
  startCycleInMiddle := startCycleInMiddle

theorem sampleMacConfig_valid {microseconds : List ℤ} (hne : microseconds ≠ [])
    (hpos : ∀ d ∈ microseconds, 0 < d) (startCycleInMiddle : Bool) :
    (sampleMacConfig microseconds startCycleInMiddle).Valid := by
  refine ⟨by simpa [sampleMacConfig] using hne, fun slot hs => ?_⟩
  obtain ⟨d, hd, rfl⟩ := List.mem_map.mp hs
  exact ⟨d, hpos d hd, div_mul_cancel₀ _ (by norm_num)⟩

theorem twoSlots_valid (startCycleInMiddle : Bool) :
    (sampleMacConfig [5000000, 5000000] startCycleInMiddle).Valid :=
  sampleMacConfig_valid (by decide) (by decide) startCycleInMiddle

/-- Two slots of 5 seconds, joined in the middle: the nodes agree from the second start on. -/
theorem starts_agree_sample :
    ∃ nodeA nodeB,
      startup (sampleMacConfig [5000000, 5000000] true) 1000000 1000000 {} = .ok nodeA ∧
      startup { sampleMacConfig [5000000, 5000000] true with modemId := 2 } 12000000 12000001 {} =
        .ok nodeB ∧
      ∀ s t, 12000001 ≤ t → (Starts (fun _ => 0) nodeA s t ↔ Starts (fun _ => 7) nodeB s t) := by
  have htotal : (MacConfig.cycle (twoSlots_valid true)).total = 10000000 := by decide +kernel
  have hmA : Moment (twoSlots_valid true) 0 1000000 1000000 :=
    ⟨rfl, by decide, by rw [htotal]; decide, by decide⟩
  have hmB : Moment (twoSlots_valid true) 0 12000000 12000001 :=
    ⟨rfl, by decide, by rw [htotal]; decide, by decide⟩
  obtain ⟨nodeA, nodeB, hA, hB, hagree⟩ :=
    starts_agree 2 (twoSlots_valid true) .new .new hmA hmB (fun _ => ⟨0, by rw [mul_zero]; decide⟩)
  refine ⟨nodeA, nodeB, hA, hB, ?_⟩
  have hfollow : max (follows (twoSlots_valid true) 0 1000000 1000000)
      (follows (twoSlots_valid true) 0 12000000 12000001) = 12000001 := by decide +kernel
  have h := (hagree (fun _ => 0) (fun _ => 7) (fun k => by simp) (fun k => by norm_num)).2
  rwa [hfollow] at h

/-- Of two nodes started at different times, one starts a slot at a time at which the other
does not start it. -/
def Disagree (cfg : MacConfig) (nowA nowB t : ℤ) : Prop :=
  ∃ nodeA nodeB, startup cfg nowA nowA {} = .ok nodeA ∧ startup cfg nowB nowB {} = .ok nodeB ∧
    ∃ s, Starts (fun _ => 0) nodeA s t ∧ ¬Starts (fun _ => 0) nodeB s t

theorem disagree_of_schedule (hv : cfg.Valid) (htype : cfg.type ≠ .none)
    {refA refB nowA nowB j t : ℤ} (hmA : Moment hv refA nowA nowA) (hmB : Moment hv refB nowB nowB)
    (ht : (cfg.cycle hv).start refA j = t) (hA : follows hv refA nowA nowA ≤ t)
    (hB : follows hv refB nowB nowB ≤ t → ∀ j', (cfg.cycle hv).start refB j' ≠ t) :
    Disagree cfg nowA nowB t := by
  have hl : Punctual (fun _ => 0) := fun _ => by simp
  obtain ⟨nodeA, hnodeA, hstartsA⟩ := Launched.new.starts_iff htype hv hmA
  obtain ⟨nodeB, hnodeB, hstartsB⟩ := Launched.new.starts_iff htype hv hmB
  refine ⟨nodeA, nodeB, hnodeA, hnodeB, startedSlot hv refA j, ?_, ?_⟩
  · exact ((hstartsA _ hl).2 _ _).mpr ⟨hA, j, ht, rfl⟩
  · intro hs
    obtain ⟨hfollow, j', hj', -⟩ := ((hstartsB _ hl).2 _ _).mp hs
    exact hB hfollow j' hj'

theorem oneSlot_valid : (sampleMacConfig [7000000] true).Valid :=
  sampleMacConfig_valid (by decide) (by decide) true

/-- Where nodes do not agree. A cycle of 7 seconds does not divide a day, and the nodes are
started before and after midnight. A cycle that is not joined in the middle is only followed
from its next beginning on. A single slot that starts at the very moment of the start is left
out. And `unsigned` cannot count to 2^32 cycles. -/
theorem agreement_exceptions :
    Disagree (sampleMacConfig [7000000] true) 86399000000 86400500000 86408000000 ∧
    Disagree (sampleMacConfig [5000000, 5000000] false) 1000000 11000000 15000000 ∧
    Disagree (sampleMacConfig [7000000] true) 1000000 7000000 7000000 ∧
    (match startup { sampleMacConfig [1] true with refTimeType := .fixed } (2 ^ 32 - 1) (2 ^ 32 - 1) {} with
      | .error e => some e
      | .ok _ => none) = some .undefined := by
  have htotal : (MacConfig.cycle oneSlot_valid).total = 7000000 := by decide +kernel
  have hmoment : ∀ now, 0 ≤ now → now < 86400000000 → Moment oneSlot_valid 0 now now := by
    intro now hpos hlt
    refine ⟨?_, hpos, by rw [htotal]; omega, le_refl now⟩
    have hday : startOfDay now = 0 := by
      unfold startOfDay microsecondsPerDay
      omega
    exact congrArg some hday
  refine ⟨?_, ?_, ?_, by decide +kernel⟩
  · have hcount : (MacConfig.cycle oneSlot_valid).count = 1 := by decide +kernel
    have hmB : Moment oneSlot_valid 86400000000 86400500000 86400500000 :=
      ⟨by decide +kernel, by decide, by rw [htotal]; decide, by decide⟩
    have ht : (MacConfig.cycle oneSlot_valid).start 0 12344 = 86408000000 := by decide +kernel
    refine disagree_of_schedule oneSlot_valid (by decide) (hmoment _ (by decide) (by decide)) hmB ht
      (by decide +kernel) fun _ j hj => ?_
    have hstart := (MacConfig.cycle oneSlot_valid).start_mul 86400000000 j
    rw [hcount, htotal, Nat.cast_one, mul_one, hj] at hstart
    omega
  · have htotal₂ : (MacConfig.cycle (twoSlots_valid false)).total = 10000000 := by decide +kernel
    have hmA : Moment (twoSlots_valid false) 0 1000000 1000000 :=
      ⟨by decide +kernel, by decide, by rw [htotal₂]; decide, by decide⟩
    have hmB : Moment (twoSlots_valid false) 0 11000000 11000000 :=
      ⟨by decide +kernel, by decide, by rw [htotal₂]; decide, by decide⟩
    have ht : (MacConfig.cycle (twoSlots_valid false)).start 0 3 = 15000000 := by decide +kernel
    refine disagree_of_schedule (twoSlots_valid false) (by decide) hmA hmB ht (by decide +kernel)
      fun hfollow => ?_
    exact absurd hfollow (by decide +kernel)
  · have ht : (MacConfig.cycle oneSlot_valid).start 0 1 = 7000000 := by decide +kernel
    refine disagree_of_schedule oneSlot_valid (by decide) (hmoment _ (by decide) (by decide))
      (hmoment _ (by decide) (by decide)) ht (by decide +kernel) fun hfollow => ?_
    exact absurd hfollow (by decide +kernel)

end Goby.MacManager
