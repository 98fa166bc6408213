import Goby.CycleTimes

/-! A node that was started or updated follows a cyclic schedule from then on. The schedule is
fixed by the slots and the reference time of the last update alone, so two nodes whose
references lie a whole number of cycles apart start the same slots at the same times. -/

namespace Goby

/-- There are slots, and each takes a positive whole number of microseconds. -/
structure WholeSlots (slots : List ModemTransmission) : Prop where
  nonempty : slots ≠ []
  whole : ∀ slot ∈ slots, ∃ d : ℤ, 0 < d ∧ slot.slotSeconds * 1000000 = d

namespace WholeSlots

variable {slots : List ModemTransmission}

theorem slotMicroseconds (h : WholeSlots slots) {slot : ModemTransmission} (hs : slot ∈ slots) :
    0 < slotMicroseconds slot ∧ slot.slotSeconds * 1000000 = Goby.slotMicroseconds slot := by
  obtain ⟨d, hd, heq⟩ := h.whole slot hs
  rw [Goby.slotMicroseconds, heq, truncate_intCast]
  exact ⟨hd, rfl⟩

def cycle (h : WholeSlots slots) : Cycle where
  durations := slots.map Goby.slotMicroseconds
  nonempty := by simpa using h.nonempty
  pos := by
    intro d hd
    obtain ⟨slot, hs, rfl⟩ := List.mem_map.mp hd
    exact (h.slotMicroseconds hs).1

end WholeSlots

namespace MacConfig

abbrev Valid (cfg : MacConfig) : Prop := WholeSlots cfg.slot

variable {cfg : MacConfig}

def cycle (h : cfg.Valid) : Cycle := WholeSlots.cycle h

theorem indexedSlots_map {α : Type} (f : ModemTransmission → α)
    (hf : ∀ slot i, f { slot with slotIndex := i } = f slot) :
    cfg.indexedSlots.map f = cfg.slot.map f := by
  rw [indexedSlots, List.map_map]
  conv_rhs => rw [← List.zipIdx_map_fst 0 cfg.slot, List.map_map]
  exact List.map_congr_left fun e _ => hf e.1 _

theorem indexedSlots_length : cfg.indexedSlots.length = cfg.slot.length := by simp [indexedSlots]

theorem count_cycle (h : cfg.Valid) : (cfg.cycle h).count = cfg.indexedSlots.length := by
  simp [Cycle.count, cycle, WholeSlots.cycle, indexedSlots_length]

def slotNumber (h : cfg.Valid) (p : ℤ) : ModemTransmission :=
  cfg.indexedSlots.get ⟨(cfg.cycle h).slot p, count_cycle h ▸ (cfg.cycle h).slot_lt p⟩

theorem getElem?_slot (h : cfg.Valid) (p : ℤ) :
    cfg.indexedSlots[(cfg.cycle h).slot p]? = some (slotNumber h p) :=
  List.getElem?_eq_getElem _

theorem foldl_slotSeconds (slots : List ModemTransmission)
    (hs : ∀ slot ∈ slots, slot.slotSeconds * 1000000 = slotMicroseconds slot) (x : ℚ) :
    slots.foldl (fun length slot => length + slot.slotSeconds) x * 1000000 =
      x * 1000000 + ((slots.map slotMicroseconds).sum : ℤ) := by
  induction slots generalizing x with
  | nil => simp
  | cons slot slots ih =>
    rw [List.foldl_cons, ih (fun s hm => hs s (List.mem_cons_of_mem _ hm)), add_mul,
      hs slot List.mem_cons_self]
    push_cast [List.map_cons, List.sum_cons]
    ring

end MacConfig

namespace MacManager

variable {cfg : MacConfig} {m : MacManager} {c : Cycle}

structure Configured (cfg : MacConfig) (m : MacManager) : Prop where
  config : m.cfg = cfg
  slots : m.slots = cfg.indexedSlots

/-- The slots of the manager take the times of the cycle, exactly. -/
structure Timed (c : Cycle) (m : MacManager) : Prop where
  durations : m.slots.map slotMicroseconds = c.durations
  total : m.cycleDuration * 1000000 = c.total

theorem timed_of_whole (hdur : m.slots.map slotMicroseconds = c.durations)
    (hwhole : ∀ slot ∈ m.slots, slot.slotSeconds * 1000000 = slotMicroseconds slot) : Timed c m := by
  refine ⟨hdur, ?_⟩
  rw [cycleDuration, MacConfig.foldl_slotSeconds _ hwhole, zero_mul, zero_add, hdur]
  rfl

theorem Configured.timed (hm : Configured cfg m) (h : cfg.Valid) : Timed (cfg.cycle h) m := by
  refine timed_of_whole ?_ fun slot hs => ?_
  · rw [hm.slots]
    exact MacConfig.indexedSlots_map slotMicroseconds fun _ _ => rfl
  · have hmem : slot.slotSeconds ∈ cfg.slot.map ModemTransmission.slotSeconds := by
      rw [← MacConfig.indexedSlots_map ModemTransmission.slotSeconds fun _ _ => rfl, ← hm.slots]
      exact List.mem_map_of_mem hs
    obtain ⟨slot', hs', heq⟩ := List.mem_map.mp hmem
    rw [slotMicroseconds, ← heq]
    exact (h.slotMicroseconds hs').2

theorem Timed.length (hc : Timed c m) : m.slots.length = c.count := by
  rw [Cycle.count, ← hc.durations, List.length_map]

theorem Timed.length_pos (hc : Timed c m) : 0 < m.slots.length := hc.length ▸ c.count_pos

theorem Timed.exists_slot (hc : Timed c m) (p : ℤ) :
    ∃ slot, m.slots[c.slot p]? = some slot ∧ slotMicroseconds slot = c.duration p := by
  have hd := c.getElem?_slot p
  rw [← hc.durations, List.getElem?_map] at hd
  exact Option.map_eq_some_iff.mp hd

/-- The conditions for an update: the reference is in the past, by less than the number of
cycles that can be counted, and the clock does not go back. -/
structure Moment (h : cfg.Valid) (reference now₁ now₂ : ℤ) : Prop where
  isReference : cfg.reference now₁ = some reference
  past : reference ≤ now₁
  recent : now₁ - reference < (2 ^ 32 - 1) * (cfg.cycle h).total
  order : now₁ ≤ now₂

def cycleNumber (h : cfg.Valid) (reference now : ℤ) : ℤ := (now - reference) / (cfg.cycle h).total

theorem nextCycleTime_eq (hc : Timed c m) {reference now : ℤ}
    (href : m.cfg.reference now = some reference) (hpast : reference ≤ now)
    (hrecent : now - reference < (2 ^ 32 - 1) * c.total) :
    m.nextCycleTime now = .ok (some (reference + ((now - reference) / c.total + 1) * c.total)) := by
  have hmicro : m.cycleLength = c.total := hc.total
  have htotal : (0 : ℚ) < c.total := by exact_mod_cast c.total_pos
  have hpos : 0 < m.cycleDuration := by
    have := hmicro ▸ htotal
    unfold cycleLength at this
    linarith
  have hcount : m.CountFits reference now := by
    constructor
    · rw [hmicro]
      have hpast' : (reference : ℚ) ≤ now := by exact_mod_cast hpast
      linarith
    · rw [hmicro]
      exact_mod_cast hrecent
  have hnext : m.nextCycle reference now = (now - reference) / c.total + 1 := by
    obtain ⟨total, ht⟩ := Int.eq_ofNat_of_zero_le c.total_pos.le
    rw [nextCycle, hmicro, ← Int.cast_sub, ht]
    exact congrArg (· + 1) (Rat.floor_intCast_div_natCast _ _)
  rw [nextCycleTime_of_countFits hpos href hcount, hnext, hmicro, ← Int.cast_mul, Int.floor_intCast]

def moved (c : Cycle) (reference p : ℤ) (m : MacManager) : MacManager :=
  { m with currentSlot := c.slot p, nextSlotT := some (c.start reference p) }

theorem incrementSlot_moved (hc : Timed c m) (ht : m.cfg.type ≠ .none) (reference p : ℤ) :
    incrementSlot (m.moved c reference p) = .ok (m.moved c reference (p + 1)) := by
  obtain ⟨slot, hslot, hdur⟩ := hc.exists_slot p
  simp only [incrementSlot, moved, ht, ↓reduceIte, hslot, hdur, hc.length, Ptime.addMicroseconds,
    Option.map_some, Cycle.slot_succ, Cycle.start_succ]

/-- The loop stops at the first slot that does not start before the time given, if it is
allowed at least as many rounds as there are slots or microseconds before. -/
theorem skipSlots_moved (hc : Timed c m) (ht : m.cfg.type ≠ .none)
    (reference p now : ℤ) {fuel : ℕ} (hfuel : now ≤ c.start reference (p + fuel)) :
    ∃ p', skipSlots now fuel (m.moved c reference p) = .ok (m.moved c reference p') ∧
      p ≤ p' ∧ now ≤ c.start reference p' ∧ ∀ j, p ≤ j → j < p' → c.start reference j < now := by
  induction fuel generalizing p with
  | zero =>
    have hstart : now ≤ c.start reference p := by simpa using hfuel
    refine ⟨p, ?_, Int.le_refl p, hstart, fun j hj hj' => by omega⟩
    simp [skipSlots, moved, Ptime.lt, hstart]
  | succ fuel ih =>
    by_cases hstart : c.start reference p < now
    · have hrounds : p + 1 + (fuel : ℤ) = p + ((fuel + 1 : ℕ) : ℤ) := by push_cast; ring
      obtain ⟨p', hrun, hle, hnow, hbefore⟩ := ih (p + 1) (by rw [hrounds]; exact hfuel)
      refine ⟨p', ?_, by omega, hnow, ?_⟩
      · have hlt : (m.moved c reference p).nextSlotT.lt (some now) = true := by
          simp [moved, Ptime.lt, hstart]
        rw [skipSlots, if_pos hlt, incrementSlot_moved hc ht]
        exact hrun
      · intro j hj hj'
        rcases Int.lt_or_eq_of_le hj with hlt | rfl
        · exact hbefore j (by omega) hj'
        · exact hstart
    · refine ⟨p, ?_, Int.le_refl p, by omega, fun j hj hj' => by omega⟩
      simp [skipSlots, moved, Ptime.lt, hstart]

theorem start_add_natCast_le (c : Cycle) (reference p : ℤ) (n : ℕ) :
    c.start reference p + n ≤ c.start reference (p + n) := by
  induction n with
  | zero => simp
  | succ n ih =>
    have hlt : c.start reference (p + n) < c.start reference (p + (n + 1 : ℕ)) :=
      c.start_strictMono reference (by push_cast; omega)
    push_cast at hlt ⊢
    omega

/-- Stepping back a cycle from the start of cycle `q + 1`, the loop ends, and it ends at the
first slot not past if the clock has reached cycle `q`. -/
theorem startInMiddle_spec (hc : Timed c m) (ht : m.cfg.type ≠ .none) (reference q now : ℤ) :
    ∃ p, startInMiddle now { m with
        currentSlot := 0
        nextSlotT := some (reference + (q + 1) * c.total) } = .ok (m.moved c reference p) ∧
      (reference + q * c.total ≤ now → ∀ j, now ≤ c.start reference j ↔ p ≤ j) := by
  have hback : m.moved c reference (q * c.count) = { m with
      currentSlot := 0
      nextSlotT := some (reference + (q + 1) * c.total + -c.total) } := by
    rw [moved, c.slot_mul, c.start_mul]
    congr 2
    ring
  have hfuel : now ≤ c.start reference
      (q * c.count + (m.moved c reference (q * c.count)).skipFuel now) := by
    have hrounds := Nat.le_mul_of_pos_right
      ((now - c.start reference (q * c.count)).toNat + 1) hc.length_pos
    have hadd := start_add_natCast_le c reference (q * c.count)
      ((m.moved c reference (q * c.count)).skipFuel now)
    simp only [skipFuel, moved, Option.map_some, Option.getD_some] at hadd ⊢
    omega
  obtain ⟨p, hrun, -, hnow, hbefore⟩ := skipSlots_moved hc ht reference _ now hfuel
  refine ⟨p, ?_, fun hcycle j => ⟨fun hj => ?_, fun hj => ?_⟩⟩
  · have hdur : truncate (m.cycleDuration * 1000000) = c.total := by
      rw [hc.total, truncate_intCast]
    rw [hback] at hrun
    simp only [startInMiddle, Ptime.addMicroseconds, Option.map_some]
    rw [show cycleDuration { m with
      currentSlot := 0
      nextSlotT := some (reference + (q + 1) * c.total) } = m.cycleDuration from rfl, hdur]
    exact hrun
  · by_contra hlt
    rcases lt_or_ge j (q * c.count) with hj' | hj'
    · have hmono := c.start_strictMono reference hj'
      rw [c.start_mul] at hmono
      omega
    · have := hbefore j hj' (by omega)
      omega
  · exact hnow.trans ((c.start_strictMono reference).monotone hj)

/-- An update moves a manager to the start of the next cycle, or, where cycles are joined in
the middle, to the first slot not past. -/
theorem update_moved (hc : Timed c m) {reference now₁ : ℤ}
    (href : m.cfg.reference now₁ = some reference) (hpast : reference ≤ now₁)
    (hrecent : now₁ - reference < (2 ^ 32 - 1) * c.total) (now₂ : ℤ) :
    ∃ p, update now₁ now₂ m = .ok (if m.startedUp then (m.moved c reference p).restartTimer
        else m.moved c reference p) ∧
      (¬m.inMiddle → p = ((now₁ - reference) / c.total + 1) * c.count) ∧
      (m.inMiddle → now₁ ≤ now₂ → ∀ j, now₂ ≤ c.start reference j ↔ p ≤ j) := by
  have hlen : m.slots.length ≠ 0 := Nat.ne_of_gt hc.length_pos
  set q := (now₁ - reference) / c.total with hq
  -- the update is the move to the first slot followed, once that is known
  have hupdate : ∀ p, joinCycle now₂ { m with
      currentSlot := 0
      nextSlotT := some (reference + (q + 1) * c.total) } = .ok (m.moved c reference p) →
      update now₁ now₂ m = .ok (if m.startedUp then (m.moved c reference p).restartTimer
        else m.moved c reference p) := by
    intro p hp
    rw [update, if_neg hlen, nextCycleTime_eq hc href hpast hrecent]
    show joinCycle now₂ _ >>= _ = _
    rw [← hq, hp]
    rfl
  by_cases hjoin : m.inMiddle
  · obtain ⟨p, hrun, hp⟩ := startInMiddle_spec hc hjoin.2.2 reference q now₂
    refine ⟨p, hupdate p ?_, fun hnot => absurd hjoin hnot, fun _ horder => hp ?_⟩
    · rw [joinCycle]
      exact (if_pos hjoin).trans hrun
    · have := Int.ediv_mul_le (now₁ - reference) (Int.ne_of_gt c.total_pos)
      rw [← hq] at this
      omega
  · refine ⟨(q + 1) * c.count, hupdate _ ?_, fun _ => rfl, fun hin => absurd hin hjoin⟩
    rw [joinCycle, moved, c.slot_mul, c.start_mul]
    exact if_neg hjoin

/-- The time from which a manager follows the schedule after an update: at once if cycles are
joined in the middle, and from the next cycle on otherwise. -/
def follows (h : cfg.Valid) (reference now₁ now₂ : ℤ) : ℤ :=
  if cfg.startCycleInMiddle = true ∧ cfg.slot.length > 1 then now₂
  else reference + (cycleNumber h reference now₁ + 1) * (cfg.cycle h).total

/-- An update moves a manager to the first slot from which it follows the schedule. -/
theorem update_spec (h : cfg.Valid) (ht : cfg.type ≠ .none) (hm : Configured cfg m)
    {reference now₁ now₂ : ℤ} (hmom : Moment h reference now₁ now₂) :
    ∃ p, update now₁ now₂ m = .ok (if m.startedUp then (m.moved (cfg.cycle h) reference p).restartTimer
        else m.moved (cfg.cycle h) reference p) ∧
      ∀ j, follows h reference now₁ now₂ ≤ (cfg.cycle h).start reference j ↔ p ≤ j := by
  have hmiddle : m.inMiddle ↔ cfg.startCycleInMiddle = true ∧ cfg.slot.length > 1 := by
    simp [inMiddle, hm.config, hm.slots, MacConfig.indexedSlots_length, ht]
  have href : m.cfg.reference now₁ = some reference := by
    rw [hm.config]
    exact hmom.isReference
  obtain ⟨p, hrun, hnext, hin⟩ := update_moved (hm.timed h) href hmom.past hmom.recent now₂
  refine ⟨p, hrun, fun j => ?_⟩
  by_cases hjoin : cfg.startCycleInMiddle = true ∧ cfg.slot.length > 1
  · rw [follows, if_pos hjoin]
    exact hin (hmiddle.mpr hjoin) hmom.order j
  · rw [follows, if_neg hjoin, hnext (fun h => hjoin (hmiddle.mp h)), ← Cycle.start_mul]
    exact ((cfg.cycle h).start_strictMono reference).le_iff_le

def expire (late : ℤ) (m : MacManager) : Except Failure (MacManager × List MacEvent) :=
  match m.timer with
  | none => .ok (m, [])
  | some t => beginSlot (t.getD 0 + late) (t.getD 0 + late) (t.getD 0 + late) m

def afterSlots (late : ℕ → ℤ) (m : MacManager) : ℕ → Except Failure MacManager
  | 0 => .ok m
  | k + 1 => do
      let m' ← afterSlots late m k
      let r ← m'.expire (late k)
      pure r.1

/-- The event occurs at a slot of the time given. -/
def Emits (late : ℕ → ℤ) (m : MacManager) (e : MacEvent) (t : ℤ) : Prop :=
  ∃ k m' r, afterSlots late m k = .ok m' ∧ m'.nextSlotT = some t ∧
    m'.expire (late k) = .ok r ∧ e ∈ r.2

def Starts (late : ℕ → ℤ) (m : MacManager) (s : ModemTransmission) (t : ℤ) : Prop :=
  Emits late m (.slotStart s) t

def Punctual (late : ℕ → ℤ) : Prop := ∀ k, |late k| ≤ 2000000

def startedSlot (h : cfg.Valid) (reference p : ℤ) : ModemTransmission :=
  { MacConfig.slotNumber h p with
    time := some (ptime2unixMicrosec (some ((cfg.cycle h).start reference p))) }

def slotEvents (m : MacManager) (s : ModemTransmission) : List MacEvent :=
  (if m.weAreTransmitting s then [.initiateTransmission s] else []) ++ [.slotStart s]

theorem slotStart_mem_slotEvents {s s' : ModemTransmission} :
    .slotStart s ∈ m.slotEvents s' ↔ s = s' := by
  rw [slotEvents]
  split <;> simp

/-- Without skew, the current slot starts and the timer is set for the next one. -/
theorem beginSlot_punctual {now now₁ now₂ : ℤ} {m m' : MacManager} {slot : ModemTransmission}
    (hskew : ¬|(now / 1000000 : ℚ) - ptime2unixDouble m.nextSlotT| > allowedSkewSeconds)
    (hslot : m.slots[m.currentSlot]? = some slot) (hnext : m.incrementSlot = .ok m') :
    beginSlot now now₁ now₂ m = .ok (m'.restartTimer,
      m.slotEvents { slot with time := some (ptime2unixMicrosec m.nextSlotT) }) := by
  rw [beginSlot, if_neg hskew, hslot]
  simp only [hnext]
  rfl

theorem not_skewed (t : ℤ) {late : ℤ} (hl : |late| ≤ 2000000) :
    ¬|((t + late : ℤ) / 1000000 : ℚ) - t / 1000000| > allowedSkewSeconds := by
  have hl' : |(late : ℚ)| ≤ 2000000 := by exact_mod_cast hl
  have hdiff : ((t + late : ℤ) / 1000000 : ℚ) - t / 1000000 = late / 1000000 := by
    push_cast
    ring
  rw [hdiff, abs_div, allowedSkewSeconds, not_lt, div_le_iff₀ (by norm_num)]
  norm_num
  exact hl'

section

variable (h : cfg.Valid) (ht : cfg.type ≠ .none) (hm : Configured cfg m) (reference p : ℤ)
  {late : ℕ → ℤ}
include h ht hm

theorem expire_moved {late : ℤ} (hl : |late| ≤ 2000000) :
    (m.moved (cfg.cycle h) reference p).restartTimer.expire late =
      .ok ((m.moved (cfg.cycle h) reference (p + 1)).restartTimer,
        m.slotEvents (startedSlot h reference p)) := by
  -- the timer makes no difference to the slots
  have harmed : Configured cfg { m with timer := some (some ((cfg.cycle h).start reference p)) } :=
    ⟨hm.config, hm.slots⟩
  have hnext : (m.moved (cfg.cycle h) reference p).restartTimer.incrementSlot =
      .ok (moved (cfg.cycle h) reference (p + 1) _) :=
    incrementSlot_moved (harmed.timed h) (by rw [hm.config]; exact ht) reference p
  have hslot : (m.moved (cfg.cycle h) reference p).restartTimer.slots[(cfg.cycle h).slot p]? =
      some (MacConfig.slotNumber h p) := by
    rw [← MacConfig.getElem?_slot h p, ← hm.slots]
    rfl
  have hexpire : (m.moved (cfg.cycle h) reference p).restartTimer.expire late =
      beginSlot ((cfg.cycle h).start reference p + late) ((cfg.cycle h).start reference p + late)
        ((cfg.cycle h).start reference p + late)
        (m.moved (cfg.cycle h) reference p).restartTimer := rfl
  have hskew : ¬|(((cfg.cycle h).start reference p + late : ℤ) / 1000000 : ℚ) -
      ptime2unixDouble (m.moved (cfg.cycle h) reference p).restartTimer.nextSlotT| >
        allowedSkewSeconds := not_skewed _ hl
  rw [hexpire, beginSlot_punctual hskew hslot hnext]
  rfl

theorem afterSlots_moved (hl : Punctual late) (k : ℕ) :
    afterSlots late (m.moved (cfg.cycle h) reference p).restartTimer k =
      .ok (m.moved (cfg.cycle h) reference (p + k)).restartTimer := by
  induction k with
  | zero => simp [afterSlots]
  | succ k ih =>
    rw [afterSlots, ih]
    show (expire (late k) _ >>= _) = _
    rw [expire_moved h ht hm reference (p + k) (hl k), show p + ((k + 1 : ℕ) : ℤ) = p + k + 1 by push_cast; ring]
    rfl

/-- From a slot on, a manager has the events of that slot and of all later ones, each at the
time of the slot. -/
theorem emits_moved (hl : Punctual late) (e : MacEvent) (t : ℤ) :
    Emits late (m.moved (cfg.cycle h) reference p).restartTimer e t ↔
      ∃ j, p ≤ j ∧ (cfg.cycle h).start reference j = t ∧
        e ∈ m.slotEvents (startedSlot h reference j) := by
  constructor
  · rintro ⟨k, m', r, hafter, hnext, hexpire, he⟩
    rw [afterSlots_moved h ht hm reference p hl k] at hafter
    obtain rfl := Except.ok.inj hafter
    rw [expire_moved h ht hm reference (p + k) (hl k)] at hexpire
    obtain rfl := Except.ok.inj hexpire
    exact ⟨p + k, by omega, Option.some.inj hnext, he⟩
  · rintro ⟨j, hj, rfl, he⟩
    obtain ⟨k, hk⟩ := Int.eq_ofNat_of_zero_le (show 0 ≤ j - p by omega)
    obtain rfl : j = p + k := by omega
    exact ⟨k, _, _, afterSlots_moved h ht hm reference p hl k, rfl,
      expire_moved h ht hm reference (p + k) (hl k), he⟩

end

end MacManager
end Goby
