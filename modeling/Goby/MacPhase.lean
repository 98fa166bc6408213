import Goby.MacSchedule

/-! With a fixed reference time, the next slot of a manager starts a whole number of cycles after
the reference plus the time that the slots before it take, whatever slots are in the list and
however updates and expiries of the timer follow each other. -/

namespace Goby

inductive MacStep where
  | update (now₁ now₂ : ℤ)
  | beginSlot (now now₁ now₂ : ℤ)

namespace MacStep

def run : MacStep → MacManager → Except Failure MacManager
  | .update now₁ now₂, m => m.update now₁ now₂
  | .beginSlot now now₁ now₂, m => (m.beginSlot now now₁ now₂).map fun r => r.1

def reading : MacStep → ℤ
  | .update now₁ _ => now₁
  | .beginSlot _ now₁ _ => now₁

end MacStep

namespace MacManager

variable {m : MacManager} {reference : ℤ} {c : Cycle}

theorem WholeSlots.timed (h : WholeSlots m.slots) : Timed h.cycle m :=
  timed_of_whole rfl fun _ hs => (h.slotMicroseconds hs).2

def cycleMicroseconds (m : MacManager) : ℤ := (m.slots.map slotMicroseconds).sum

theorem Timed.cycleMicroseconds_eq (hc : Timed c m) : m.cycleMicroseconds = c.total :=
  congrArg List.sum hc.durations

def slotStart (m : MacManager) (reference k : ℤ) (i : ℕ) : ℤ :=
  reference + k * m.cycleMicroseconds + ((m.slots.take i).map slotMicroseconds).sum

/-- The current slot is one of the list, and its time is the start of it in some cycle. -/
def InPhase (reference : ℤ) (m : MacManager) : Prop :=
  m.currentSlot < m.slots.length ∧ ∃ k, m.nextSlotT = some (m.slotStart reference k m.currentSlot)

/-- A time is past the reference by less than the number of cycles that can be counted. -/
def Countable (m : MacManager) (reference now : ℤ) : Prop :=
  reference ≤ now ∧ now - reference < (2 ^ 32 - 1) * m.cycleMicroseconds

def runSteps (m : MacManager) : List MacStep → Except Failure MacManager
  | [] => .ok m
  | s :: steps => s.run m >>= fun m' => runSteps m' steps

theorem slotStart_eq (hc : Timed c m) (k : ℤ) {i : ℕ} (hi : i < m.slots.length) :
    m.slotStart reference k i = c.start reference (k * c.count + i) := by
  rw [c.start_eq reference k (hc.length ▸ hi), slotStart, cycleMicroseconds, List.map_take,
    hc.durations]
  rfl

theorem inPhase_moved (hc : Timed c m) (p : ℤ) : InPhase reference (m.moved c reference p) := by
  obtain ⟨k, i, hi, rfl⟩ := c.exists_eq p
  have hlt : i < m.slots.length := hc.length.symm ▸ hi
  have hslot : (m.moved c reference (k * c.count + i)).currentSlot = i := c.slot_eq k hi
  refine ⟨hslot.symm ▸ hlt, k, ?_⟩
  rw [hslot]
  exact congrArg some (slotStart_eq hc k hlt).symm

theorem InPhase.exists_moved (hc : Timed c m) (h : InPhase reference m) :
    ∃ p, m = m.moved c reference p := by
  obtain ⟨hlt, k, hnext⟩ := h
  refine ⟨k * c.count + m.currentSlot, ?_⟩
  rw [moved, c.slot_eq k (hc.length ▸ hlt), ← slotStart_eq hc k hlt, ← hnext]

structure SameSchedule (m m' : MacManager) : Prop where
  cfg : m'.cfg = m.cfg
  slots : m'.slots = m.slots

section

variable (hc : Timed c m)
include hc

theorem Timed.of_same {m' : MacManager} (h : SameSchedule m m') : Timed c m' := by
  refine ⟨by rw [h.slots]; exact hc.durations, ?_⟩
  rw [cycleDuration, h.slots]
  exact hc.total

theorem update_inPhase {now₁ : ℤ}
    (href : m.cfg.reference now₁ = some reference) (hcount : m.Countable reference now₁) (now₂ : ℤ) :
    ∃ m', m.update now₁ now₂ = .ok m' ∧ InPhase reference m' ∧ SameSchedule m m' := by
  have hrecent : now₁ - reference < (2 ^ 32 - 1) * c.total := hc.cycleMicroseconds_eq ▸ hcount.2
  obtain ⟨p, hrun, -⟩ := update_moved hc href hcount.1 hrecent now₂
  refine ⟨_, hrun, ?_⟩
  split
  · exact ⟨inPhase_moved hc p, rfl, rfl⟩
  · exact ⟨inPhase_moved hc p, rfl, rfl⟩

theorem incrementSlot_inPhase (h : InPhase reference m) :
    ∃ m', m.incrementSlot = .ok m' ∧ InPhase reference m' ∧ SameSchedule m m' := by
  by_cases ht : m.cfg.type = .none
  · exact ⟨m, if_pos ht, h, rfl, rfl⟩
  · obtain ⟨p, hp⟩ := h.exists_moved hc
    have hnext := incrementSlot_moved hc ht reference p
    rw [← hp] at hnext
    exact ⟨_, hnext, inPhase_moved hc (p + 1), rfl, rfl⟩

theorem beginSlot_inPhase {now now₁ : ℤ}
    (href : m.cfg.reference now₁ = some reference) (hcount : m.Countable reference now₁)
    (now₂ : ℤ) (h : InPhase reference m) :
    ∃ r, m.beginSlot now now₁ now₂ = .ok r ∧ InPhase reference r.1 ∧ SameSchedule m r.1 := by
  by_cases hskew : |(now / 1000000 : ℚ) - ptime2unixDouble m.nextSlotT| > allowedSkewSeconds
  · have hstopped : Timed c m.stopTimer := hc.of_same ⟨rfl, rfl⟩
    obtain ⟨m', hrun, hphase, hsame⟩ := update_inPhase hstopped href hcount now₂
    refine ⟨(m', []), ?_, hphase, hsame.cfg, hsame.slots⟩
    rw [beginSlot, if_pos hskew, hrun]
    rfl
  · obtain ⟨m', hnext, hphase, hsame⟩ := incrementSlot_inPhase hc h
    have hslot := List.getElem?_eq_getElem h.1
    exact ⟨_, beginSlot_punctual hskew hslot hnext, hphase, hsame.cfg, hsame.slots⟩

theorem step_inPhase (s : MacStep)
    (href : m.cfg.reference s.reading = some reference) (hcount : m.Countable reference s.reading)
    (h : InPhase reference m) :
    ∃ m', s.run m = .ok m' ∧ InPhase reference m' ∧ SameSchedule m m' := by
  cases s with
  | update now₁ now₂ => exact update_inPhase hc href hcount now₂
  | beginSlot now now₁ now₂ =>
    simp only [MacStep.reading] at href hcount
    obtain ⟨r, hrun, hphase, hsame⟩ := beginSlot_inPhase hc href hcount now₂ h
    refine ⟨r.1, ?_, hphase, hsame⟩
    rw [MacStep.run, hrun]
    rfl

end

theorem reference_of_fixed {cfg : MacConfig} (hfixed : cfg.refTimeType = .fixed)
    (href : unixDouble2ptime cfg.fixedRefTime = some reference) (now : ℤ) :
    cfg.reference now = some reference := by
  rw [MacConfig.reference, hfixed]
  exact href

theorem SameSchedule.countable {m' : MacManager} (h : SameSchedule m m') :
    m'.Countable = m.Countable := by
  funext reference now
  rw [Countable, cycleMicroseconds, h.slots]
  rfl

/-- Along a run, the slots and the configuration stay those of the manager `m`. -/
theorem runSteps_inPhase (hc : Timed c m) (hfixed : m.cfg.refTimeType = .fixed)
    (href : unixDouble2ptime m.cfg.fixedRefTime = some reference) {steps : List MacStep}
    (hcount : ∀ s ∈ steps, m.Countable reference s.reading) {m₁ : MacManager}
    (hsame : SameSchedule m m₁) (h : InPhase reference m₁) :
    ∃ m', m₁.runSteps steps = .ok m' ∧ InPhase reference m' ∧ m'.slots = m.slots := by
  induction steps generalizing m₁ with
  | nil => exact ⟨m₁, rfl, h, hsame.slots⟩
  | cons s steps ih =>
    obtain ⟨m₂, hrun, hphase, hstep⟩ := step_inPhase (hc.of_same hsame) s
      (by rw [hsame.cfg]; exact reference_of_fixed hfixed href _)
      (by rw [hsame.countable]; exact hcount s List.mem_cons_self) h
    obtain ⟨m', hrest, hphase', hslots⟩ := ih (fun s hs => hcount s (List.mem_cons_of_mem _ hs))
      ⟨hstep.cfg.trans hsame.cfg, hstep.slots.trans hsame.slots⟩ hphase
    refine ⟨m', ?_, hphase', hslots⟩
    rw [runSteps, hrun]
    exact hrest

def atCycle (m : MacManager) (reference now : ℤ) : MacManager :=
  { m with
    currentSlot := 0
    nextSlotT := some (m.slotStart reference ((now - reference) / m.cycleMicroseconds) 0) }

def FirstStart (m : MacManager) (reference now t : ℤ) : Prop :=
  now ≤ t ∧ (∃ k, ∃ i < m.slots.length, t = m.slotStart reference k i) ∧
    ∀ k, ∀ i < m.slots.length, now ≤ m.slotStart reference k i → t ≤ m.slotStart reference k i

theorem firstStart_of_iff (hc : Timed c m) {now p : ℤ} (h : ∀ j, now ≤ c.start reference j ↔ p ≤ j) :
    m.FirstStart reference now (c.start reference p) := by
  refine ⟨(h p).mpr (Int.le_refl p), ?_, fun k i hi hnow => ?_⟩
  · obtain ⟨k, i, hi, rfl⟩ := c.exists_eq p
    have hlt : i < m.slots.length := hc.length.symm ▸ hi
    exact ⟨k, i, hlt, (slotStart_eq hc k hlt).symm⟩
  · rw [slotStart_eq hc k hi] at hnow ⊢
    exact (c.start_strictMono reference).monotone ((h _).mp hnow)

theorem atCycle_eq (hc : Timed c m) (now : ℤ) :
    m.atCycle reference now = m.moved c reference ((now - reference) / c.total * c.count) := by
  rw [atCycle, slotStart_eq hc _ hc.length_pos, hc.cycleMicroseconds_eq, moved, c.slot_mul]
  simp

/-- A clock that is read no later than the beginning of the next cycle is reached within as
many rounds as there are slots. -/
theorem skipSlots_within (hc : Timed c m) (ht : m.cfg.type ≠ .none) {now₁ now₂ p : ℤ}
    (hcycle : now₂ ≤ m.slotStart reference ((now₁ - reference) / m.cycleMicroseconds + 1) 0)
    (hfirst : reference + (now₁ - reference) / c.total * c.total ≤ now₂)
    (h : ∀ j, now₂ ≤ c.start reference j ↔ p ≤ j) :
    skipSlots now₂ m.slots.length (m.atCycle reference now₁) = .ok (m.moved c reference p) := by
  rw [slotStart_eq hc _ hc.length_pos, hc.cycleMicroseconds_eq] at hcycle
  set q := (now₁ - reference) / c.total with hq
  have hfuel : now₂ ≤ c.start reference (q * c.count + (m.slots.length : ℕ)) := by
    have hnext : q * (c.count : ℤ) + (m.slots.length : ℕ) = (q + 1) * c.count + (0 : ℕ) := by
      rw [hc.length]
      push_cast
      ring
    rw [hnext]
    exact hcycle
  obtain ⟨p', hrun, hle, hnow, hbefore⟩ := skipSlots_moved hc ht reference _ now₂ hfuel
  -- both are the first slot that is not past
  have hp : p ≤ p' := (h p').mp hnow
  have hstart : now₂ ≤ c.start reference p := (h p).mpr (Int.le_refl p)
  have hp' : q * c.count ≤ p := by
    by_contra hlt
    have hmono := c.start_strictMono reference (not_le.mp hlt)
    rw [c.start_mul] at hmono
    omega
  have heq : p' = p := by
    by_contra hne
    have := hbefore p hp' (by omega)
    omega
  rw [atCycle_eq hc, ← hq, hrun, heq]

/-- From an update on, the next slot keeps in phase with a fixed reference; and an update that
joins a cycle in the middle chooses the first slot start that is not before the time it reads
last, within as many rounds as there are slots unless the next cycle begins meanwhile. -/
theorem phase_kept (hs : WholeSlots m.slots) (hfixed : m.cfg.refTimeType = .fixed)
    (href : unixDouble2ptime m.cfg.fixedRefTime = some reference) {now₁ : ℤ}
    (hcount : m.Countable reference now₁) (now₂ : ℤ) :
    (∀ steps : List MacStep, (∀ s ∈ steps, m.Countable reference s.reading) →
      ∃ m', m.runSteps (.update now₁ now₂ :: steps) = .ok m' ∧ InPhase reference m' ∧
        m'.slots = m.slots) ∧
    (m.inMiddle → now₁ ≤ now₂ →
      ∃ m' t, m.update now₁ now₂ = .ok m' ∧ m'.nextSlotT = some t ∧
        m.FirstStart reference now₂ t ∧
        (now₂ ≤ m.slotStart reference ((now₁ - reference) / m.cycleMicroseconds + 1) 0 →
          ∃ m'', skipSlots now₂ m.slots.length (m.atCycle reference now₁) = .ok m'' ∧
            m''.nextSlotT = some t)) := by
  have hc := WholeSlots.timed hs
  have href₁ := reference_of_fixed hfixed href now₁
  constructor
  · intro steps hsteps
    obtain ⟨m₁, hrun, hphase, hsame⟩ := update_inPhase hc href₁ hcount now₂
    obtain ⟨m', hrest, hphase', hslots⟩ := runSteps_inPhase hc hfixed href hsteps hsame hphase
    refine ⟨m', ?_, hphase', hslots⟩
    rw [runSteps, MacStep.run, hrun]
    exact hrest
  · intro hmiddle horder
    obtain ⟨p, hrun, -, hfirst⟩ := update_moved hc href₁ hcount.1 hcount.2 now₂
    have hp := hfirst hmiddle horder
    refine ⟨_, hs.cycle.start reference p, hrun, ?_, firstStart_of_iff hc hp, fun hcycle => ?_⟩
    · split <;> rfl
    · refine ⟨_, skipSlots_within hc hmiddle.2.2 hcycle ?_ hp, rfl⟩
      have := Int.ediv_mul_le (now₁ - reference) (Int.ne_of_gt hs.cycle.total_pos)
      omega

def secondsManager (type : MacType) : MacManager where
  cfg :=
    { type := type
      refTimeType := .fixed }
  slots := [{ slotSeconds := 1 }, { slotSeconds := 1 }]

theorem secondsManager_whole (type : MacType) : WholeSlots (secondsManager type).slots := by
  refine ⟨List.cons_ne_nil _ _, fun slot hs => ⟨1000000, by decide, ?_⟩⟩
  simp only [secondsManager, List.mem_cons, List.not_mem_nil, or_false, or_self] at hs
  subst hs
  norm_num

/-- Joined half a second into a cycle, the second slot is the next. -/
theorem phase_kept_seconds :
    (∃ m', (secondsManager .polled).runSteps [.update 500000 500000, .beginSlot 1000000 0 0] = .ok m' ∧
      InPhase 0 m') ∧
    ∃ m' t, (secondsManager .polled).update 500000 500000 = .ok m' ∧ m'.nextSlotT = some t ∧
      (secondsManager .polled).FirstStart 0 500000 t := by
  have hcount : (secondsManager .polled).Countable 0 500000 := by constructor <;> decide +kernel
  have h := phase_kept (secondsManager_whole .polled) rfl (show _ = some 0 from rfl) hcount 500000
  constructor
  · obtain ⟨m', hrun, hphase, -⟩ := h.1 [.beginSlot 1000000 0 0] (by
      intro s hs
      rw [List.mem_singleton.mp hs]
      constructor <;> decide +kernel)
    exact ⟨m', hrun, hphase⟩
  · obtain ⟨m', t, hrun, hnext, hfirst, -⟩ := h.2 (by decide +kernel) (by decide)
    exact ⟨m', t, hrun, hnext, hfirst⟩

/-- In the last of 2³² cycles the count of cycles is out of range; a clock that is read again
after the beginning of the next cycle is not reached within one; and without a type of access
control cycles are not joined in the middle. -/
theorem phase_exceptions :
    (let now := (2 ^ 32 - 1) * 2000000
     now - 0 < 2 ^ 32 * (secondsManager .polled).cycleMicroseconds ∧
      ((secondsManager .polled).update now now).map (fun m => m.nextSlotT) = .error .undefined) ∧
    (skipSlots 2000001 2 ((secondsManager .polled).atCycle 0 1999999)).map (fun m => m.nextSlotT) =
      .error .fuel ∧
    ((secondsManager .none).update 500000 500000).map (fun m => m.nextSlotT) =
      .ok (some 2000000) ∧
    (secondsManager .none).slotStart 0 0 1 = 1000000 := by
  decide +kernel

end MacManager
end Goby
