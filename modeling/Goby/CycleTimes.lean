import Goby.MacManager
import Mathlib.Algebra.Order.Floor.Ring
import Mathlib.Data.Rat.Floor
import Mathlib.Order.Bounds.Basic
import Mathlib.Tactic.Linarith
import Mathlib.Tactic.FieldSimp

/-! `next_cycle_time` counts the cycles since the reference and adds one. The count is an `unsigned`,
so it is right as long as the reference is at most one cycle ahead and fewer than `2 ^ 32` cycles
back. The time returned has a resolution of a microsecond. -/

namespace Goby

section Progression

variable {K : Type} [Field K] [LinearOrder K] [IsStrictOrderedRing K] [FloorRing K]

/-- The first term of an arithmetic progression after some point. -/
theorem isLeast_progression {d : K} (hd : 0 < d) (a x : K) :
    IsLeast {y | x < y ∧ ∃ k : ℤ, y = a + k * d} (a + (⌊(x - a) / d⌋ + 1 : ℤ) * d) := by
  have hterm (k : ℤ) : x < a + k * d ↔ ⌊(x - a) / d⌋ < k := by
    rw [Int.floor_lt, div_lt_iff₀ hd, sub_lt_iff_lt_add']
  refine ⟨⟨(hterm _).mpr (Int.lt_succ _), _, rfl⟩, ?_⟩
  rintro y ⟨hy, k, rfl⟩
  have hk : ⌊(x - a) / d⌋ + 1 ≤ k := (hterm k).mp hy
  have hcast : ((⌊(x - a) / d⌋ + 1 : ℤ) : K) ≤ k := by exact_mod_cast hk
  exact add_le_add_right (mul_le_mul_of_nonneg_right hcast hd.le) a

end Progression

theorem truncate_intCast (n : ℤ) : truncate n = n := by simp [truncate]

theorem truncate_of_nonneg {x : ℚ} (h : 0 ≤ x) : truncate x = ⌊x⌋ := if_neg (not_lt.mpr h)

/-- The whole seconds and the microseconds left add up to the whole microseconds. -/
theorem truncate_seconds {x : ℚ} (h : 0 ≤ x) :
    truncate x * 1000000 + truncate ((x - ⌊x⌋) * 1000000) = ⌊x * 1000000⌋ := by
  have hrest : 0 ≤ (x - ⌊x⌋) * 1000000 := mul_nonneg (sub_nonneg.mpr (Int.floor_le x)) (by norm_num)
  have hsplit : (x - ⌊x⌋) * 1000000 = x * 1000000 - (⌊x⌋ * 1000000 : ℤ) := by
    push_cast
    ring
  rw [truncate_of_nonneg h, truncate_of_nonneg hrest, hsplit, Int.floor_sub_intCast]
  omega

theorem double2unsigned_add_one {r : ℚ} (hlow : -1 ≤ r) (hhigh : r < 2 ^ 32 - 1) :
    double2unsigned (r + 1) = .ok (⌊r⌋ + 1).toNat := by
  rw [double2unsigned, if_pos ⟨by linarith, by linarith⟩, truncate_of_nonneg (by linarith),
    Int.floor_add_one]

def MacConfig.referenceTime (cfg : MacConfig) (now : ℤ) : ℤ :=
  match cfg.refTimeType with
  | .startOfDay => startOfDay now
  | .fixed => cfg.fixedRefTime * 1000000

/-- The second before 1970 stands for no time. -/
theorem MacConfig.reference_eq (cfg : MacConfig) (now : ℤ) : cfg.reference now =
    if cfg.refTimeType = .fixed ∧ cfg.fixedRefTime = -1 then none else some (cfg.referenceTime now) := by
  rw [reference, referenceTime]
  cases cfg.refTimeType with
  | startOfDay => simp
  | fixed => simp [unixDouble2ptime]

namespace MacManager

variable {m : MacManager} {reference now : ℤ}

def cycleLength (m : MacManager) : ℚ := m.cycleDuration * 1000000

/-- The number of cycles from the reference to the first cycle that begins after now. -/
def nextCycle (m : MacManager) (reference now : ℤ) : ℤ :=
  ⌊((now : ℚ) - reference) / m.cycleLength⌋ + 1

structure CountFits (m : MacManager) (reference now : ℤ) : Prop where
  ahead : -m.cycleLength ≤ now - reference
  back : now - reference < (2 ^ 32 - 1) * m.cycleLength

/-- While the count fits, the next cycle is found, and its time rounded down. -/
theorem nextCycleTime_of_countFits (hpos : 0 < m.cycleDuration)
    (href : m.cfg.reference now = some reference) (h : m.CountFits reference now) :
    m.nextCycleTime now = .ok (some (reference + ⌊m.nextCycle reference now * m.cycleLength⌋)) := by
  have hmicro : 0 < m.cycleLength := mul_pos hpos (by norm_num)
  have hlow : -1 ≤ ((now : ℚ) - reference) / m.cycleLength := by
    rw [le_div_iff₀ hmicro]
    linarith [h.ahead]
  have hhigh : ((now : ℚ) - reference) / m.cycleLength < 2 ^ 32 - 1 := by
    rw [div_lt_iff₀ hmicro]
    exact h.back
  have hcount := double2unsigned_add_one hlow hhigh
  obtain ⟨k, hk⟩ : ∃ k : ℕ, m.nextCycle reference now = k := by
    have hfloor : -1 ≤ ⌊((now : ℚ) - reference) / m.cycleLength⌋ := Int.le_floor.mpr (by exact_mod_cast hlow)
    exact Int.eq_ofNat_of_zero_le (by unfold nextCycle; omega)
  have hseconds := truncate_seconds (mul_nonneg (Nat.cast_nonneg k) hpos.le)
  rw [mul_assoc] at hseconds
  rw [← nextCycle, hk, Int.toNat_natCast] at hcount
  rw [nextCycleTime, href]
  simp only [hpos.ne', ↓reduceIte]
  rw [Int.cast_sub, ← cycleLength, hcount]
  show Except.ok (some _) = _
  rw [add_assoc, hseconds, hk]
  rfl

/-- Further ahead the count is cut off at zero, or not defined. -/
theorem nextCycleTime_of_not_countFits (hpos : 0 < m.cycleDuration)
    (href : m.cfg.reference now = some reference) (h : ¬ m.CountFits reference now) :
    m.nextCycleTime now = .error .undefined ∨
      m.nextCycleTime now = .ok (some reference) ∧ m.nextCycle reference now = -1 := by
  have hmicro : 0 < m.cycleLength := mul_pos hpos (by norm_num)
  rw [nextCycleTime, href]
  simp only [hpos.ne', ↓reduceIte]
  rw [Int.cast_sub, ← cycleLength, nextCycle]
  generalize hr : ((now : ℚ) - reference) / m.cycleLength = r
  have hsince : (now : ℚ) - reference = r * m.cycleLength := by
    rw [← hr, div_mul_cancel₀ _ hmicro.ne']
  by_cases hrange : -1 < r + 1 ∧ r + 1 < 2 ^ 32
  · right
    -- the count would fit if the reference were at most one cycle ahead
    have hahead : r < -1 := by
      by_contra hr
      refine h ⟨?_, ?_⟩
      · rw [hsince]
        nlinarith
      · rw [hsince]
        exact mul_lt_mul_of_pos_right (by linarith) hmicro
    have hzero : truncate (r + 1) = 0 := by
      rw [truncate, if_pos (by linarith), Int.ceil_eq_zero_iff]
      exact ⟨hrange.1, by linarith⟩
    have hfloor : ⌊r⌋ = -2 := by
      rw [Int.floor_eq_iff]
      constructor <;> push_cast <;> linarith
    refine ⟨?_, by omega⟩
    rw [double2unsigned, if_pos hrange, hzero]
    show Except.ok (some _) = _
    simp [truncate]
  · left
    rw [double2unsigned, if_neg hrange]
    rfl

def cycleStartsAfter (m : MacManager) (now : ℤ) : Set ℚ :=
  {x | now < x ∧ ∃ k : ℤ, x = m.cfg.referenceTime now + k * m.cycleLength}

theorem isLeast_nextCycle (hpos : 0 < m.cycleDuration) (now : ℤ) :
    IsLeast (m.cycleStartsAfter now)
      (m.cfg.referenceTime now + m.nextCycle (m.cfg.referenceTime now) now * m.cycleLength) :=
  isLeast_progression (mul_pos hpos (by norm_num)) _ _

/-- The exact conditions under which the earliest later cycle is returned. -/
theorem nextCycleTime_isLeast_iff (m : MacManager) (now : ℤ) (hpos : 0 < m.cycleDuration) :
    (∃ t : ℤ, m.nextCycleTime now = .ok (some t) ∧ IsLeast (m.cycleStartsAfter now) t) ↔
      (m.cfg.refTimeType = .fixed → m.cfg.fixedRefTime ≠ -1) ∧
        m.CountFits (m.cfg.referenceTime now) now ∧
        ∃ n : ℤ, m.nextCycle (m.cfg.referenceTime now) now * m.cycleLength = n := by
  have hleast := isLeast_nextCycle hpos now
  have href := m.cfg.reference_eq now
  constructor
  · rintro ⟨t, ht, htleast⟩
    have htime := htleast.unique hleast
    have hvalid : ¬ (m.cfg.refTimeType = .fixed ∧ m.cfg.fixedRefTime = -1) := by
      intro hnone
      rw [if_pos hnone] at href
      rw [nextCycleTime, href] at ht
      cases ht
    rw [if_neg hvalid] at href
    refine ⟨fun hf hm => hvalid ⟨hf, hm⟩, ?_, t - m.cfg.referenceTime now, ?_⟩
    · by_contra hcount
      rcases nextCycleTime_of_not_countFits hpos href hcount with herror | ⟨hok, hnext⟩
      · rw [herror] at ht
        cases ht
      · rw [hok] at ht
        cases ht
        rw [hnext] at htime
        have hmicro : 0 < m.cycleLength := mul_pos hpos (by norm_num)
        push_cast at htime
        linarith
    · push_cast
      linarith
  · rintro ⟨hvalid, hcount, n, hn⟩
    rw [if_neg fun h => hvalid h.1 h.2] at href
    refine ⟨_, nextCycleTime_of_countFits hpos href hcount, ?_⟩
    rw [hn, Int.floor_intCast, Int.cast_add, ← hn]
    exact hleast

def twoSlots : MacManager where
  cfg := { refTimeType := .fixed, fixedRefTime := 1000 }
  slots := [{ slotSeconds := 10 }, { slotSeconds := 5 }]

/-- After the second cycle has begun, and before the first one has. -/
theorem twoSlots_isLeast :
    0 < twoSlots.cycleDuration ∧
      (∃ t : ℤ, twoSlots.nextCycleTime 1020500000 = .ok (some t) ∧
        IsLeast (twoSlots.cycleStartsAfter 1020500000) t) ∧
      ∃ t : ℤ, twoSlots.nextCycleTime 990000000 = .ok (some t) ∧
        IsLeast (twoSlots.cycleStartsAfter 990000000) t := by
  have hpos : 0 < twoSlots.cycleDuration := by decide +kernel
  have hvalid : twoSlots.cfg.refTimeType = .fixed → twoSlots.cfg.fixedRefTime ≠ -1 := by decide
  refine ⟨hpos, (nextCycleTime_isLeast_iff twoSlots _ hpos).mpr ⟨hvalid, ⟨?_, ?_⟩, 30000000, ?_⟩,
    (nextCycleTime_isLeast_iff twoSlots _ hpos).mpr ⟨hvalid, ⟨?_, ?_⟩, 0, ?_⟩⟩ <;> decide +kernel

/-- Less than two cycles before the reference, the cycle at the reference is returned although one
begins before it. Further before, the count of cycles is not defined. -/
theorem twoSlots_not_isLeast :
    twoSlots.nextCycleTime 980000000 = .ok (some 1000000000) ∧
      (985000000 : ℚ) ∈ twoSlots.cycleStartsAfter 980000000 ∧
      ¬ IsLeast (twoSlots.cycleStartsAfter 980000000) (1000000000 : ℤ) ∧
      twoSlots.nextCycleTime 970000000 = .error .undefined := by
  have hbefore : (985000000 : ℚ) ∈ twoSlots.cycleStartsAfter 980000000 := ⟨by decide +kernel, -1, by decide +kernel⟩
  refine ⟨by decide +kernel, hbefore, ?_, by decide +kernel⟩
  intro hleast
  exact absurd (hleast.2 hbefore) (by decide +kernel)

end MacManager
end Goby
