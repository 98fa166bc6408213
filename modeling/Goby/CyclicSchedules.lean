import Mathlib.Algebra.BigOperators.Group.List.Basic
import Mathlib.Algebra.Order.BigOperators.Group.List
import Mathlib.Data.Int.ConditionallyCompleteOrder
import Mathlib.Order.Monotone.Basic
import Mathlib.Tactic.Linarith
import Mathlib.Tactic.Ring

/-! A cycle is a non-empty list of positive durations that repeats for ever in both directions.
Its slots are numbered through by the integers, slot 0 of some cycle being number 0. From a
reference time on which cycles begin, the start of every slot follows, and two references
that lie a whole number of cycles apart give the same schedule. -/

namespace Goby

structure Cycle where
  durations : List ℤ
  nonempty : durations ≠ []
  pos : ∀ d ∈ durations, 0 < d

namespace Cycle

variable (c : Cycle) {i : ℕ}

def count : ℕ := c.durations.length

def total : ℤ := c.durations.sum

variable (p : ℤ)

def slot : ℕ := (p % c.count).toNat

def offset (i : ℕ) : ℤ := (c.durations.take i).sum

def start (ref p : ℤ) : ℤ := ref + p / c.count * c.total + c.offset (c.slot p)

theorem count_pos : 0 < c.count := List.length_pos_of_ne_nil c.nonempty

theorem total_pos : 0 < c.total := List.sum_pos _ c.pos c.nonempty

theorem slot_lt : c.slot p < c.count := by
  have hn : (0 : ℤ) < c.count := by exact_mod_cast c.count_pos
  have hlt := Int.emod_lt_of_pos p hn
  have hnonneg := Int.emod_nonneg p (Int.ne_of_gt hn)
  unfold slot
  omega

@[simp] theorem offset_zero : c.offset 0 = 0 := rfl

@[simp] theorem offset_count : c.offset c.count = c.total := by
  rw [offset, count, List.take_length, total]

theorem offset_succ (hi : i < c.durations.length) :
    c.offset (i + 1) = c.offset i + c.durations[i] := by
  rw [offset, offset, List.take_succ_eq_append_getElem hi, List.sum_append, List.sum_singleton]

theorem slot_eq (q : ℤ) (hi : i < c.count) : c.slot (q * c.count + i) = i := by
  have h : (q * c.count + i) % c.count = i := by
    rw [Int.add_comm, Int.add_mul_emod_self_right]
    exact Int.emod_eq_of_lt (by omega) (by exact_mod_cast hi)
  rw [slot, h, Int.toNat_natCast]

theorem start_eq (ref q : ℤ) (hi : i < c.count) :
    c.start ref (q * c.count + i) = ref + q * c.total + c.offset i := by
  have hn : (c.count : ℤ) ≠ 0 := by
    have := c.count_pos
    omega
  have h : (q * c.count + i) / c.count = q := by
    rw [Int.add_comm, Int.add_mul_ediv_right _ _ hn, Int.ediv_eq_zero_of_lt (by omega)
      (by exact_mod_cast hi), Int.zero_add]
  rw [start, c.slot_eq q hi, h]

theorem exists_eq : ∃ q : ℤ, ∃ i < c.count, p = q * c.count + i := by
  have hn : (0 : ℤ) < c.count := by exact_mod_cast c.count_pos
  refine ⟨p / c.count, c.slot p, c.slot_lt p, ?_⟩
  have hmod := Int.emod_nonneg p (Int.ne_of_gt hn)
  rw [slot, Int.toNat_of_nonneg hmod, Int.mul_comm, Int.mul_ediv_add_emod]

theorem slot_succ : c.slot (p + 1) = if c.slot p + 1 = c.count then 0 else c.slot p + 1 := by
  obtain ⟨q, i, hi, rfl⟩ := c.exists_eq p
  rw [c.slot_eq q hi]
  split
  next hlast =>
    rw [show q * (c.count : ℤ) + i + 1 = (q + 1) * c.count + (0 : ℕ) by rw [← hlast]; push_cast; ring]
    exact c.slot_eq _ c.count_pos
  next hnot =>
    rw [show q * (c.count : ℤ) + i + 1 = q * c.count + (i + 1 : ℕ) by push_cast; ring]
    exact c.slot_eq _ (by omega)

def duration : ℤ := c.durations.get ⟨c.slot p, c.slot_lt p⟩

theorem duration_pos : 0 < c.duration p := c.pos _ (List.get_mem _ _)

theorem getElem?_slot : c.durations[c.slot p]? = some (c.duration p) :=
  List.getElem?_eq_getElem (c.slot_lt p)

/-- The next slot starts when this one is over. -/
theorem start_succ (ref p : ℤ) : c.start ref (p + 1) = c.start ref p + c.duration p := by
  have hslot := c.slot_lt p
  have hoffset : c.offset (c.slot p + 1) = c.offset (c.slot p) + c.duration p := c.offset_succ hslot
  obtain ⟨q, i, hi, rfl⟩ := c.exists_eq p
  rw [c.slot_eq q hi] at hoffset
  rw [c.start_eq ref q hi]
  rcases Nat.lt_or_ge (i + 1) c.count with hnext | hlast
  · rw [show q * (c.count : ℤ) + i + 1 = q * c.count + (i + 1 : ℕ) by push_cast; ring,
      c.start_eq ref q hnext, hoffset]
    ring
  · have hcount : i + 1 = c.count := by omega
    rw [hcount, offset_count] at hoffset
    have hpos : q * (c.count : ℤ) + i + 1 = (q + 1) * c.count + (0 : ℕ) := by
      rw [← hcount]
      push_cast
      ring
    have hstart := c.start_eq ref (q + 1) c.count_pos
    rw [offset_zero] at hstart
    rw [hpos, hstart, add_assoc _ (c.offset i), ← hoffset]
    ring

theorem start_strictMono (ref : ℤ) : StrictMono (c.start ref) := by
  refine strictMono_int_of_lt_succ fun p => ?_
  have := c.duration_pos p
  rw [start_succ]
  omega

theorem start_apart (ref : ℤ) {p q : ℤ} (h : p ≠ q) :
    c.start ref p + c.duration p ≤ c.start ref q ∨ c.start ref q + c.duration q ≤ c.start ref p := by
  rw [← start_succ, ← start_succ, (c.start_strictMono ref).le_iff_le, (c.start_strictMono ref).le_iff_le]
  omega

/-- Every cycle begins a whole number of cycles after the reference. -/
theorem start_mul (ref q : ℤ) : c.start ref (q * c.count) = ref + q * c.total := by
  simpa using c.start_eq ref q c.count_pos

theorem slot_mul (q : ℤ) : c.slot (q * c.count) = 0 := by
  simpa using c.slot_eq q c.count_pos

theorem slot_add_mul (p q : ℤ) : c.slot (p + q * c.count) = c.slot p := by
  rw [slot, slot, Int.add_mul_emod_self_right]

/-- A reference that is some cycles later shifts the numbers by as many cycles. -/
theorem start_shift (ref p q : ℤ) : c.start (ref + q * c.total) p = c.start ref (p + q * c.count) := by
  obtain ⟨k, i, hi, rfl⟩ := c.exists_eq p
  rw [c.start_eq _ k hi, show k * (c.count : ℤ) + i + q * c.count = (k + q) * c.count + i by ring,
    c.start_eq ref (k + q) hi]
  ring

/-- References that lie a whole number of cycles apart give the same schedule. -/
theorem exists_start_of_dvd {ref ref' : ℤ} (h : c.total ∣ ref - ref') (p : ℤ) :
    ∃ p', c.slot p' = c.slot p ∧ c.start ref' p' = c.start ref p := by
  obtain ⟨q, hq⟩ := h
  obtain rfl : ref = ref' + q * c.total := by
    rw [Int.mul_comm q]
    omega
  exact ⟨p + q * c.count, c.slot_add_mul p q, (c.start_shift ref' p q).symm⟩

end Cycle
end Goby
