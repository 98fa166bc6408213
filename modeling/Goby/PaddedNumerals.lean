import Mathlib.Data.Nat.Digits.Lemmas
import Mathlib.Data.List.Induction

/-! A list of digits, least significant first, is converted from one base to another as one number.
The zeros at its most significant end are not part of the number: they are counted and put
back, so that converting there and back gives the list again. -/

namespace Goby.Numeral

def msZeros (l : List ℕ) : ℕ := (l.reverse.takeWhile (· = 0)).length

def convert (b b' : ℕ) (l : List ℕ) : List ℕ :=
  Nat.digits b' (Nat.ofDigits b l) ++ List.replicate (msZeros l) 0

def Canonical (l : List ℕ) : Prop := ∀ h : l ≠ [], l.getLast h ≠ 0

theorem exists_canonical (l : List ℕ) :
    ∃ core k, l = core ++ List.replicate k 0 ∧ Canonical core := by
  induction l using List.reverseRecOn with
  | nil => exact ⟨[], 0, rfl, fun h => absurd rfl h⟩
  | append_singleton l d ih =>
    by_cases hd : d = 0
    · obtain ⟨core, k, rfl, hcore⟩ := ih
      refine ⟨core, k + 1, ?_, hcore⟩
      rw [hd, List.append_assoc, List.replicate_succ']
    · refine ⟨l ++ [d], 0, by simp, fun h => ?_⟩
      rw [List.getLast_append_singleton]
      exact hd

theorem msZeros_canonical {core : List ℕ} (h : Canonical core) (k : ℕ) :
    msZeros (core ++ List.replicate k 0) = k := by
  have hzeros : ∀ d ∈ List.replicate k 0, decide (d = 0) = true := by
    intro d hd
    simpa using List.eq_of_mem_replicate hd
  have hcore : core.reverse.takeWhile (· = 0) = [] := by
    cases core using List.reverseRecOn with
    | nil => rfl
    | append_singleton l d =>
      have hd : d ≠ 0 := by simpa using h (by simp)
      simp [hd]
  rw [msZeros, List.reverse_append, List.reverse_replicate, List.takeWhile_append_of_pos hzeros,
    hcore, List.append_nil, List.length_replicate]

theorem canonical_digits (b n : ℕ) : Canonical (Nat.digits b n) := by
  intro h
  exact Nat.getLast_digit_ne_zero b (Nat.digits_ne_nil_iff_ne_zero.mp h)

theorem convert_canonical {b : ℕ} (b' : ℕ) {core : List ℕ} (h : Canonical core) (k : ℕ) :
    convert b b' (core ++ List.replicate k 0) =
      Nat.digits b' (Nat.ofDigits b core) ++ List.replicate k 0 := by
  rw [convert, msZeros_canonical h, Nat.ofDigits_append_replicate_zero]

theorem convert_lt {b b' : ℕ} (hb : 1 < b') {l : List ℕ} : ∀ d ∈ convert b b' l, d < b' := by
  intro d hd
  rcases List.mem_append.mp hd with hd | hd
  · exact Nat.digits_lt_base hb hd
  · rw [List.eq_of_mem_replicate hd]
    omega

/-- Converting to another base and back gives the same digits. -/
theorem convert_convert {b : ℕ} (hb : 1 < b) (b' : ℕ) {l : List ℕ} (hl : ∀ d ∈ l, d < b) :
    convert b' b (convert b b' l) = l := by
  obtain ⟨core, k, rfl, hcore⟩ := exists_canonical l
  have hlt : ∀ d ∈ core, d < b := fun d hd => hl d (List.mem_append_left _ hd)
  rw [convert_canonical b' hcore, convert_canonical b (canonical_digits b' _), Nat.ofDigits_digits,
    Nat.digits_ofDigits b hb core hlt hcore]

end Goby.Numeral
