import Mathlib.Data.Nat.ModEq
import Mathlib.Tactic.Linarith
import Mathlib.Tactic.Ring

/-! Words below a base `b` are added with more room than one word has, and what has been
carried out of the low word is added to it again until nothing is carried out. The result
is the sum modulo `b - 1`; of the two words for zero it is the word zero only where the sum
itself is zero. Adding the complement of the result therefore always gives the other one. -/

namespace Goby.EndAroundCarry

/-- What has been carried out of the low word, added to it. -/
def carryRound (b s : ℕ) : ℕ := s % b + s / b

/-- The word that a sum becomes when no carry is left. -/
structure FoldsTo (b s r : ℕ) : Prop where
  lt : r < b
  modEq : r ≡ s [MOD b - 1]
  eq_zero_iff : r = 0 ↔ s = 0

variable {b s r : ℕ}

theorem carryRound_of_lt (h : s < b) : carryRound b s = s := by
  rw [carryRound, Nat.mod_eq_of_lt h, Nat.div_eq_of_lt h, Nat.add_zero]

theorem carryRound_modEq (hb : 0 < b) : carryRound b s ≡ s [MOD b - 1] := by
  have hsplit : carryRound b s + (b - 1) * (s / b) = s := by
    have hdiv := Nat.mod_add_div s b
    have hmul : b * (s / b) = (b - 1) * (s / b) + s / b := by
      nth_rewrite 1 [← Nat.sub_add_cancel hb]
      ring
    rw [carryRound]
    omega
  calc
    carryRound b s ≡ carryRound b s + (b - 1) * (s / b) [MOD b - 1] := by
      rw [Nat.ModEq, Nat.add_mul_mod_self_left]
    _ = s := hsplit

theorem carryRound_eq_zero_iff : carryRound b s = 0 ↔ s = 0 := by
  constructor
  · intro h
    have hdiv := Nat.mod_add_div s b
    rw [carryRound, Nat.add_eq_zero_iff] at h
    rw [h.1, h.2] at hdiv
    simpa using hdiv.symm
  · rintro rfl
    simp [carryRound]

/-- A sum of fewer than `b` words needs two rounds at most. -/
theorem carryRound_carryRound_lt (hb : 0 < b)
    (h : s < b * b) : carryRound b (carryRound b s) < b := by
  have hquot : s / b < b := Nat.div_lt_of_lt_mul h
  have hrem : s % b < b := Nat.mod_lt s hb
  have hfirst : carryRound b s < b + (b - 1) := by
    rw [carryRound]
    omega
  rcases Nat.lt_or_ge (carryRound b s) b with hlt | hge
  · rwa [carryRound_of_lt hlt]
  · have hone : carryRound b s / b = 1 := Nat.div_eq_of_lt_le (by omega) (by omega)
    have hsub : carryRound b s % b = carryRound b s - b := by
      rw [Nat.mod_eq_sub_mod hge, Nat.mod_eq_of_lt (by omega)]
    rw [carryRound, hone, hsub]
    omega

theorem iterate_carryRound_lt (hb : 0 < b) (h : s < b * b) {n : ℕ} (hn : 2 ≤ n) :
    (carryRound b)^[n] s < b := by
  induction n, hn using Nat.le_induction with
  | base => exact carryRound_carryRound_lt hb h
  | succ n _ ih => rwa [Function.iterate_succ_apply', carryRound_of_lt ih]

theorem foldsTo_self (h : s < b) : FoldsTo b s s := ⟨h, .rfl, .rfl⟩

theorem FoldsTo.of_carryRound (h : FoldsTo b (carryRound b s) r) : FoldsTo b s r where
  lt := h.lt
  modEq := h.modEq.trans (carryRound_modEq (Nat.zero_lt_of_lt h.lt))
  eq_zero_iff := h.eq_zero_iff.trans carryRound_eq_zero_iff

/-- Only zero and the largest word agree modulo `b - 1`, and they are told apart by the sum. -/
theorem FoldsTo.unique {r' : ℕ} (h : FoldsTo b s r) (h' : FoldsTo b s r') : r = r' := by
  have hmod : r ≡ r' [MOD b - 1] := h.modEq.trans h'.modEq.symm
  have hzero : r = 0 ↔ r' = 0 := h.eq_zero_iff.trans h'.eq_zero_iff.symm
  have hlt := h.lt
  have hlt' := h'.lt
  rcases Nat.lt_or_ge r (b - 1) with hr | hr
  · rcases Nat.lt_or_ge r' (b - 1) with hr' | hr'
    · exact hmod.eq_of_lt_of_lt hr hr'
    · have : r' = b - 1 := by omega
      rw [this, Nat.ModEq, Nat.mod_self, Nat.mod_eq_of_lt hr] at hmod
      omega
  · have : r = b - 1 := by omega
    rw [this, Nat.ModEq, Nat.mod_self] at hmod
    rcases Nat.lt_or_ge r' (b - 1) with hr' | hr'
    · rw [Nat.mod_eq_of_lt hr'] at hmod
      omega
    · omega

/-- With the complement of its word added, a sum becomes the largest word. -/
theorem FoldsTo.add_complement (hb : 2 ≤ b) (h : FoldsTo b s r) : FoldsTo b (s + (b - 1 - r))
    (b - 1) where
  lt := by omega
  modEq := by
    have hlt := h.lt
    calc
      b - 1 = r + (b - 1 - r) := by omega
      _ ≡ s + (b - 1 - r) [MOD b - 1] := h.modEq.add_right _
  eq_zero_iff := by
    have hlt := h.lt
    have hzero := h.eq_zero_iff
    omega

end Goby.EndAroundCarry
