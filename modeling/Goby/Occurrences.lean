import Mathlib.Data.List.Basic

/-! A search goes through the positions at which the rest of a list has some property, such as to
begin with a given word. The n-th occurrence is looked for behind the end of the one before it.
If no two occurrences overlap, this finds all of them. -/

namespace Goby.Occurrences

variable {α : Type*} (hit : List α → Bool)

def positions : List α → List ℕ
  | [] => []
  | a :: s => if hit (a :: s) then 0 :: (positions s).map (· + 1) else (positions s).map (· + 1)

def findFirst : List α → Option ℕ
  | [] => none
  | a :: s => if hit (a :: s) then some 0 else (findFirst s).map (· + 1)

def findNth (length : ℕ) : List α → ℕ → Option ℕ
  | s, 0 => findFirst hit s
  | s, n + 1 =>
    match findFirst hit s with
    | none => none
    | some i => (findNth length (s.drop (i + length)) n).map (· + (i + length))

/-- The rest of the list from the first occurrence on that is at the front, if that is allowed,
or follows a separator. -/
def firstAfter (separator : α → Bool) : Bool → List α → Option (List α)
  | _, [] => none
  | atFront, a :: s =>
    if atFront ∧ hit (a :: s) then some (a :: s) else firstAfter separator (separator a) s

def Separated (length : ℕ) : Prop :=
  0 < length ∧ ∀ s, hit s = true → ∀ j, 0 < j → j < length → hit (s.drop j) = false

variable {hit}

theorem findFirst_eq_head? (s : List α) : findFirst hit s = (positions hit s).head? := by
  induction s with
  | nil => rfl
  | cons a s ih =>
    by_cases h : hit (a :: s) = true
    · simp [findFirst, positions, h]
    · simp [findFirst, positions, h, ih, List.head?_map]

theorem positions_drop {s : List α} {k : ℕ} (h : ∀ j < k, hit (s.drop j) = false) :
    positions hit s = (positions hit (s.drop k)).map (· + k) := by
  induction k generalizing s with
  | zero => simp
  | succ k ih =>
    cases s with
    | nil => rfl
    | cons a s =>
      have hfirst : hit (a :: s) = false := h 0 (Nat.succ_pos k)
      have hrest : ∀ j < k, hit (s.drop j) = false := fun j hj => h (j + 1) (by omega)
      rw [positions, if_neg (by simp [hfirst]), ih hrest, List.map_map]
      rfl

theorem positions_of_head? {s : List α} {i length : ℕ} (hsep : Separated hit length)
    (h : (positions hit s).head? = some i) :
    positions hit s = i :: (positions hit (s.drop (i + length))).map (· + (i + length)) := by
  induction s generalizing i with
  | nil => simp [positions] at h
  | cons a s ih =>
    by_cases hhit : hit (a :: s) = true
    · have hi : i = 0 := by simpa [positions, hhit, eq_comm] using h
      have hrest : ∀ j < length - 1, hit (s.drop j) = false := fun j hj =>
        hsep.2 (a :: s) hhit (j + 1) (Nat.succ_pos j) (by omega)
      obtain ⟨k, rfl⟩ : ∃ k, length = k + 1 := ⟨length - 1, by have := hsep.1; omega⟩
      subst hi
      simp only [positions, hhit, if_true, Nat.zero_add, List.drop_succ_cons, List.cons.injEq, true_and]
      rw [positions_drop hrest, List.map_map]
      rfl
    · simp only [positions, hhit, Bool.false_eq_true, if_false, List.head?_map,
        Option.map_eq_some_iff] at h ⊢
      obtain ⟨j, hj, rfl⟩ := h
      rw [ih hj, List.map_cons, List.map_map, Nat.add_right_comm, List.drop_succ_cons]
      rfl

theorem findNth_eq {length : ℕ} (hsep : Separated hit length) (s : List α) (n : ℕ) :
    findNth hit length s n = (positions hit s)[n]? := by
  induction n generalizing s with
  | zero => rw [findNth, findFirst_eq_head?, List.head?_eq_getElem?]
  | succ n ih =>
    rw [findNth, findFirst_eq_head?]
    cases hfirst : (positions hit s).head? with
    | none => simp [List.head?_eq_none_iff.mp hfirst]
    | some i =>
      dsimp only
      rw [ih, positions_of_head? hsep hfirst]
      simp

/-- The first position that is the front or follows a separator is where `firstAfter` stops. -/
theorem find?_positions (separator : α → Bool) (atFront : Bool) (s : List α) :
    ((positions hit s).find? fun i => if i = 0 then atFront else (s[i - 1]?).any separator).map s.drop =
      firstAfter hit separator atFront s := by
  induction s generalizing atFront with
  | nil => rfl
  | cons a s ih =>
    have hrest : (((positions hit s).map (· + 1)).find? fun i =>
        if i = 0 then atFront else ((a :: s)[i - 1]?).any separator).map (a :: s).drop =
        firstAfter hit separator (separator a) s := by
      rw [← ih, List.find?_map, Option.map_map]
      have hpred : ((fun i => if i = 0 then atFront else ((a :: s)[i - 1]?).any separator) ∘ (· + 1)) =
          fun i => if i = 0 then separator a else (s[i - 1]?).any separator := by
        funext i
        cases i <;> simp
      rw [hpred]
      rfl
    rw [firstAfter, positions]
    by_cases h : hit (a :: s) = true
    · cases atFront
      · simpa [h, List.find?_cons] using hrest
      · simp [h]
    · simpa [h] using hrest

end Goby.Occurrences
