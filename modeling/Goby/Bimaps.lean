import Mathlib.Data.List.Basic

/-! A relation that is a partial function both ways, as a list of pairs. Inserting a pair has no
effect if either side is already there. -/

namespace Goby

structure Bimap (α β : Type) where
  pairs : List (α × β)
  left_inj : ∀ p ∈ pairs, ∀ q ∈ pairs, p.1 = q.1 → p = q
  right_inj : ∀ p ∈ pairs, ∀ q ∈ pairs, p.2 = q.2 → p = q

namespace Bimap

variable {α β : Type} {m : Bimap α β} {b : β} {p : α × β} {a a' : α}

def empty : Bimap α β where
  pairs := []
  left_inj := by simp
  right_inj := by simp

instance : EmptyCollection (Bimap α β) := ⟨empty⟩

def swap (m : Bimap α β) : Bimap β α where
  pairs := m.pairs.map Prod.swap
  left_inj := by
    simp only [List.forall_mem_map]
    exact fun p hp q hq heq => congrArg Prod.swap (m.right_inj p hp q hq heq)
  right_inj := by
    simp only [List.forall_mem_map]
    exact fun p hp q hq heq => congrArg Prod.swap (m.left_inj p hp q hq heq)

def left? [DecidableEq α] (m : Bimap α β) (a : α) : Option β :=
  (m.pairs.find? fun p => p.1 = a).map Prod.snd

def right? [DecidableEq β] (m : Bimap α β) (b : β) : Option α := m.swap.left? b

@[simp] theorem left?_empty [DecidableEq α] (a : α) : (∅ : Bimap α β).left? a = none := rfl

theorem left?_eq_some_iff [DecidableEq α] : m.left? a = some b ↔ (a, b) ∈ m.pairs := by
  rw [left?, Option.map_eq_some_iff]
  constructor
  · rintro ⟨p, hp, rfl⟩
    have hfst : p.1 = a := by simpa using List.find?_some hp
    rw [← hfst]
    exact List.mem_of_find?_eq_some hp
  · intro h
    cases hf : m.pairs.find? fun p => p.1 = a with
    | none => simpa using List.find?_eq_none.mp hf _ h
    | some p =>
      have hfst : p.1 = a := by simpa using List.find?_some hf
      refine ⟨p, rfl, ?_⟩
      rw [m.left_inj p (List.mem_of_find?_eq_some hf) _ h hfst]

theorem right?_eq_some_iff [DecidableEq β] : m.right? b = some a ↔ (a, b) ∈ m.pairs := by
  rw [right?, left?_eq_some_iff, swap, List.mem_map]
  constructor
  · rintro ⟨p, hp, heq⟩
    rw [← Prod.swap_swap p, heq] at hp
    exact hp
  · exact fun h => ⟨(a, b), h, rfl⟩

variable [DecidableEq α] [DecidableEq β] {l : List (α × β)}

omit [DecidableEq β] in
theorem not_mem_of_left? (h : m.left? a = none) (b : β) : (a, b) ∉ m.pairs := by
  intro hmem
  rw [left?_eq_some_iff.mpr hmem] at h
  cases h

omit [DecidableEq α] in
theorem not_mem_of_right? (h : m.right? b = none) (a : α) : (a, b) ∉ m.pairs := by
  intro hmem
  rw [right?_eq_some_iff.mpr hmem] at h
  cases h

omit [DecidableEq α] [DecidableEq β] in
theorem inj_cons {γ : Type} {f : α × β → γ}
    (hl : ∀ p ∈ l, ∀ q ∈ l, f p = f q → p = q) (hp : ∀ q ∈ l, f q ≠ f p) :
    ∀ q ∈ p :: l, ∀ r ∈ p :: l, f q = f r → q = r := by
  simp only [List.forall_mem_cons]
  exact ⟨⟨fun _ => trivial, fun r hr heq => absurd heq.symm (hp r hr)⟩,
    fun q hq => ⟨fun heq => absurd heq (hp q hq), hl q hq⟩⟩

def insert (m : Bimap α β) (a : α) (b : β) : Bimap α β :=
  if h : m.left? a = none ∧ m.right? b = none then
    { pairs := (a, b) :: m.pairs
      left_inj := inj_cons m.left_inj fun q hq (heq : q.1 = a) => not_mem_of_left? h.1 q.2 (heq ▸ hq)
      right_inj := inj_cons m.right_inj fun q hq (heq : q.2 = b) => not_mem_of_right? h.2 q.1 (heq ▸ hq) }
  else m

def eraseRight (m : Bimap α β) (b : β) : Bimap α β where
  pairs := m.pairs.filter fun p => p.2 ≠ b
  left_inj p hp q hq := m.left_inj p (List.mem_filter.mp hp).1 q (List.mem_filter.mp hq).1
  right_inj p hp q hq := m.right_inj p (List.mem_filter.mp hp).1 q (List.mem_filter.mp hq).1

/-- `replace_data` in the left map: another value for `a`, unless some pair has that value. -/
def replaceLeft (m : Bimap α β) (a : α) (b : β) : Bimap α β :=
  if h : m.right? b = none then
    { pairs := m.pairs.map fun p => if p.1 = a then (a, b) else p
      left_inj := by
        simp only [List.forall_mem_map]
        intro p' hp' q' hq' heq
        by_cases hpa : p'.1 = a <;> by_cases hqa : q'.1 = a <;> simp only [hpa, hqa, if_true, if_false] at heq ⊢
        · exact absurd heq.symm hqa
        · exact m.left_inj p' hp' q' hq' heq
      right_inj := by
        simp only [List.forall_mem_map]
        intro p' hp' q' hq' heq
        by_cases hpa : p'.1 = a <;> by_cases hqa : q'.1 = a <;> simp only [hpa, hqa, if_true, if_false] at heq ⊢
        · exact absurd (by rw [heq]; exact hq') (not_mem_of_right? h q'.1)
        · exact absurd (by rw [← heq]; exact hp') (not_mem_of_right? h p'.1)
        · exact m.right_inj p' hp' q' hq' heq }
  else m

theorem mem_pairs_replaceLeft_of_ne {b b' : β} (hne : a' ≠ a) :
    (a', b') ∈ (m.replaceLeft a b).pairs ↔ (a', b') ∈ m.pairs := by
  unfold replaceLeft
  split_ifs
  · simp only [List.mem_map]
    constructor
    · rintro ⟨p, hp, heq⟩
      split_ifs at heq
      · exact absurd (Prod.mk.inj heq).1.symm hne
      · exact heq ▸ hp
    · intro h
      exact ⟨(a', b'), h, if_neg hne⟩
  · rfl

theorem left?_replaceLeft_of_ne (hne : a' ≠ a) : (m.replaceLeft a b).left? a' = m.left? a' := by
  apply Option.ext
  intro b'
  rw [left?_eq_some_iff, left?_eq_some_iff, mem_pairs_replaceLeft_of_ne hne]

theorem left?_replaceLeft_self (ha : (m.left? a).isSome)
    (hb : m.right? b = none) : (m.replaceLeft a b).left? a = some b := by
  obtain ⟨b', hb'⟩ := Option.isSome_iff_exists.mp ha
  rw [left?_eq_some_iff] at hb' ⊢
  rw [replaceLeft, dif_pos hb]
  exact List.mem_map.mpr ⟨(a, b'), hb', if_pos rfl⟩

theorem isSome_left?_replaceLeft : ((m.replaceLeft a b).left? a').isSome ↔ (m.left? a').isSome := by
  by_cases hne : a' = a
  · subst hne
    by_cases hb : m.right? b = none
    · constructor
      · intro h
        obtain ⟨b', hb'⟩ := Option.isSome_iff_exists.mp h
        rw [left?_eq_some_iff, replaceLeft, dif_pos hb, List.mem_map] at hb'
        obtain ⟨p, hp, heq⟩ := hb'
        have hkey : p.1 = a' := by
          split_ifs at heq with hpa
          · exact hpa
          · rw [heq]
        exact Option.isSome_iff_exists.mpr ⟨p.2, left?_eq_some_iff.mpr (hkey ▸ hp)⟩
      · intro h
        rw [left?_replaceLeft_self h hb]
        rfl
    · rw [replaceLeft, dif_neg hb]
  · rw [left?_replaceLeft_of_ne hne]

/-- Pairs inserted one after the other; a pair that meets one of its sides is left out. -/
def insertAll (m : Bimap α β) (l : List (α × β)) : Bimap α β := l.foldl (fun m p => m.insert p.1 p.2) m

theorem mem_pairs_insert (h : p ∈ (m.insert a b).pairs) : p = (a, b) ∨ p ∈ m.pairs := by
  unfold insert at h
  split_ifs at h
  · exact List.mem_cons.mp h
  · exact .inr h

theorem pairs_subset_insert (m : Bimap α β) (a : α) (b : β) : m.pairs ⊆ (m.insert a b).pairs := by
  unfold insert
  split_ifs
  · exact List.subset_cons_self _ _
  · exact List.Subset.refl _

theorem mem_pairs_insertAll (h : p ∈ (m.insertAll l).pairs) : p ∈ m.pairs ∨ p ∈ l := by
  induction l generalizing m with
  | nil => exact .inl h
  | cons q l ih =>
    rcases ih h with h | h
    · rcases mem_pairs_insert h with rfl | h
      · exact .inr (List.mem_cons_self ..)
      · exact .inl h
    · exact .inr (List.mem_cons_of_mem q h)

theorem pairs_subset_insertAll (m : Bimap α β) (l : List (α × β)) :
    m.pairs ⊆ (m.insertAll l).pairs := by
  induction l generalizing m with
  | nil => exact List.Subset.refl _
  | cons q l ih => exact List.Subset.trans (pairs_subset_insert m q.1 q.2) (ih _)

/-- With new and distinct keys, every value finds a place, its own or that of an equal one. -/
theorem exists_mem_pairs_insertAll
    (hl : (l.map Prod.fst).Nodup) (hm : ∀ p ∈ l, m.left? p.1 = none) (hp : p ∈ l) :
    ∃ a, (a, p.2) ∈ (m.insertAll l).pairs := by
  induction l generalizing m with
  | nil => simp at hp
  | cons q l ih =>
    rw [List.map_cons, List.nodup_cons] at hl
    rcases List.mem_cons.mp hp with rfl | hp
    · have hplaced : ∃ a, (a, p.2) ∈ (m.insert p.1 p.2).pairs := by
        by_cases hb : m.right? p.2 = none
        · refine ⟨p.1, ?_⟩
          rw [insert, dif_pos ⟨hm p (List.mem_cons_self ..), hb⟩]
          exact List.mem_cons_self ..
        · obtain ⟨a, ha⟩ := Option.ne_none_iff_exists'.mp hb
          exact ⟨a, pairs_subset_insert m _ _ (right?_eq_some_iff.mp ha)⟩
      obtain ⟨a, ha⟩ := hplaced
      exact ⟨a, pairs_subset_insertAll _ l ha⟩
    · apply ih hl.2 _ hp
      intro r hr
      have hfresh := hm r (List.mem_cons_of_mem q hr)
      by_contra hsome
      obtain ⟨b, hb⟩ := Option.ne_none_iff_exists'.mp hsome
      rcases mem_pairs_insert (left?_eq_some_iff.mp hb) with heq | hmem
      · exact hl.1 (List.mem_map.mpr ⟨r, hr, (Prod.mk.inj heq).1⟩)
      · exact not_mem_of_left? hfresh b hmem

theorem left?_insert (ha : m.left? a = none) (hb : m.right? b = none)
    (a' : α) : ((m.insert a b).left? a').isSome ↔ a' = a ∨ (m.left? a').isSome := by
  rw [insert, dif_pos ⟨ha, hb⟩]
  simp only [Option.isSome_iff_exists, left?_eq_some_iff, List.mem_cons, Prod.mk.injEq]
  constructor
  · rintro ⟨b', ⟨rfl, -⟩ | h⟩
    · exact .inl rfl
    · exact .inr ⟨b', h⟩
  · rintro (rfl | ⟨b', h⟩)
    · exact ⟨b, .inl ⟨rfl, rfl⟩⟩
    · exact ⟨b', .inr h⟩

theorem left?_eraseRight (h : m.right? b = some a) (a' : α) :
    ((m.eraseRight b).left? a').isSome ↔ a' ≠ a ∧ (m.left? a').isSome := by
  have hab := right?_eq_some_iff.mp h
  simp only [Option.isSome_iff_exists, left?_eq_some_iff, eraseRight, List.mem_filter]
  constructor
  · rintro ⟨b', hmem, hne⟩
    refine ⟨?_, b', hmem⟩
    rintro rfl
    have hsame := m.left_inj _ hmem _ hab rfl
    simp [(Prod.mk.injEq ..).mp hsame] at hne
  · rintro ⟨hne, b', hmem⟩
    refine ⟨b', hmem, ?_⟩
    have hb : b' ≠ b := by
      rintro rfl
      exact hne (Prod.ext_iff.mp (m.right_inj _ hmem _ hab rfl)).1
    simpa using hb

end Bimap
end Goby
