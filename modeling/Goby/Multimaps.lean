import Mathlib.Data.List.Basic
import Mathlib.Data.List.Nodup
import Mathlib.Tactic.Common

/-! A multimap is the list of its entries in key order. Entries with equal keys keep
the order in which they were inserted, and a search by key finds the first of them. -/

namespace Goby

abbrev Multimap (κ β : Type) := List (κ × β)

namespace Multimap

variable {β : Type} {m : Multimap ℕ β} {k : ℕ} {e : ℕ × β} {p : ℕ × β → Bool}

/-- Inserts after every entry whose key is not larger. -/
def insert (m : Multimap ℕ β) (k : ℕ) (v : β) : Multimap ℕ β :=
  match m with
  | [] => [(k, v)]
  | e :: rest => if e.1 ≤ k then e :: insert rest k v else (k, v) :: e :: rest

def count (m : Multimap ℕ β) (k : ℕ) : ℕ := m.countP (fun e => e.1 = k)

def find (m : Multimap ℕ β) (k : ℕ) : Option (ℕ × β) := List.find? (fun e => e.1 = k) m

def eraseFound (m : Multimap ℕ β) (k : ℕ) : Multimap ℕ β := List.eraseP (fun e => e.1 = k) m

def eraseUpTo (m : Multimap ℕ β) (k : ℕ) : Multimap ℕ β := List.dropWhile (fun e => e.1 ≤ k) m

def Ordered (m : Multimap ℕ β) : Prop := List.Pairwise (fun e d => e.1 ≤ d.1) m

theorem insert_perm (m : Multimap ℕ β) (k : ℕ) (v : β) : (m.insert k v).Perm ((k, v) :: m) := by
  induction m with
  | nil => exact .refl _
  | cons e rest ih =>
    simp only [insert]
    split_ifs
    · exact (ih.cons e).trans (.swap _ _ _)
    · exact .refl _

@[simp] theorem mem_insert {v : β} : e ∈ m.insert k v ↔ e = (k, v) ∨ e ∈ m := by
  rw [(m.insert_perm k v).mem_iff, List.mem_cons]

theorem countP_insert (p : ℕ × β → Bool) (m : Multimap ℕ β) (k : ℕ) (v : β) :
    List.countP p (m.insert k v) = List.countP p m + if p (k, v) then 1 else 0 := by
  rw [(m.insert_perm k v).countP_eq, List.countP_cons]

theorem filter_insert_of_neg {v : β} (h : p (k, v) = false)
    (m : Multimap ℕ β) : List.filter p (m.insert k v) = List.filter p m := by
  induction m with
  | nil => simp [insert, h]
  | cons e rest ih =>
    simp only [insert]
    split_ifs
    · simp [List.filter_cons, ih]
    · simp [List.filter_cons, h]

namespace Ordered

variable {m : Multimap ℕ β}

theorem insert (h : m.Ordered) (k : ℕ) (v : β) : (m.insert k v).Ordered := by
  induction m with
  | nil => exact List.pairwise_singleton _ _
  | cons e rest ih =>
    obtain ⟨hfirst, hrest⟩ := List.pairwise_cons.mp h
    simp only [Multimap.insert]
    split_ifs with hle
    · refine List.pairwise_cons.mpr ⟨fun d hd => ?_, ih hrest⟩
      rcases mem_insert.mp hd with rfl | hd
      · exact hle
      · exact hfirst d hd
    · refine List.pairwise_cons.mpr ⟨fun d hd => ?_, h⟩
      rcases List.mem_cons.mp hd with rfl | hd
      · exact Nat.le_of_not_le hle
      · exact Nat.le_trans (Nat.le_of_not_le hle) (hfirst d hd)

theorem filter_insert (h : m.Ordered) {k : ℕ} (v : β)
    (hle : ∀ e ∈ m, p e = true → e.1 ≤ k) :
    List.filter p (m.insert k v) = List.filter p m ++ List.filter p [(k, v)] := by
  induction m with
  | nil => rfl
  | cons e rest ih =>
    obtain ⟨hfirst, hrest⟩ := List.pairwise_cons.mp h
    simp only [Multimap.insert]
    split_ifs with hkey
    · have htail := ih hrest fun d hd => hle d (List.mem_cons_of_mem e hd)
      rw [← List.singleton_append, List.filter_append, htail, ← List.append_assoc, ← List.filter_append,
        List.singleton_append]
    · have hnone : List.filter p (e :: rest) = [] := by
        refine List.filter_eq_nil_iff.mpr fun d hd hp => hkey ?_
        rcases List.mem_cons.mp hd with rfl | hd'
        · exact hle d hd hp
        · exact Nat.le_trans (hfirst d hd') (hle d hd hp)
      rw [← List.singleton_append, List.filter_append, hnone, List.append_nil, List.nil_append]

theorem eraseUpTo_eq (h : m.Ordered) (k : ℕ) : m.eraseUpTo k = List.filter (fun e => k < e.1) m := by
  induction m with
  | nil => rfl
  | cons e rest ih =>
    obtain ⟨hfirst, hrest⟩ := List.pairwise_cons.mp h
    by_cases hle : e.1 ≤ k
    · have herase : eraseUpTo (e :: rest) k = eraseUpTo rest k := by simp [eraseUpTo, hle]
      rw [herase, ih hrest, List.filter_cons_of_neg (by simpa using hle)]
    · have hkeep : ∀ d ∈ e :: rest, k < d.1 := by
        intro d hd
        rcases List.mem_cons.mp hd with rfl | hd
        · exact Nat.lt_of_not_le hle
        · exact Nat.lt_of_lt_of_le (Nat.lt_of_not_le hle) (hfirst d hd)
      have herase : eraseUpTo (e :: rest) k = e :: rest := by simp [eraseUpTo, hle]
      rw [herase, List.filter_eq_self.mpr fun d hd => decide_eq_true (hkeep d hd)]

theorem eraseUpTo (h : m.Ordered) (k : ℕ) : (m.eraseUpTo k).Ordered :=
  List.Pairwise.sublist (List.dropWhile_sublist _) h

theorem eraseUpTo_eraseUpTo (h : m.Ordered) {k l : ℕ} (hle : k ≤ l) :
    (m.eraseUpTo k).eraseUpTo l = m.eraseUpTo l := by
  rw [(h.eraseUpTo k).eraseUpTo_eq, h.eraseUpTo_eq, h.eraseUpTo_eq, List.filter_filter]
  refine List.filter_congr fun e _ => ?_
  simp only [Bool.and_eq_left_iff_imp, decide_eq_true_eq]
  exact Nat.lt_of_le_of_lt hle

end Ordered

theorem mem_of_find (h : m.find k = some e) :
    e ∈ m ∧ e.1 = k := ⟨List.mem_of_find?_eq_some h, by simpa using List.find?_some h⟩

theorem count_eq_zero_of_find (h : m.find k = none) : m.count k = 0 := by
  rw [find, List.find?_eq_none] at h
  exact List.countP_eq_zero.mpr h

/-- Erasing the entry that `find` returned lowers exactly its own multiplicity. -/
theorem countP_eraseFound (h : m.find k = some e) (p : ℕ × β → Bool) :
    List.countP p m = List.countP p (m.eraseFound k) + if p e then 1 else 0 := by
  induction m with
  | nil => simp [find] at h
  | cons d rest ih =>
    by_cases hd : d.1 = k
    · have he : d = e := by simpa [find, hd] using h
      subst he
      simp [eraseFound, hd, List.countP_cons]
    · have hr : find rest k = some e := by simpa [find, hd] using h
      have := ih hr
      simp only [eraseFound, List.eraseP_cons, hd, decide_false, cond_false, List.countP_cons]
      simp only [eraseFound] at this
      omega

/-- When no value occurs twice, erasing the first match erases every entry with its value. -/
theorem eraseP_eq_filter {m : Multimap ℕ ℕ} (hn : (m.map Prod.snd).Nodup) {p : ℕ × ℕ → Bool}
    {e : ℕ × ℕ} (h : List.find? p m = some e) :
    List.eraseP p m = List.filter (fun d => d.2 ≠ e.2) m := by
  induction m with
  | nil => simp at h
  | cons d rest ih =>
    rw [List.map_cons, List.nodup_cons] at hn
    by_cases hd : p d = true
    · have he : d = e := by simpa [hd] using h
      subst he
      have hkeep : List.filter (fun c : ℕ × ℕ => c.2 ≠ d.2) rest = rest := by
        rw [List.filter_eq_self]
        intro c hc
        have hne : c.2 ≠ d.2 := fun he => hn.1 (he ▸ List.mem_map_of_mem hc)
        simpa using hne
      rw [List.eraseP_cons_of_pos hd, List.filter_cons_of_neg (by simp), hkeep]
    · have hr : List.find? p rest = some e := by simpa [hd] using h
      have hne : d.2 ≠ e.2 := fun he =>
        hn.1 (he ▸ List.mem_map_of_mem (List.mem_of_find?_eq_some hr))
      rw [List.eraseP_cons_of_neg hd, ih hn.2 hr, List.filter_cons_of_pos (by simpa using hne)]

end Multimap
end Goby
