import Mathlib.Data.List.Nodup
import Mathlib.Data.List.Perm.Subperm
import Mathlib.Data.List.Range
import Mathlib.Data.List.Sort
import Mathlib.Tactic.Common

/-! A sequence is cut into pieces of one length and a piece is found again by its
number. A `FragmentStore` collects fragments by number: it keeps them in increasing
order, and the first fragment put in under a number stays there. A store that holds
as many fragments of one sequence as the sequence has pieces holds all of them. -/

namespace Goby

section Pieces

variable {β : Type}

/-- The piece of the given number when `bs` is cut every `k` elements. -/
def piece (k : ℕ) (bs : List β) (i : ℕ) : List β := (bs.drop (i * k)).take k

theorem length_piece (k : ℕ) (bs : List β) (i : ℕ) :
    (piece k bs i).length = min k (bs.length - i * k) := by
  simp [piece]

theorem flatMap_piece_range (k : ℕ) (bs : List β) (n : ℕ) :
    (List.range n).flatMap (piece k bs) = bs.take (n * k) := by
  induction n with
  | zero => simp
  | succ n ih =>
    rw [List.range_succ, List.flatMap_append, ih, Nat.succ_mul, List.take_add]
    simp [piece]

theorem flatMap_piece_eq {k n : ℕ} {bs : List β} (h : bs.length ≤ n * k) :
    (List.range n).flatMap (piece k bs) = bs := by
  rw [flatMap_piece_range, List.take_of_length_le h]

end Pieces

/-- Numbers in increasing order below `n`, as many as there are, are all of them. -/
theorem eq_range_of_pairwise_lt {l : List ℕ} {n : ℕ} (hs : l.Pairwise (· < ·))
    (hn : ∀ x ∈ l, x < n) (hl : l.length = n) : l = List.range n := by
  have hsub : l ⊆ List.range n := fun x hx => List.mem_range.mpr (hn x hx)
  have hperm : l.Perm (List.range n) := by
    apply (hs.nodup.subperm hsub).perm_of_length_le
    rw [List.length_range, hl]
  apply hperm.eq_of_pairwise _ hs List.pairwise_lt_range
  intro a b _ _ hab hba
  exact absurd hab (Nat.lt_asymm hba)

/-- Fragments by number: the entries stand in strictly increasing order of `key`. -/
structure FragmentStore {α : Type} (key : α → ℕ) where
  entries : List α
  sorted : entries.Pairwise (fun a b => key a < key b)

namespace FragmentStore

variable {α : Type} {key : α → ℕ} {l : List α} {x b : α}

def empty : FragmentStore key := ⟨[], .nil⟩

instance : Inhabited (FragmentStore key) := ⟨empty⟩

@[simp] theorem entries_empty : (empty : FragmentStore key).entries = [] := rfl

def insertEntry (key : α → ℕ) (x : α) : List α → List α
  | [] => [x]
  | a :: l =>
    if key x < key a then x :: a :: l
    else if key a < key x then a :: insertEntry key x l
    else a :: l

theorem eq_or_mem_of_mem_insertEntry (h : b ∈ insertEntry key x l) : b = x ∨ b ∈ l := by
  induction l with
  | nil => exact .inl (List.mem_singleton.mp h)
  | cons a l ih =>
    simp only [insertEntry] at h
    split_ifs at h with hlt hgt
    · simpa using h
    · rcases List.mem_cons.mp h with rfl | h
      · exact .inr (List.mem_cons_self ..)
      · exact (ih h).imp_right (List.mem_cons_of_mem a)
    · exact .inr h

theorem sorted_insertEntry (x : α) (h : l.Pairwise (fun a b => key a < key b)) :
    (insertEntry key x l).Pairwise (fun a b => key a < key b) := by
  induction l with
  | nil => exact List.pairwise_singleton _ x
  | cons a l ih =>
    obtain ⟨ha, hl⟩ := List.pairwise_cons.mp h
    simp only [insertEntry]
    split_ifs with hlt hgt
    · refine List.pairwise_cons.mpr ⟨?_, h⟩
      intro b hb
      rcases List.mem_cons.mp hb with rfl | hb
      · exact hlt
      · exact hlt.trans (ha b hb)
    · refine List.pairwise_cons.mpr ⟨?_, ih hl⟩
      intro b hb
      rcases eq_or_mem_of_mem_insertEntry hb with rfl | hb
      · exact hgt
      · exact ha b hb
    · exact h

theorem mem_insertEntry_of_mem (h : b ∈ l) : b ∈ insertEntry key x l := by
  induction l with
  | nil => simp at h
  | cons a l ih =>
    simp only [insertEntry]
    split_ifs with hlt hgt
    · exact List.mem_cons_of_mem x h
    · rcases List.mem_cons.mp h with rfl | h
      · exact List.mem_cons_self ..
      · exact List.mem_cons_of_mem a (ih h)
    · exact h

theorem exists_key_insertEntry (x : α) (l : List α) : ∃ a ∈ insertEntry key x l, key a = key x := by
  induction l with
  | nil => exact ⟨x, List.mem_singleton_self x, rfl⟩
  | cons a l ih =>
    simp only [insertEntry]
    split_ifs with hlt hgt
    · exact ⟨x, List.mem_cons_self .., rfl⟩
    · obtain ⟨b, hb, hk⟩ := ih
      exact ⟨b, List.mem_cons_of_mem a hb, hk⟩
    · exact ⟨a, List.mem_cons_self .., by omega⟩

/-- `insert` of a map or set: an entry of the same number is kept. -/
def insert (s : FragmentStore key) (x : α) : FragmentStore key :=
  ⟨insertEntry key x s.entries, sorted_insertEntry x s.sorted⟩

def size (s : FragmentStore key) : ℕ := s.entries.length

def last? (s : FragmentStore key) : Option α := s.entries.getLast?

@[simp] theorem size_empty : (empty : FragmentStore key).size = 0 := rfl

theorem insert_entries_ne_nil (s : FragmentStore key) (x : α) : (s.insert x).entries ≠ [] := by
  obtain ⟨a, ha, -⟩ := @exists_key_insertEntry _ key x s.entries
  exact List.ne_nil_of_mem ha

/-- Every entry is the fragment of its number in the family `f` of `n` fragments. -/
def Holds (s : FragmentStore key) (f : ℕ → α) (n : ℕ) : Prop :=
  ∀ a ∈ s.entries, key a < n ∧ a = f (key a)

variable {s : FragmentStore key} {f : ℕ → α} {n : ℕ}

theorem holds_empty : (empty : FragmentStore key).Holds f n := by
  intro a ha
  simp at ha

theorem Holds.insert (h : s.Holds f n) (hn : key x < n) (hx : x = f (key x)) :
    (s.insert x).Holds f n := by
  intro a ha
  rcases eq_or_mem_of_mem_insertEntry ha with rfl | ha
  · exact ⟨hn, hx⟩
  · exact h a ha

theorem mem_insert_iff (h : s.Holds f n) (hx : x = f (key x)) :
    b ∈ (s.insert x).entries ↔ b = x ∨ b ∈ s.entries := by
  constructor
  · exact eq_or_mem_of_mem_insertEntry
  · rintro (rfl | hb)
    · obtain ⟨a, ha, hk⟩ := @exists_key_insertEntry _ key b s.entries
      -- the entry under the number of `b` is `b`, whichever of the two was first
      rcases eq_or_mem_of_mem_insertEntry ha with rfl | ha'
      · exact ha
      · rwa [(h a ha').2, hk, ← hx] at ha
    · exact mem_insertEntry_of_mem hb

theorem keys_pairwise (s : FragmentStore key) : (s.entries.map key).Pairwise (· < ·) :=
  List.pairwise_map.mpr s.sorted

/-- A full store holds the whole family, in order. -/
theorem Holds.entries_eq (h : s.Holds f n) (hsize : s.size = n) :
    s.entries = (List.range n).map f := by
  have hkeys : s.entries.map key = List.range n := by
    apply eq_range_of_pairwise_lt s.keys_pairwise
    · intro k hk
      obtain ⟨a, ha, rfl⟩ := List.mem_map.mp hk
      exact (h a ha).1
    · rw [List.length_map]
      exact hsize
  calc s.entries = s.entries.map (f ∘ key) :=
        (List.map_id s.entries).symm.trans (List.map_congr_left fun a ha => (h a ha).2)
    _ = (List.range n).map f := by rw [← List.map_map, hkeys]

theorem Holds.size_le (h : s.Holds f n) : s.size ≤ n := by
  have hsub : s.entries.map key ⊆ List.range n := by
    intro k hk
    obtain ⟨a, ha, rfl⟩ := List.mem_map.mp hk
    exact List.mem_range.mpr (h a ha).1
  have hle := (s.keys_pairwise.nodup.subperm hsub).length_le
  rwa [List.length_map, List.length_range] at hle

theorem Holds.size_eq (h : s.Holds f n) (hall : ∀ i < n, f i ∈ s.entries)
    (hkey : ∀ i < n, key (f i) = i) : s.size = n := by
  refine le_antisymm h.size_le ?_
  have hsub : List.range n ⊆ s.entries.map key := by
    intro i hi
    have hi := List.mem_range.mp hi
    exact List.mem_map.mpr ⟨f i, hall i hi, hkey i hi⟩
  have hle := (List.nodup_range.subperm hsub).length_le
  rwa [List.length_map, List.length_range] at hle

theorem insertEntry_of_lt (h : ∀ a ∈ l, key a < key x) : insertEntry key x l = l ++ [x] := by
  induction l with
  | nil => rfl
  | cons a l ih =>
    have ha : key a < key x := h a (List.mem_cons_self ..)
    rw [insertEntry, if_neg (Nat.lt_asymm ha), if_pos ha,
      ih fun b hb => h b (List.mem_cons_of_mem a hb), List.cons_append]

theorem foldl_insert_entries (s : FragmentStore key)
    (hl : l.Pairwise (fun a b => key a < key b)) (h : ∀ a ∈ s.entries, ∀ b ∈ l, key a < key b) :
    (l.foldl insert s).entries = s.entries ++ l := by
  induction l generalizing s with
  | nil => simp
  | cons b l ih =>
    obtain ⟨hb, hl⟩ := List.pairwise_cons.mp hl
    have hs : (s.insert b).entries = s.entries ++ [b] :=
      insertEntry_of_lt fun a ha => h a ha b (List.mem_cons_self ..)
    rw [List.foldl_cons, ih _ hl, hs, List.append_assoc, List.singleton_append]
    intro a ha c hc
    rcases eq_or_mem_of_mem_insertEntry ha with rfl | ha
    · exact hb c hc
    · exact h a ha c (List.mem_cons_of_mem b hc)

theorem last?_append_singleton (h : s.entries = l ++ [x]) : s.last? = some x := by
  rw [last?, h, List.getLast?_append_of_ne_nil _ (List.cons_ne_nil x [])]
  rfl

end FragmentStore

end Goby
