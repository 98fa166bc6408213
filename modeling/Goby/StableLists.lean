import Mathlib.Data.List.Nodup
import Mathlib.Data.List.Basic
import Mathlib.Tactic.Common

/-! A `StableList` is a sequence of nodes that are never moved or reused: an iterator
is the address of its node, and it stays valid until that node is erased. Addresses
are handed out in order and never twice, so an iterator kept after its node is gone
can be told from every iterator to a live node. -/

namespace Goby

/-- The nodes in list order. Both facts about addresses are part of the value, so
no operation can build a list in which two nodes share an address. -/
structure StableList (α : Type) where
  nodes : List (ℕ × α)
  next : ℕ
  nodup : (nodes.map Prod.fst).Nodup
  fresh : ∀ n ∈ nodes, n.1 < next

namespace StableList

variable {α : Type} {l : StableList α} {n : ℕ × α} {a : ℕ} {x : α}

def addrs (l : StableList α) : List ℕ := l.nodes.map Prod.fst

def size (l : StableList α) : ℕ := l.nodes.length

def empty : StableList α := ⟨[], 0, by simp, by simp⟩

theorem next_notMem_addrs (l : StableList α) : l.next ∉ l.addrs := by
  intro h
  obtain ⟨n, hn, he⟩ := List.mem_map.mp h
  exact absurd (l.fresh n hn) (by omega)

theorem lt_next_of_mem (h : a ∈ l.addrs) : a < l.next := by
  obtain ⟨n, hn, rfl⟩ := List.mem_map.mp h
  exact l.fresh n hn

def pushBack (l : StableList α) (x : α) : StableList α where
  nodes := l.nodes ++ [(l.next, x)]
  next := l.next + 1
  nodup := by
    rw [List.map_append, List.nodup_append]
    refine ⟨l.nodup, by simp, ?_⟩
    intro a ha b hb he
    have hb' : b = l.next := by simpa using hb
    subst he hb'
    exact l.next_notMem_addrs ha
  fresh := by
    intro n hn
    rcases List.mem_append.mp hn with hn | hn
    · exact Nat.lt_succ_of_lt (l.fresh n hn)
    · rw [List.mem_singleton.mp hn]
      exact Nat.lt_succ_self _

def erase (l : StableList α) (a : ℕ) : StableList α where
  nodes := l.nodes.filter (fun n => n.1 ≠ a)
  next := l.next
  nodup := (List.filter_sublist.map _).nodup l.nodup
  fresh := fun n hn => l.fresh n (List.mem_of_mem_filter hn)

def modify (l : StableList α) (a : ℕ) (f : α → α) : StableList α where
  nodes := l.nodes.map (fun n => if n.1 = a then (n.1, f n.2) else n)
  next := l.next
  nodup := by
    have h : (Prod.fst ∘ fun n : ℕ × α => if n.1 = a then (n.1, f n.2) else n) = Prod.fst := by
      funext n
      by_cases hn : n.1 = a <;> simp [hn]
    rw [List.map_map, h]
    exact l.nodup
  fresh := by
    intro n hn
    obtain ⟨m, hm, rfl⟩ := List.mem_map.mp hn
    have := l.fresh m hm
    split <;> simpa using this

/-- Erases every node; addresses already given out stay unused. -/
def clear (l : StableList α) : StableList α := ⟨[], l.next, by simp, by simp⟩

/-- Dereferences an iterator, if its node is still there. -/
def get? (l : StableList α) (a : ℕ) : Option α :=
  (l.nodes.find? (fun n => n.1 = a)).map Prod.snd

def front? (l : StableList α) : Option (ℕ × α) := l.nodes.head?

def back? (l : StableList α) : Option (ℕ × α) := l.nodes.getLast?

@[simp] theorem addrs_empty : (empty : StableList α).addrs = [] := rfl

section

variable (l : StableList α)

@[simp] theorem addrs_pushBack (x : α) :
    (l.pushBack x).addrs = l.addrs ++ [l.next] := by simp [addrs, pushBack]

@[simp] theorem addrs_erase (a : ℕ) : (l.erase a).addrs = l.addrs.filter (fun b => b ≠ a) := by
  simp [addrs, erase, List.filter_map, Function.comp_def]

@[simp] theorem addrs_modify (a : ℕ) (f : α → α) : (l.modify a f).addrs = l.addrs := by
  simp only [addrs, modify, List.map_map]
  apply List.map_congr_left
  intro n _
  by_cases hn : n.1 = a <;> simp [hn]

end

@[simp] theorem next_empty : (empty : StableList α).next = 0 := rfl

section

variable (l : StableList α)

@[simp] theorem next_pushBack (x : α) : (l.pushBack x).next = l.next + 1 := rfl

@[simp] theorem next_erase (a : ℕ) : (l.erase a).next = l.next := rfl

@[simp] theorem next_modify (a : ℕ) (f : α → α) : (l.modify a f).next = l.next := rfl

@[simp] theorem length_addrs : l.addrs.length = l.size := by
  simp [addrs, size]

theorem addrs_nodup : l.addrs.Nodup := l.nodup

@[simp] theorem size_modify (a : ℕ) (f : α → α) :
    (l.modify a f).size = l.size := by simp [size, modify]

end

theorem mem_nodes_of_get? (h : l.get? a = some x) : (a, x) ∈ l.nodes := by
  simp only [get?, Option.map_eq_some_iff] at h
  obtain ⟨n, hn, rfl⟩ := h
  have hp : n.1 = a := by simpa using List.find?_some hn
  have hm := List.mem_of_find?_eq_some hn
  rw [← hp]
  exact hm

theorem get?_eq_some : l.get? a = some x ↔ (a, x) ∈ l.nodes := by
  constructor
  · exact mem_nodes_of_get?
  · intro h
    have hs : (l.nodes.find? (fun n => n.1 = a)).isSome :=
      List.find?_isSome.mpr ⟨(a, x), h, by simp⟩
    obtain ⟨n, hn⟩ := Option.isSome_iff_exists.mp hs
    have hk : n.1 = a := by simpa using List.find?_some hn
    have he : n = (a, x) := List.inj_on_of_nodup_map l.nodup (List.mem_of_find?_eq_some hn) h hk
    simp [get?, hn, he]

theorem mem_addrs : a ∈ l.addrs ↔ ∃ x, l.get? a = some x := by
  simp only [get?_eq_some, addrs, List.mem_map]
  constructor
  · rintro ⟨n, hn, rfl⟩
    exact ⟨n.2, hn⟩
  · rintro ⟨x, hx⟩
    exact ⟨_, hx, rfl⟩

theorem mem_addrs_of_mem (h : n ∈ l.nodes) : n.1 ∈ l.addrs :=
  List.mem_map_of_mem h

theorem get?_pushBack_of_mem {x y : α} (h : l.get? a = some x) : (l.pushBack y).get? a = some x := by
  rw [get?_eq_some] at h ⊢
  exact List.mem_append_left _ h

theorem get?_erase_of_ne {a b : ℕ} (h : l.get? a = some x)
    (hne : a ≠ b) : (l.erase b).get? a = some x := by
  rw [get?_eq_some] at h ⊢
  exact List.mem_filter.mpr ⟨h, by simpa using hne⟩

theorem get?_modify_self (f : α → α)
    (h : l.get? a = some x) : (l.modify a f).get? a = some (f x) := by
  rw [get?_eq_some] at h ⊢
  exact List.mem_map.mpr ⟨(a, x), h, by simp⟩

theorem get?_modify_of_ne {a b : ℕ} (f : α → α)
    (h : l.get? a = some x) (hne : a ≠ b) : (l.modify b f).get? a = some x := by
  rw [get?_eq_some] at h ⊢
  exact List.mem_map.mpr ⟨(a, x), h, by simp [hne]⟩

@[simp] theorem size_pushBack (l : StableList α) (x : α) : (l.pushBack x).size = l.size + 1 := by
  simp [size, pushBack]

theorem front?_mem (h : l.front? = some n) : n ∈ l.nodes :=
  List.mem_of_head? h

theorem back?_mem (h : l.back? = some n) : n ∈ l.nodes :=
  List.mem_of_getLast? h

theorem get?_of_mem_nodes (h : n ∈ l.nodes) : l.get? n.1 = some n.2 := get?_eq_some.mpr h

theorem nodes_modify (l : StableList α) (a : ℕ) (f : α → α) :
    (l.modify a f).nodes = l.nodes.map (fun n => if n.1 = a then (n.1, f n.2) else n) := rfl

theorem ext {l k : StableList α} (hn : l.nodes = k.nodes) (hx : l.next = k.next) : l = k := by
  cases l; cases k; cases hn; cases hx; rfl

theorem nodes_erase_front {rest : List (ℕ × α)}
    (h : l.nodes = n :: rest) : (l.erase n.1).nodes = rest := by
  have hn := l.nodup
  rw [h, List.map_cons, List.nodup_cons] at hn
  simp only [erase, h]
  rw [List.filter_cons_of_neg (by simp), List.filter_eq_self]
  intro m hm
  have hne : m.1 ≠ n.1 := fun he => hn.1 (he ▸ List.mem_map_of_mem hm)
  simpa using hne

theorem size_erase (h : a ∈ l.addrs) : (l.erase a).size + 1 = l.size := by
  have hp := List.length_erase_of_mem h
  have hpos := List.length_pos_of_mem h
  rw [l.addrs_nodup.erase_eq_filter] at hp
  have he : (l.erase a).size = (l.addrs.filter (fun b => b != a)).length := by
    rw [← length_addrs, addrs_erase]
    congr 1
    apply List.filter_congr
    intro b _
    by_cases hb : b = a <;> simp [hb]
  rw [length_addrs] at hp hpos
  omega

end StableList
end Goby
