import Mathlib.Algebra.GroupWithZero.Nat
import Mathlib.Data.List.Basic
import Mathlib.Data.List.Induction
import Mathlib.Tactic.Common

/-! A queue whose front alone is worked on: it is attempted any number of times and then
leaves, for some reason, or the queue is cleared. The history of such a queue tells how
often the present front has been attempted. A condition on the removals of a history
is checked one event at a time. With the elements numbered in the order they were queued,
the elements attempted have non-decreasing numbers, and what bounds the attempts at the
front at every time bounds the attempts at every element. -/

namespace Goby

inductive FrontEvent (α ρ : Type) where
  | queued (a : α)
  | wrote (a : α)
  | left (a : α) (reason : ρ)
  | cleared (as : List α)
deriving DecidableEq, Repr

namespace FrontEvent

variable {α ρ : Type} {e : FrontEvent α ρ}

def countAttempt (n : ℕ) : FrontEvent α ρ → ℕ
  | .queued _ => n
  | .wrote _ => n + 1
  | .left _ _ => 0
  | .cleared _ => 0

def attempts (log : List (FrontEvent α ρ)) : ℕ := log.foldl countAttempt 0

@[simp] theorem attempts_append_singleton (log : List (FrontEvent α ρ)) (e : FrontEvent α ρ) :
    attempts (log ++ [e]) = countAttempt (attempts log) e := by
  rw [attempts, List.foldl_append]
  rfl

/-- The events lead from the empty queue to the given one: only the front is attempted
and only the front leaves, and nothing comes or goes without an event. -/
inductive History : List (FrontEvent α ρ) → List α → Prop
  | nil : History [] []
  | queued {log : List (FrontEvent α ρ)} {q : List α} (a : α) :
      History log q → History (log ++ [.queued a]) (q ++ [a])
  | wrote {log : List (FrontEvent α ρ)} {q : List α} {a : α} :
      History log (a :: q) → History (log ++ [.wrote a]) (a :: q)
  | left {log : List (FrontEvent α ρ)} {q : List α} {a : α} (reason : ρ) :
      History log (a :: q) → History (log ++ [.left a reason]) q
  | cleared {log : List (FrontEvent α ρ)} {q : List α} :
      History log q → History (log ++ [.cleared q]) []

/-- Every removal meets the condition, given the attempts made until then. -/
def RemovalsMeet (P : α → ρ → ℕ → Prop) (log : List (FrontEvent α ρ)) : Prop :=
  ∀ before a reason after, log = before ++ .left a reason :: after → P a reason (attempts before)

theorem removalsMeet_nil (P : α → ρ → ℕ → Prop) : RemovalsMeet P [] := by
  intro before a reason after h
  simp at h

variable {P : α → ρ → ℕ → Prop} {log : List (FrontEvent α ρ)}

/-- One more event: only a removal has something to meet. -/
theorem RemovalsMeet.append_singleton (h : RemovalsMeet P log)
    (he : ∀ a reason, e = .left a reason → P a reason (attempts log)) :
    RemovalsMeet P (log ++ [e]) := by
  intro before a reason after hlog
  rcases List.eq_nil_or_concat after with rfl | ⟨after, e', rfl⟩
  · obtain ⟨rfl, hlast⟩ := List.append_inj' hlog rfl
    exact he a reason (List.singleton_inj.mp hlast)
  · rw [List.concat_eq_append, ← List.cons_append, ← List.append_assoc] at hlog
    obtain ⟨rfl, -⟩ := List.append_inj' hlog rfl
    exact h before a reason after rfl

theorem RemovalsMeet.queued (h : RemovalsMeet P log) (a : α) : RemovalsMeet P (log ++ [.queued a]) :=
  h.append_singleton nofun

theorem RemovalsMeet.wrote (h : RemovalsMeet P log) (a : α) : RemovalsMeet P (log ++ [.wrote a]) :=
  h.append_singleton nofun

theorem RemovalsMeet.cleared (h : RemovalsMeet P log) (as : List α) :
    RemovalsMeet P (log ++ [.cleared as]) :=
  h.append_singleton nofun

theorem RemovalsMeet.left (h : RemovalsMeet P log) {a : α} {reason : ρ}
    (hp : P a reason (attempts log)) : RemovalsMeet P (log ++ [.left a reason]) := by
  apply h.append_singleton
  rintro _ _ ⟨⟩
  exact hp

def departures : FrontEvent α ρ → ℕ
  | .queued _ => 0
  | .wrote _ => 0
  | .left _ _ => 1
  | .cleared as => as.length

def departed (log : List (FrontEvent α ρ)) : ℕ := (log.map departures).sum

def queuedElement : FrontEvent α ρ → Option α
  | .queued a => some a
  | _ => none

def elements (log : List (FrontEvent α ρ)) : List α := log.filterMap queuedElement

/-- The attempts with the number of the element each was made at, `n` being the front. -/
def writesFrom (n : ℕ) : List (FrontEvent α ρ) → List (ℕ × α)
  | [] => []
  | .wrote a :: log => (n, a) :: writesFrom n log
  | e :: log => writesFrom (n + departures e) log

def writes (log : List (FrontEvent α ρ)) : List (ℕ × α) := writesFrom 0 log

@[simp] theorem departed_append_singleton (log : List (FrontEvent α ρ)) (e : FrontEvent α ρ) :
    departed (log ++ [e]) = departed log + departures e := by
  simp [departed]

@[simp] theorem elements_append_singleton (log : List (FrontEvent α ρ)) (e : FrontEvent α ρ) :
    elements (log ++ [e]) = elements log ++ (queuedElement e).toList := by
  cases e <;> simp [elements, queuedElement]

theorem writesFrom_append (n : ℕ) (log log' : List (FrontEvent α ρ)) :
    writesFrom n (log ++ log') = writesFrom n log ++ writesFrom (n + departed log) log' := by
  induction log generalizing n with
  | nil => simp [writesFrom, departed]
  | cons e log ih =>
    cases e <;> simp [writesFrom, departed, departures, ih, Nat.add_assoc]

theorem writes_append_singleton (log : List (FrontEvent α ρ)) (e : FrontEvent α ρ) :
    writes (log ++ [e]) = writes log ++ writesFrom (departed log) [e] := by
  rw [writes, writesFrom_append, Nat.zero_add]
  rfl

theorem writes_append_of_ne (he : ∀ a, e ≠ .wrote a) : writes (log ++ [e]) = writes log := by
  rw [writes_append_singleton]
  cases e with
  | wrote a => exact absurd rfl (he a)
  | _ => simp [writesFrom]

theorem writes_append_wrote (log : List (FrontEvent α ρ)) (a : α) :
    writes (log ++ [.wrote a]) = writes log ++ [(departed log, a)] :=
  writes_append_singleton log (.wrote a)

theorem le_departed_of_mem_writes {w : ℕ × α} (h : w ∈ writes log) : w.1 ≤ departed log := by
  induction log using List.reverseRecOn with
  | nil => simp [writes, writesFrom] at h
  | append_singleton log e ih =>
    rw [departed_append_singleton]
    rw [writes_append_singleton, List.mem_append] at h
    rcases h with h | h
    · exact Nat.le_trans (ih h) (Nat.le_add_right _ _)
    · cases e with
      | wrote a =>
        rw [List.mem_singleton.mp h]
        exact Nat.le_add_right _ _
      | _ => simp [writesFrom] at h

theorem pairwise_writes (log : List (FrontEvent α ρ)) : (writes log).Pairwise (fun v w => v.1 ≤ w.1) := by
  induction log using List.reverseRecOn with
  | nil => exact .nil
  | append_singleton log e ih =>
    cases e with
    | wrote a =>
      rw [writes_append_wrote, List.pairwise_append]
      refine ⟨ih, List.pairwise_singleton _ _, ?_⟩
      intro v hv w hw
      rw [List.mem_singleton.mp hw]
      exact le_departed_of_mem_writes hv
    | _ =>
      rw [writes_append_of_ne nofun]
      exact ih

def attemptsAt (log : List (FrontEvent α ρ)) (i : ℕ) : ℕ := ((writes log).map Prod.fst).count i

theorem attemptsAt_append_of_ne (he : ∀ a, e ≠ .wrote a) (i : ℕ) :
    attemptsAt (log ++ [e]) i = attemptsAt log i := by
  rw [attemptsAt, writes_append_of_ne he, attemptsAt]

theorem attemptsAt_append_wrote (log : List (FrontEvent α ρ)) (a : α) (i : ℕ) :
    attemptsAt (log ++ [.wrote a]) i = attemptsAt log i + if departed log = i then 1 else 0 := by
  rw [attemptsAt, writes_append_wrote, List.map_append, List.count_append, List.map_singleton,
    List.count_singleton, attemptsAt]
  simp

theorem attemptsAt_eq_zero {i : ℕ} (hi : departed log < i) : attemptsAt log i = 0 := by
  apply List.count_eq_zero_of_not_mem
  intro hmem
  obtain ⟨w, hw, rfl⟩ := List.mem_map.mp hmem
  exact absurd (le_departed_of_mem_writes hw) (Nat.not_le.mpr hi)

def AttemptsBounded (n : ℕ) (log : List (FrontEvent α ρ)) : Prop :=
  ∀ before, before <+: log → attempts before ≤ n

theorem attemptsBounded_nil (n : ℕ) : AttemptsBounded n ([] : List (FrontEvent α ρ)) := by
  intro before h
  rw [List.prefix_nil.mp h]
  exact Nat.zero_le n

theorem AttemptsBounded.append_singleton {n : ℕ} (h : AttemptsBounded n log)
    (he : attempts (log ++ [e]) ≤ n) : AttemptsBounded n (log ++ [e]) := by
  intro before hbefore
  rcases List.prefix_concat_iff.mp hbefore with rfl | hbefore
  · exact he
  · exact h before hbefore

namespace History

variable {q : List α}

theorem elements_eq (h : History log q) : ∃ gone, gone.length = departed log ∧ elements log = gone ++ q := by
  induction h with
  | nil => exact ⟨[], rfl, rfl⟩
  | queued a _ ih =>
    obtain ⟨gone, hlen, heq⟩ := ih
    exact ⟨gone, by simp [hlen, departures], by simp [heq, queuedElement]⟩
  | wrote _ ih =>
    obtain ⟨gone, hlen, heq⟩ := ih
    exact ⟨gone, by simp [hlen, departures], by simp [heq, queuedElement]⟩
  | @left log q a reason _ ih =>
    obtain ⟨gone, hlen, heq⟩ := ih
    exact ⟨gone ++ [a], by simp [hlen, departures], by simp [heq, queuedElement]⟩
  | @cleared log q _ ih =>
    obtain ⟨gone, hlen, heq⟩ := ih
    exact ⟨gone ++ q, by simp [hlen, departures], by simp [heq, queuedElement]⟩

/-- Every attempt is made at the element that was the front then. -/
theorem getElem?_elements (h : History log q) {i : ℕ} {a : α} (hw : (i, a) ∈ writes log) :
    (elements log)[i]? = some a := by
  have hkeep {log : List (FrontEvent α ρ)} (e : FrontEvent α ρ) (hi : (elements log)[i]? = some a) :
      (elements (log ++ [e]))[i]? = some a := by
    obtain ⟨hlt, hget⟩ := List.getElem?_eq_some_iff.mp hi
    rw [elements_append_singleton, List.getElem?_append_left hlt, hi]
  induction h with
  | nil => simp [writes, writesFrom] at hw
  | @wrote log q b h ih =>
    obtain ⟨gone, hlen, heq⟩ := h.elements_eq
    rw [writes_append_wrote, List.mem_append, List.mem_singleton] at hw
    apply hkeep
    rcases hw with hw | hw
    · exact ih hw
    · cases hw
      rw [heq, ← hlen]
      simp
  | queued b _ ih =>
    rw [writes_append_of_ne nofun] at hw
    exact hkeep _ (ih hw)
  | left reason _ ih =>
    rw [writes_append_of_ne nofun] at hw
    exact hkeep _ (ih hw)
  | cleared _ ih =>
    rw [writes_append_of_ne nofun] at hw
    exact hkeep _ (ih hw)

theorem attempts_eq_zero (h : History log q) (hq : q = []) : attempts log = 0 := by
  cases h with
  | nil => rfl
  | queued => simp at hq
  | wrote => cases hq
  | left => simp [countAttempt]
  | cleared => simp [countAttempt]

/-- The attempts counted are those at the present front. -/
theorem attemptsAt_departed (h : History log q) : attemptsAt log (departed log) = attempts log := by
  induction h with
  | nil => rfl
  | queued a _ ih =>
    rw [attemptsAt_append_of_ne nofun, attempts_append_singleton, departed_append_singleton]
    exact ih
  | @wrote log q a _ ih =>
    rw [attempts_append_singleton, departed_append_singleton, departures, Nat.add_zero,
      attemptsAt_append_wrote, ih, if_pos rfl, countAttempt]
  | left reason _ ih =>
    rw [attemptsAt_append_of_ne nofun, attempts_append_singleton, departed_append_singleton]
    exact attemptsAt_eq_zero (Nat.lt_succ_self _)
  | @cleared log q h ih =>
    rw [attemptsAt_append_of_ne nofun, attempts_append_singleton, departed_append_singleton]
    cases q with
    | nil => exact ih.trans (h.attempts_eq_zero rfl)
    | cons a q => exact attemptsAt_eq_zero (by simp [departures])

/-- What bounds the attempts at the front at every time bounds the attempts at every element. -/
theorem attemptsAt_le (h : History log q) {n : ℕ} (hb : AttemptsBounded n log) (i : ℕ) :
    attemptsAt log i ≤ n := by
  have hbefore {log : List (FrontEvent α ρ)} {e : FrontEvent α ρ} (hb : AttemptsBounded n (log ++ [e])) :
      AttemptsBounded n log := fun before hp => hb before (hp.trans (List.prefix_append _ _))
  induction h with
  | nil => exact Nat.zero_le n
  | @wrote log q a h ih =>
    by_cases hi : departed log = i
    · have hfront := h.wrote.attemptsAt_departed
      rw [departed_append_singleton, departures, Nat.add_zero, hi] at hfront
      rw [hfront]
      exact hb _ List.prefix_rfl
    · rw [attemptsAt_append_wrote, if_neg hi]
      exact ih (hbefore hb)
  | queued a _ ih =>
    rw [attemptsAt_append_of_ne nofun]
    exact ih (hbefore hb)
  | left reason _ ih =>
    rw [attemptsAt_append_of_ne nofun]
    exact ih (hbefore hb)
  | cleared _ ih =>
    rw [attemptsAt_append_of_ne nofun]
    exact ih (hbefore hb)

end History

end FrontEvent

end Goby
