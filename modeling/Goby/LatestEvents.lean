import Mathlib.Data.List.Induction
import Mathlib.Tactic.Common

/-! Some events of a log start something new, and what follows belongs to the latest of them. A log
is read as far as its last such event, with the events that have come since. What each event has to
do with those before it is shown as the log grows. -/

namespace Goby

variable {ε α : Type} (start : ε → Option α)

/-- What the latest event that starts something has started, and the events since. -/
def since (log : List ε) : Option (α × List ε) :=
  log.foldl (fun latest e =>
    match start e with
    | some a => some (a, [])
    | none => latest.map fun l => (l.1, l.2 ++ [e])) none

variable {start} {log : List ε} {e : ε} {a : α}

theorem since_concat_of_start (h : start e = some a) : since start (log ++ [e]) = some (a, []) := by
  simp [since, h]

theorem since_concat (h : start e = none) :
    since start (log ++ [e]) = (since start log).map fun l => (l.1, l.2 ++ [e]) := by
  simp [since, h]

theorem since_append {events : List ε} (h : ∀ e ∈ events, start e = none) :
    since start (log ++ events) = (since start log).map fun l => (l.1, l.2 ++ events) := by
  induction events generalizing log with
  | nil => simp
  | cons e events ih =>
    obtain ⟨he, hevents⟩ := List.forall_mem_cons.mp h
    rw [List.append_cons, ih hevents, since_concat he, Option.map_map]
    congr 1
    funext l
    simp

/-- The last event is the only one that has to be looked at. -/
theorem forall_events_concat {P : List ε → ε → Prop}
    (h : ∀ before e after, log = before ++ e :: after → P before e) (he : P log e) :
    ∀ before e' after, log ++ [e] = before ++ e' :: after → P before e' := by
  intro before e' after hlog
  cases after using List.reverseRecOn with
  | nil =>
    obtain ⟨rfl, hlast⟩ := List.append_inj' hlog rfl
    exact List.singleton_inj.mp hlast ▸ he
  | append_singleton after _ =>
    rw [← List.cons_append, ← List.append_assoc] at hlog
    exact h before e' after (List.append_inj' hlog rfl).1

end Goby
