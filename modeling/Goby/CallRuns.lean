import Mathlib.Data.List.Induction
import Mathlib.Tactic.Common

/-! The states of a component that is called again and again, each call being one that is
allowed in the state it finds. An invariant is established for the first state and for
every allowed call; a run that is written out is checked by evaluation. -/

namespace Goby

variable {σ κ : Type}

inductive Reached (step : κ → σ → σ) (allowed : σ → κ → Prop) (init : σ) : σ → Prop
  | start : Reached step allowed init init
  | call {s : σ} {c : κ} (h : Reached step allowed init s) (hc : allowed s c) :
      Reached step allowed init (step c s)

def performAll (step : κ → σ → σ) (calls : List κ) (s : σ) : σ := calls.foldl (fun s c => step c s) s

def AllAllowed (step : κ → σ → σ) (allowed : σ → κ → Prop) : List κ → σ → Prop
  | [], _ => True
  | c :: calls, s => allowed s c ∧ AllAllowed step allowed calls (step c s)

instance allAllowed_decidable (step : κ → σ → σ) (allowed : σ → κ → Prop)
    [∀ s c, Decidable (allowed s c)] :
    (calls : List κ) → (s : σ) → Decidable (AllAllowed step allowed calls s)
  | [], _ => isTrue trivial
  | c :: calls, s =>
    have := allAllowed_decidable step allowed calls (step c s)
    inferInstanceAs (Decidable (allowed s c ∧ AllAllowed step allowed calls (step c s)))

section Runs

variable {step : κ → σ → σ} {allowed : σ → κ → Prop} {s : σ}

theorem performAll_append (first rest : List κ) :
    performAll step (first ++ rest) s = performAll step rest (performAll step first s) :=
  List.foldl_append ..

theorem performAll_concat (first : List κ) (c : κ) :
    performAll step (first ++ [c]) s = step c (performAll step first s) := by
  rw [performAll_append]
  rfl

theorem allowed_of_allAllowed {first rest : List κ} {c : κ}
    (h : AllAllowed step allowed (first ++ c :: rest) s) : allowed (performAll step first s) c := by
  induction first generalizing s with
  | nil => exact h.1
  | cons d first ih => exact ih h.2

/-- What holds at the start and is kept by every next call holds all along a run. -/
theorem forall_isPrefix {P : List κ → Prop} {calls : List κ} (hnil : P [])
    (hnext : ∀ first c, first ++ [c] <+: calls → P first → P (first ++ [c])) :
    ∀ first, first <+: calls → P first := by
  intro first
  induction first using List.reverseRecOn with
  | nil => exact fun _ => hnil
  | append_singleton first c ih =>
    exact fun h => hnext first c h (ih ((List.prefix_append first [c]).trans h))

end Runs

namespace Reached

variable {step : κ → σ → σ} {allowed : σ → κ → Prop} {init s : σ}

theorem invariant {P : σ → Prop} (h : Reached step allowed init s) (hinit : P init)
    (hstep : ∀ s c, P s → allowed s c → P (step c s)) : P s := by
  induction h with
  | start => exact hinit
  | call _ hc ih => exact hstep _ _ ih hc

theorem performAll {calls : List κ} (h : Reached step allowed init s)
    (hc : AllAllowed step allowed calls s) :
    Reached step allowed init (Goby.performAll step calls s) := by
  induction calls generalizing s with
  | nil => exact h
  | cons c calls ih => exact ih (.call h hc.1) hc.2

end Reached

end Goby
