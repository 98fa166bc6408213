import Mathlib.Order.Defs.Unbundled
import Mathlib.Tactic.Common

/-! In a program whose state survives an exception, what matters about a call is the state
it leaves behind on either exit. `Guarantees R m` says that every run of `m` moves the
state along `R`. For a preorder `R` this is closed under sequencing, so a program
guarantees `R` as soon as its parts do. `Ensures` is the contract of one run, for the
places where the next part needs to know what the last one established; `Outcome` is the
same without a state. -/

namespace Goby

variable {ε σ α β : Type} {m : EStateM ε σ α} {s' : σ} {a : α}

@[simp] theorem run_bind (m : EStateM ε σ α) (f : α → EStateM ε σ β) (s : σ) :
    (m >>= f) s = match m s with
      | .ok a s' => f a s'
      | .error e s' => .error e s' := rfl

@[simp] theorem run_map (f : α → β) (m : EStateM ε σ α) (s : σ) :
    (f <$> m) s = match m s with
      | .ok a s' => .ok (f a) s'
      | .error e s' => .error e s' := rfl

@[simp] theorem run_pure (a : α) (s : σ) : (pure a : EStateM ε σ α) s = .ok a s := rfl

@[simp] theorem run_throw (e : ε) (s : σ) : (throw e : EStateM ε σ α) s = .error e s := rfl

@[simp] theorem run_get (s : σ) : (get : EStateM ε σ σ) s = .ok s s := rfl

@[simp] theorem run_set (s s' : σ) : (set s' : EStateM ε σ PUnit) s = .ok ⟨⟩ s' := rfl

@[simp] theorem run_modify (f : σ → σ) (s : σ) :
    (modify f : EStateM ε σ PUnit) s = .ok ⟨⟩ (f s) := rfl

/-- A state is not restored where an exception is caught. -/
theorem run_tryCatch (m : EStateM ε σ α) (f : ε → EStateM ε σ α) (s : σ) :
    tryCatch m f s = match m s with
      | .ok a s' => .ok a s'
      | .error e s' => f e s' := by
  change EStateM.tryCatch m f s = _
  unfold EStateM.tryCatch
  cases m s <;> rfl

/-- The state a run leaves behind, whether or not it throws. -/
def finalState (m : EStateM ε σ α) (s : σ) : σ :=
  match m s with
  | .ok _ s' => s'
  | .error _ s' => s'

/-- The exception of a run that throws one. -/
def failureOf (m : EStateM ε σ α) (s : σ) : Option ε :=
  match m s with
  | .ok _ _ => none
  | .error e _ => some e

/-- What `f` makes of a normal exit. -/
def resultOf {γ : Type} (m : EStateM ε σ α) (s : σ) (f : α → σ → γ) : Option γ :=
  match m s with
  | .ok a s' => some (f a s')
  | .error _ _ => none

theorem resultOf_eq_some {γ : Type} {s : σ} {f : α → σ → γ} {c : γ} :
    resultOf m s f = some c ↔ ∃ a s', m s = .ok a s' ∧ f a s' = c := by
  unfold resultOf
  cases m s <;> simp

/-- The postcondition `Q` on a normal exit from `s` and `E` on an exceptional one. -/
def Ensures (m : EStateM ε σ α) (s : σ) (Q : α → σ → Prop) (E : ε → σ → Prop) : Prop :=
  match m s with
  | .ok a s' => Q a s'
  | .error e s' => E e s'

/-- The postcondition `Q` on a normal exit, if there is one. -/
abbrev Yields (m : EStateM ε σ α) (s : σ) (Q : α → σ → Prop) : Prop := Ensures m s Q fun _ _ => True

/-- Every run moves the state along `R`. -/
def Guarantees (R : σ → σ → Prop) (m : EStateM ε σ α) : Prop := ∀ s, R s (finalState m s)

def Preserves (P : σ → Prop) (s s' : σ) : Prop := P s → P s'

instance (P : σ → Prop) : IsPreorder σ (Preserves P) where
  refl _ h := h
  trans _ _ _ h h' hs := h' (h hs)

namespace Ensures

variable {m : EStateM ε σ α} {s : σ} {Q : α → σ → Prop} {E : ε → σ → Prop}

theorem mono {Q' : α → σ → Prop} {E' : ε → σ → Prop} (h : Ensures m s Q E)
    (hq : ∀ a s', Q a s' → Q' a s') (he : ∀ e s', E e s' → E' e s') : Ensures m s Q' E' := by
  unfold Ensures at h ⊢
  cases hm : m s with
  | ok a s' => exact hq a s' (by simpa [hm] using h)
  | error e s' => exact he e s' (by simpa [hm] using h)

theorem pure (h : Q a s) : Ensures (pure a) s Q E := h

theorem throw {e : ε} (h : E e s) : Ensures (throw e : EStateM ε σ α) s Q E := h

theorem bind {f : α → EStateM ε σ β} {Q : β → σ → Prop}
    (h : Ensures m s (fun a s' => Ensures (f a) s' Q E) E) : Ensures (m >>= f) s Q E := by
  unfold Ensures at h ⊢
  rw [run_bind]
  cases hm : m s with
  | ok a s' => simpa [hm] using h
  | error e s' => simpa [hm] using h

theorem bind_any {f : α → EStateM ε σ β} {Q : β → σ → Prop}
    (h : ∀ a s', Yields (f a) s' Q) : Yields (m >>= f) s Q := by
  apply bind
  unfold Ensures
  cases m s with
  | ok a s' => exact h a s'
  | error e s' => trivial

theorem of_eq {m' : EStateM ε σ α} (h : m s = m' s') (h' : Ensures m' s' Q E) : Ensures m s Q E := by
  unfold Ensures at h' ⊢
  rwa [h]

theorem of_run (h : m s = .ok a s') (hq : Q a s') : Ensures m s Q E := by
  simpa [Ensures, h] using hq

/-- The postcondition may speak of the run itself. -/
theorem with_run (h : Ensures m s Q E) :
    Ensures m s (fun a s' => m s = .ok a s' ∧ Q a s') (fun e s' => m s = .error e s' ∧ E e s') := by
  unfold Ensures at h ⊢
  cases hm : m s with
  | ok a s' => exact ⟨rfl, by simpa [hm] using h⟩
  | error e s' => exact ⟨rfl, by simpa [hm] using h⟩

section Sequences

variable {f : α → EStateM ε σ β} {E' : ε → σ → Prop} {Q' : β → σ → Prop}

theorem andThen (h : Ensures m s Q E) (hf : ∀ a s', Q a s' → Ensures (f a) s' Q' E) :
    Ensures (m >>= f) s Q' E := bind (h.mono hf fun _ _ he => he)

theorem yields {Q' : α → σ → Prop} (h : Ensures m s Q E) (hq : ∀ a s', Q a s' → Q' a s') :
    Yields m s Q' := h.mono hq fun _ _ _ => trivial

theorem andThen_any (h : Ensures m s Q E') (hf : ∀ a s', Q a s' → Yields (f a) s' Q') :
    Yields (m >>= f) s Q' := bind (h.yields hf)

theorem get_bind {f : σ → EStateM ε σ β} (h : Ensures (f s) s Q' E) :
    Ensures (get >>= f) s Q' E := bind h

theorem set_bind {f : PUnit → EStateM ε σ β} (h : Ensures (f ⟨⟩) s' Q' E) :
    Ensures (set s' >>= f) s Q' E := bind h

theorem modify_bind {f : PUnit → EStateM ε σ β} {g : σ → σ} (h : Ensures (f ⟨⟩) (g s) Q' E) :
    Ensures (modify g >>= f) s Q' E := bind h

end Sequences

theorem get {Q : σ → σ → Prop} (h : Q s s) : Ensures (get : EStateM ε σ σ) s Q E := h

theorem set {Q : PUnit → σ → Prop} (h : Q ⟨⟩ s') : Ensures (set s' : EStateM ε σ PUnit) s Q E := h

theorem modify {Q : PUnit → σ → Prop} {f : σ → σ} (h : Q ⟨⟩ (f s)) :
    Ensures (modify f : EStateM ε σ PUnit) s Q E := h

theorem finalState {P : σ → Prop} (h : Ensures m s (fun _ => P) (fun _ => P)) :
    P (finalState m s) := by
  unfold Ensures at h
  unfold Goby.finalState
  cases hm : m s <;> simpa [hm] using h

theorem of_finalState {P : σ → Prop} (h : P (Goby.finalState m s)) :
    Ensures m s (fun _ => P) (fun _ => P) := by
  unfold Goby.finalState at h
  unfold Ensures
  cases hm : m s <;> simpa [hm] using h

theorem and {Q' : α → σ → Prop} {E' : ε → σ → Prop} (h : Ensures m s Q E)
    (h' : Ensures m s Q' E') :
    Ensures m s (fun a t => Q a t ∧ Q' a t) (fun e t => E e t ∧ E' e t) := by
  unfold Ensures at h h' ⊢
  cases hm : m s with
  | ok a s' => exact ⟨by simpa [hm] using h, by simpa [hm] using h'⟩
  | error e s' => exact ⟨by simpa [hm] using h, by simpa [hm] using h'⟩

end Ensures

/-- A run returns if and only if `P`, and then leaves a state with `Q`. -/
structure ReturnsIff (m : EStateM ε σ α) (s : σ) (P : Prop) (Q : σ → Prop) : Prop where
  iff : (∃ a s', m s = .ok a s') ↔ P
  after : ∀ a s', m s = .ok a s' → Q s'

namespace ReturnsIff

variable {m : EStateM ε σ α} {s : σ} {P : Prop} {Q : σ → Prop}

theorem returns {s' : σ} (h : m s = .ok a s') (hq : Q s') (hp : P) : ReturnsIff m s P Q := by
  refine ⟨iff_of_true ⟨a, s', h⟩ hp, fun a' t ht => ?_⟩
  rw [h] at ht
  cases ht
  exact hq

theorem throws {e : ε} {s' : σ} (h : m s = .error e s') (hp : ¬P) : ReturnsIff m s P Q := by
  refine ⟨iff_of_false ?_ hp, fun a t ht => ?_⟩
  · rintro ⟨a, t, ht⟩
    rw [h] at ht
    cases ht
  · rw [h] at ht
    cases ht

theorem congr {P' : Prop} (h : ReturnsIff m s P Q) (hp : P ↔ P') : ReturnsIff m s P' Q :=
  ⟨h.iff.trans hp, h.after⟩

theorem bind {f : α → EStateM ε σ β} {P' : σ → Prop} {Q' : σ → Prop} (h : ReturnsIff m s P Q)
    (hf : ∀ a s', Q s' → ReturnsIff (f a) s' (P' s') Q') :
    ReturnsIff (m >>= f) s (P ∧ ∀ a s', m s = .ok a s' → P' s') Q' := by
  cases hm : m s with
  | ok a s' =>
    have hrest := hf a s' (h.after a s' hm)
    have hrun : (m >>= f) s = f a s' := by rw [run_bind, hm]
    refine ⟨?_, fun b t ht => hrest.after b t (hrun ▸ ht)⟩
    rw [hrun, hrest.iff]
    refine ⟨fun hp => ⟨h.iff.mp ⟨a, s', hm⟩, fun a' t ht => ?_⟩, fun hp => hp.2 a s' rfl⟩
    cases ht
    exact hp
  | error e s' =>
    refine .throws (by rw [run_bind, hm]) fun hp => ?_
    obtain ⟨a, t, ht⟩ := h.iff.mpr hp.1
    rw [hm] at ht
    cases ht

end ReturnsIff

/-- The contract of a computation without state: `Q` on a value and `E` on an exception. -/
def Outcome (x : Except ε α) (Q : α → Prop) (E : ε → Prop) : Prop :=
  match x with
  | .ok a => Q a
  | .error e => E e

namespace Outcome

variable {x : Except ε α} {Q : α → Prop} {E : ε → Prop}

theorem ok (h : Q a) : Outcome (.ok a) Q E := h

theorem error {e : ε} (h : E e) : Outcome (.error e) Q E := h

theorem mono {Q' : α → Prop} (h : Outcome x Q E) (hq : ∀ a, Q a → Q' a) : Outcome x Q' E := by
  cases x with
  | ok a => exact hq a h
  | error e => exact h

theorem with_run (h : Outcome x Q E) : Outcome x (fun a => x = .ok a ∧ Q a) E := by
  cases x with
  | ok a => exact ⟨rfl, h⟩
  | error e => exact h

theorem bind {f : α → Except ε β} {Q : β → Prop} (h : Outcome x (fun a => Outcome (f a) Q E) E) :
    Outcome (x >>= f) Q E := by
  cases x with
  | ok a => exact h
  | error e => exact h

end Outcome

namespace Guarantees

variable {R : σ → σ → Prop}

theorem mono {R' : σ → σ → Prop} (h : Guarantees R m)
    (hr : ∀ s s', R s s' → R' s s') : Guarantees R' m := fun s => hr _ _ (h s)

theorem ensures (h : Guarantees R m) (s : σ) :
    Ensures m s (fun _ => R s) (fun _ => R s) := .of_finalState (h s)

theorem modify {f : σ → σ} (h : ∀ s, R s (f s)) : Guarantees R (modify f : EStateM ε σ PUnit) := h

variable [IsPreorder σ R]

theorem pure (a : α) : Guarantees R (pure a : EStateM ε σ α) := fun s => refl_of R s

theorem throw (e : ε) : Guarantees R (throw e : EStateM ε σ α) := fun s => refl_of R s

theorem get : Guarantees R (get : EStateM ε σ σ) := fun s => refl_of R s

theorem bind {f : α → EStateM ε σ β} (h : Guarantees R m)
    (hf : ∀ a, Guarantees R (f a)) : Guarantees R (m >>= f) := by
  intro s
  apply Ensures.finalState
  apply Ensures.bind
  refine (h.ensures s).mono ?_ (fun _ _ h => h)
  intro a s' hs
  exact ((hf a).ensures s').mono (fun _ _ h => trans_of R hs h) (fun _ _ h => trans_of R hs h)

omit [IsPreorder σ R] in
/-- Sequencing when the second part may use the state that `get` returned. -/
theorem get_bind {f : σ → EStateM ε σ β}
    (hf : ∀ s, Ensures (f s) s (fun _ => R s) (fun _ => R s)) :
    Guarantees R (MonadState.get >>= f) := by
  intro s
  exact (Ensures.bind (m := MonadState.get) (Q := fun _ => R s) (E := fun _ => R s) (hf s)).finalState

end Guarantees
end Goby
