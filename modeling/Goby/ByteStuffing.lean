import Mathlib.Data.List.Basic

/-! A mark that begins a frame must not occur inside it. There it is written as an escape symbol and
a code, and so is the escape symbol itself. Who reads a frame of known length reads one symbol
more for every escape symbol. -/

namespace Goby

structure ByteStuffing (α : Type*) where
  escape : α
  mark : α
  escapeCode : α
  markCode : α
  mark_ne_escape : mark ≠ escape
  escapeCode_ne_escape : escapeCode ≠ escape
  escapeCode_ne_mark : escapeCode ≠ mark
  markCode_ne_escape : markCode ≠ escape
  markCode_ne_mark : markCode ≠ mark
  markCode_ne_escapeCode : markCode ≠ escapeCode

namespace ByteStuffing

variable {α : Type*} (code : ByteStuffing α) {s : List α} {x : α}

def IsCode (x : α) : Prop := x = code.escapeCode ∨ x = code.markCode

def Unpaired (s : List α) : Prop :=
  ∀ x y rest, s = x :: y :: rest → x = code.escape → ¬ code.IsCode y

variable {code}

theorem IsCode.ne_escape (h : code.IsCode x) : x ≠ code.escape := by
  rcases h with rfl | rfl
  · exact code.escapeCode_ne_escape
  · exact code.markCode_ne_escape

theorem IsCode.ne_mark (h : code.IsCode x) : x ≠ code.mark := by
  rcases h with rfl | rfl
  · exact code.escapeCode_ne_mark
  · exact code.markCode_ne_mark

theorem unpaired_cons_iff :
    code.Unpaired (x :: s) ↔ (x = code.escape → ∀ y, s.head? = some y → ¬ code.IsCode y) := by
  constructor
  · intro h hx y hy
    obtain ⟨rest, rfl⟩ := List.head?_eq_some_iff.mp hy
    exact h x y rest rfl hx
  · rintro h x' y rest hs hx
    obtain ⟨rfl, rfl⟩ := List.cons.inj hs
    exact h hx y rfl

theorem unpaired_of_ne (hx : x ≠ code.escape) (s : List α) : code.Unpaired (x :: s) := by
  rintro _ _ _ h rfl
  exact absurd (List.cons.inj h).1 hx

variable [DecidableEq α] (code)

def stuffSymbol (x : α) : List α :=
  if x = code.escape then [code.escape, code.escapeCode]
  else if x = code.mark then [code.escape, code.markCode]
  else [x]

def stuff (s : List α) : List α := s.flatMap code.stuffSymbol

def unstuff : List α → List α
  | x :: y :: s =>
    if x = code.escape ∧ y = code.markCode then code.mark :: unstuff s
    else if x = code.escape ∧ y = code.escapeCode then code.escape :: unstuff s
    else x :: unstuff (y :: s)
  | s => s

/-- Every occurrence of two symbols in a row replaced by one, from left to right. -/
def replacePair (a b c : α) : List α → List α
  | x :: y :: s => if x = a ∧ y = b then c :: replacePair a b c s else x :: replacePair a b c (y :: s)
  | s => s

/-- The first occurrence of two symbols in a row replaced by one. -/
def replaceFirstPair (a b c : α) : List α → List α
  | x :: y :: s => if x = a ∧ y = b then c :: s else x :: replaceFirstPair a b c (y :: s)
  | s => s

def replaceSymbol (a : α) (replacement : List α) (s : List α) : List α :=
  s.flatMap fun x => if x = a then replacement else [x]

variable {code}

@[simp] theorem stuff_nil : code.stuff [] = [] := rfl

@[simp] theorem stuff_cons (x : α) (s : List α) :
    code.stuff (x :: s) = code.stuffSymbol x ++ code.stuff s := rfl

theorem replaceSymbol_replaceSymbol (s : List α) :
    replaceSymbol code.mark [code.escape, code.markCode]
      (replaceSymbol code.escape [code.escape, code.escapeCode] s) = code.stuff s := by
  induction s with
  | nil => rfl
  | cons x s ih =>
    simp only [replaceSymbol, List.flatMap_cons, List.flatMap_append, stuff_cons] at ih ⊢
    rw [ih]
    by_cases hx : x = code.escape
    · simp [stuffSymbol, hx, code.mark_ne_escape.symm, code.escapeCode_ne_mark]
    · by_cases hmark : x = code.mark <;> simp [stuffSymbol, hx, hmark, code.mark_ne_escape]

theorem unstuff_cons_of_unpaired (h : code.Unpaired (x :: s)) :
    code.unstuff (x :: s) = x :: code.unstuff s := by
  cases s with
  | nil => simp [unstuff]
  | cons y s =>
    have hcode := h x y s rfl
    rw [unstuff, if_neg fun he => hcode he.1 (.inr he.2), if_neg fun he => hcode he.1 (.inl he.2)]

theorem unstuff_of_notMem (h : code.escape ∉ s) : code.unstuff s = s := by
  induction s with
  | nil => rfl
  | cons x s ih =>
    rw [List.mem_cons, not_or] at h
    rw [unstuff_cons_of_unpaired (unpaired_of_ne (Ne.symm h.1) s), ih h.2]

/-- Removing one kind of pair and then the other is removing both from left to right: the first
pass brings no symbols together that make a pair of the other kind. -/
theorem replacePair_replacePair (s : List α) :
    replacePair code.escape code.escapeCode code.escape
      (replacePair code.escape code.markCode code.mark s) = code.unstuff s := by
  have hskip : ∀ (x : α) (t : List α), x ≠ code.escape →
      replacePair code.escape code.escapeCode code.escape (x :: t) =
        x :: replacePair code.escape code.escapeCode code.escape t := by
    intro x t hx
    cases t <;> simp [replacePair, hx]
  fun_induction unstuff code s with
  | case1 x y s h ih => rw [replacePair, if_pos h, hskip _ _ code.mark_ne_escape, ih]
  | case2 x y s hmark h ih =>
    obtain ⟨rfl, rfl⟩ := h
    have hpass : replacePair code.escape code.markCode code.mark (code.escape :: code.escapeCode :: s) =
        code.escape :: code.escapeCode :: replacePair code.escape code.markCode code.mark s := by
      rw [replacePair, if_neg hmark]
      cases s <;> simp [replacePair, code.escapeCode_ne_escape]
    rw [hpass, replacePair, if_pos ⟨rfl, rfl⟩, ih]
  | case3 x y s hmark hescape ih =>
    rw [replacePair, if_neg hmark]
    by_cases hx : x = code.escape
    · -- the symbol behind a lone escape symbol is no code, also after the first pass
      have hy : y ≠ code.escapeCode := fun hy => hescape ⟨hx, hy⟩
      obtain ⟨z, t, hz, hzt⟩ : ∃ z t, z ≠ code.escapeCode ∧
          replacePair code.escape code.markCode code.mark (y :: s) = z :: t := by
        cases s with
        | nil => exact ⟨y, [], hy, rfl⟩
        | cons y' s =>
          by_cases hpair : y = code.escape ∧ y' = code.markCode
          · exact ⟨_, _, code.escapeCode_ne_mark.symm, by rw [replacePair, if_pos hpair]⟩
          · exact ⟨_, _, hy, by rw [replacePair, if_neg hpair]⟩
      rw [hzt] at ih ⊢
      rw [replacePair, if_neg fun he => hz he.2, ih]
    · rw [hskip _ _ hx, ih]
  | case4 s hs =>
    match s, hs with
    | [], _ => rfl
    | [x], _ => rfl
    | x :: y :: s, hs => exact absurd rfl (hs x y s)

/-- A stuffed list begins with a code exactly if the list itself does. -/
theorem head?_stuff {y : α} (hy : code.IsCode y) :
    (code.stuff s).head? = some y ↔ s.head? = some y := by
  cases s with
  | nil => simp
  | cons x s =>
    by_cases hx : x = code.escape
    · simp [stuffSymbol, hx]
    · by_cases hmark : x = code.mark
      · simp [stuffSymbol, hmark, code.mark_ne_escape, hy.ne_escape.symm, hy.ne_mark.symm]
      · simp [stuffSymbol, hx, hmark]

theorem unstuff_stuff_append (s rest : List α) :
    code.unstuff (code.stuff s ++ rest) = s ++ code.unstuff rest := by
  induction s with
  | nil => rfl
  | cons x s ih =>
    rw [stuff_cons, List.append_assoc, List.cons_append, ← ih]
    by_cases hx : x = code.escape
    · simp [stuffSymbol, hx, unstuff, code.markCode_ne_escapeCode.symm]
    · by_cases hmark : x = code.mark
      · simp [stuffSymbol, hmark, unstuff, code.mark_ne_escape]
      · simpa [stuffSymbol, hx, hmark] using unstuff_cons_of_unpaired (unpaired_of_ne hx _)

theorem unstuff_stuff (s : List α) : code.unstuff (code.stuff s) = s := by
  simpa [unstuff] using unstuff_stuff_append s []

theorem length_unstuff_le (s : List α) : (code.unstuff s).length ≤ s.length := by
  fun_induction unstuff code s <;> simp <;> omega

theorem length_stuff (s : List α) :
    (code.stuff s).length = s.length + (code.stuff s).count code.escape := by
  induction s with
  | nil => rfl
  | cons x s ih =>
    rw [stuff_cons, List.length_append, List.count_append, ih, List.length_cons]
    by_cases hx : x = code.escape
    · simp [stuffSymbol, hx, code.escapeCode_ne_escape]
      omega
    · by_cases hmark : x = code.mark
      · simp [stuffSymbol, hmark, code.mark_ne_escape, code.markCode_ne_escape]
        omega
      · simp [stuffSymbol, hx, hmark]
        omega

/-- Of a stuffed list, no proper part from the front has the length that its escape symbols call
for. -/
theorem eq_stuff_of_length {s p : List α} (hp : p <+: code.stuff s)
    (hlength : p.length = s.length + p.count code.escape) : p = code.stuff s := by
  induction s generalizing p with
  | nil => exact List.prefix_nil.mp hp
  | cons x s ih =>
    obtain ⟨y, p, rfl⟩ : ∃ y p', p = y :: p' := by
      cases p with
      | nil => simp at hlength
      | cons y p => exact ⟨y, p, rfl⟩
    have hspecial : ∀ c, c ≠ code.escape → code.stuffSymbol x = [code.escape, c] →
        y :: p = code.stuff (x :: s) := by
      intro c hc hx
      rw [stuff_cons, hx, List.cons_append] at hp ⊢
      obtain ⟨rfl, hcode⟩ := List.cons_prefix_cons.mp hp
      cases p with
      | nil => simp at hlength
      | cons z p =>
        obtain ⟨rfl, hrest⟩ := List.cons_prefix_cons.mp hcode
        have hlength' : p.length = s.length + p.count code.escape := by
          simp [hc] at hlength
          omega
        rw [ih hrest hlength']
        rfl
    by_cases hx : x = code.escape
    · exact hspecial code.escapeCode code.escapeCode_ne_escape (by simp [stuffSymbol, hx])
    · by_cases hmark : x = code.mark
      · exact hspecial code.markCode code.markCode_ne_escape
          (by simp [stuffSymbol, hmark, code.mark_ne_escape])
      · have hplain : code.stuffSymbol x = [x] := by simp [stuffSymbol, hx, hmark]
        rw [stuff_cons, hplain, List.cons_append] at hp ⊢
        obtain ⟨rfl, hrest⟩ := List.cons_prefix_cons.mp hp
        have hlength' : p.length = s.length + p.count code.escape := by
          simp [hx] at hlength
          omega
        rw [ih hrest hlength']
        rfl

theorem unpaired_append_stuff {s t : List α} :
    code.Unpaired (x :: (s ++ code.stuff t)) ↔ code.Unpaired (x :: (s ++ t)) := by
  have hhead : ∀ y, code.IsCode y → ((s ++ code.stuff t).head? = some y ↔ (s ++ t).head? = some y) := by
    intro y hy
    cases s with
    | nil => exact head?_stuff hy
    | cons z s => rfl
  rw [unpaired_cons_iff, unpaired_cons_iff]
  constructor
  · exact fun h hx y hy hcode => h hx y ((hhead y hcode).mpr hy) hcode
  · exact fun h hx y hy hcode => h hx y ((hhead y hcode).mp hy) hcode

/-- A list in front of a stuffed one is left alone if no escape symbol in it is followed by a
code. -/
theorem unstuff_append_stuff {s t : List α} (h : ∀ i < s.length, code.Unpaired ((s ++ t).drop i)) :
    code.unstuff (s ++ code.stuff t) = s ++ t := by
  induction s with
  | nil => exact unstuff_stuff t
  | cons x s ih =>
    have hfirst : code.Unpaired (x :: (s ++ t)) := h 0 (Nat.succ_pos _)
    have hrest := ih fun i hi => h (i + 1) (Nat.succ_lt_succ hi)
    rw [List.cons_append, unstuff_cons_of_unpaired (unpaired_append_stuff.mpr hfirst), hrest]
    rfl

/-- A pair in front becomes the mark or the escape symbol. -/
theorem exists_unstuff_of_not_unpaired (h : ¬ code.Unpaired (x :: s)) :
    x = code.escape ∧ ∃ y rest, s = y :: rest ∧
      (y = code.markCode ∧ code.unstuff (x :: s) = code.mark :: code.unstuff rest ∨
        y = code.escapeCode ∧ code.unstuff (x :: s) = code.escape :: code.unstuff rest) := by
  rw [unpaired_cons_iff] at h
  push Not at h
  obtain ⟨rfl, y, hy, hcode⟩ := h
  obtain ⟨rest, rfl⟩ := List.head?_eq_some_iff.mp hy
  refine ⟨rfl, y, rest, rfl, ?_⟩
  rcases hcode with rfl | rfl
  · exact .inr ⟨rfl, by simp [unstuff, code.markCode_ne_escapeCode.symm]⟩
  · exact .inl ⟨rfl, by simp [unstuff]⟩

/-- A code in front of a stuffed list with others before it is itself one of the symbols. -/
theorem exists_of_append_stuff {s t rest : List α} {y : α} (hy : code.IsCode y)
    (h : s ++ code.stuff t = y :: rest) :
    ∃ s' t', s ++ t = y :: (s' ++ t') ∧ rest = s' ++ code.stuff t' ∧ s'.length ≤ s.length := by
  cases s with
  | cons z s =>
    obtain ⟨rfl, rfl⟩ := List.cons.inj h
    exact ⟨s, t, rfl, rfl, Nat.le_succ _⟩
  | nil =>
    obtain ⟨t, rfl⟩ := List.head?_eq_some_iff.mp ((head?_stuff hy).mp (congrArg List.head? h))
    refine ⟨[], t, rfl, ?_, Nat.le_refl _⟩
    simpa [stuffSymbol, hy.ne_escape, hy.ne_mark, eq_comm] using h

theorem length_unstuff_append_stuff_le (s t : List α) :
    (code.unstuff (s ++ code.stuff t)).length ≤ s.length + t.length := by
  match s with
  | [] => simp [unstuff_stuff]
  | x :: s =>
    by_cases hpair : code.Unpaired (x :: (s ++ code.stuff t))
    · have ih := length_unstuff_append_stuff_le s t
      rw [List.cons_append, unstuff_cons_of_unpaired hpair]
      simp only [List.length_cons]
      omega
    · obtain ⟨-, y, rest, hs, hcode⟩ := exists_unstuff_of_not_unpaired hpair
      have hy : code.IsCode y := hcode.elim (fun h => .inr h.1) fun h => .inl h.1
      obtain ⟨s', t', hst, rfl, hs'⟩ := exists_of_append_stuff hy hs
      have ih := length_unstuff_append_stuff_le s' t'
      have hlength := congrArg List.length hst
      rw [List.cons_append]
      simp only [List.length_append, List.length_cons] at hlength
      rcases hcode with ⟨-, hunstuff⟩ | ⟨-, hunstuff⟩ <;> rw [hunstuff] <;>
        simp only [List.length_cons] <;> omega
termination_by s.length

/-- What has been shortened is not made up for by symbols at the end. -/
theorem unstuff_append_ne {s t zs : List α} (hzs : code.escapeCode ∉ zs) :
    code.unstuff (s ++ code.stuff t) ++ zs ≠ code.escapeCode :: (s ++ t) := by
  intro h
  induction s with
  | nil =>
    simp only [List.nil_append, unstuff_stuff] at h
    induction t with
    | nil => simp_all
    | cons x t ih =>
      obtain ⟨rfl, h⟩ := List.cons.inj h
      exact ih h
  | cons x s ih =>
    by_cases hpair : code.Unpaired (x :: (s ++ code.stuff t))
    · rw [List.cons_append, unstuff_cons_of_unpaired hpair] at h
      obtain ⟨rfl, h⟩ := List.cons.inj h
      exact ih h
    · obtain ⟨-, y, rest, -, ⟨-, hunstuff⟩ | ⟨-, hunstuff⟩⟩ := exists_unstuff_of_not_unpaired hpair
      · rw [List.cons_append, hunstuff] at h
        exact code.escapeCode_ne_mark (List.cons.inj h).1.symm
      · rw [List.cons_append, hunstuff] at h
        exact code.escapeCode_ne_escape (List.cons.inj h).1.symm

theorem unpaired_of_unstuff {s t zs : List α} (hzs : code.escapeCode ∉ zs)
    (h : code.unstuff (s ++ code.stuff t) ++ zs = s ++ t) :
    ∀ i < s.length, code.Unpaired ((s ++ t).drop i) := by
  induction s with
  | nil => simp
  | cons x s ih =>
    by_cases hpair : code.Unpaired (x :: (s ++ code.stuff t))
    · rw [List.cons_append, unstuff_cons_of_unpaired hpair] at h
      intro i hi
      cases i with
      | zero => exact unpaired_append_stuff.mp hpair
      | succ i => exact ih (List.cons.inj h).2 i (Nat.lt_of_succ_lt_succ hi)
    · obtain ⟨hx, y, rest, hs, hcode⟩ := exists_unstuff_of_not_unpaired hpair
      rw [List.cons_append] at h
      rcases hcode with ⟨-, hunstuff⟩ | ⟨rfl, hunstuff⟩
      · rw [hunstuff, List.cons_append, List.cons_append] at h
        exact absurd ((List.cons.inj h).1.trans hx) code.mark_ne_escape
      · rw [hunstuff] at h
        have hrest : code.unstuff rest ++ zs = s ++ t := (List.cons.inj h).2
        obtain ⟨s', t', hst, rfl, -⟩ := exists_of_append_stuff (.inl rfl) hs
        exact absurd (hrest.trans hst) (unstuff_append_ne hzs)

end ByteStuffing

end Goby
