import Goby.FormatSpecifiers

/-! The values of embedded messages and the elements of repeated fields get numbers of their own. No
field is found for these if they are above the numbers of all fields. The string is then the
literal text with the values in their places. -/

namespace Goby.Moos.Format

open MarkedText

section Serialize

variable {ι : Type} (lib : Library ι) (delimiter : Bytes)
  (inner : ι → Message → Bytes → Except Failure Bytes) (type : ι) (m : Message)
  {r r' : Renumbering} {N : ℕ} {lead : Bytes}

def Writes (v : Bytes) : Specifier → Prop
  | .field n => ∃ fd, findFieldByNumber (lib.descriptor type) n = some fd ∧
      printField lib delimiter m fd none = .ok v
  | .element n i => n < 2 ^ 31 ∧ i < 2 ^ 31 ∧ ∃ fd,
      findFieldByNumber (lib.descriptor type) n = some fd ∧
        printField lib delimiter m fd (some i) = .ok v
  | .nested n k => ∃ subtype sub,
      getSubmessage lib (Specifier.nested n k).text [numeral n] type m = .ok (subtype, sub) ∧
        inner subtype sub (marked (numeral k)) = .ok v

/-- Fresh numbers are above the bound, and every number has an argument. -/
structure Numbered (bound : ℕ) (r : Renumbering) : Prop where
  bound_le : bound ≤ r.maxFieldNumber
  indexed : ∀ i, i ≤ bound ∨ r.maxFieldNumber < i → r.indexedRepeatedFields.lookup i = none
  values : ∀ i, r.maxFieldNumber < i → r.modifiedValues.lookup i = none
  arguments : ∀ i, ∃ v, argument lib delimiter type m r i = .ok v

/-- The argument of a fresh number is the value of the specifier that it stands for. -/
structure Found (bound : ℕ) (value : Specifier → Bytes) (r : Renumbering) (N : ℕ) (s : Specifier) :
    Prop where
  lt : bound < N
  le : N ≤ r.maxFieldNumber
  argument : argument lib delimiter type m r N = .ok (value s)

variable {lib delimiter inner type m} {value : Specifier → Bytes} {pieces : List Piece} {bound : ℕ}
  {s : Specifier} {F : ℕ → Specifier → Prop} {pieces' : List Piece}

theorem numbered_start (format : Bytes) : Numbered lib delimiter type m bound ⟨bound, format, [], []⟩ := by
  refine ⟨le_refl _, fun _ _ => rfl, fun _ _ => rfl, fun i => ?_⟩
  simp only [argument, List.lookup_nil, Option.elim_none, Option.map_none]
  cases findFieldByNumber (lib.descriptor type) i with
  | none => exact ⟨_, rfl⟩
  | some fd =>
    simp only [printField]
    split_ifs <;> exact ⟨_, rfl⟩

theorem lookup_concat {β : Type} {i : ℕ} (h : i ≠ N) (l : List (ℕ × β)) (b : β) :
    (l ++ [(N, b)]).lookup i = l.lookup i := by
  have hnone : [(N, b)].lookup i = none := by simpa [List.lookup_eq_none_iff] using h
  rw [List.lookup_append, hnone, Option.or_none]

/-- A step has an argument for the next number, and keeps those of all others. -/
theorem Numbered.step (h : Numbered lib delimiter type m bound r)
    (hformat : r'.format = (r.replace s.text).format)
    (hmax : r'.maxFieldNumber = r.maxFieldNumber + 1)
    (hsame : ∀ i, i ≠ r.maxFieldNumber + 1 →
      r'.indexedRepeatedFields.lookup i = r.indexedRepeatedFields.lookup i ∧
        r'.modifiedValues.lookup i = r.modifiedValues.lookup i)
    (hnew : argument lib delimiter type m r' (r.maxFieldNumber + 1) = .ok (value s)) :
    Numbered lib delimiter type m bound r' ∧ Step (Found lib delimiter type m bound value) s r r' := by
  have hargument : ∀ i, i ≠ r.maxFieldNumber + 1 →
      argument lib delimiter type m r' i = argument lib delimiter type m r i := by
    intro i hi
    simp only [argument, hsame i hi]
  have hle := h.bound_le
  refine ⟨⟨by omega, fun i hi => ?_, fun i hi => ?_, fun i => ?_⟩, hformat,
    ⟨by omega, by omega, hnew⟩, fun N s' hfound => ?_⟩
  · rw [(hsame i (by omega)).1, h.indexed i (by omega)]
  · rw [(hsame i (by omega)).2, h.values i (by omega)]
  · by_cases hi : i = r.maxFieldNumber + 1
    · exact ⟨_, hi ▸ hnew⟩
    · rw [hargument i hi]
      exact h.arguments i
  · have hN := hfound.le
    exact ⟨hfound.lt, by omega, (hargument N (by omega)).trans hfound.argument⟩

theorem renumbers_nested (hbound : ∀ fd ∈ lib.descriptor type, fd.number ≤ bound)
    (h : ∀ p ∈ pieces, Writes lib delimiter inner type m (value p.1) p.1) :
    Renumbers Specifier.isNested (Numbered lib delimiter type m bound)
      (Found lib delimiter type m bound value) (renumberNested lib inner type m) pieces := by
  refine ⟨fun _ hs => .inl hs, fun _ => rfl, fun _ => rfl, ?_⟩
  rintro ⟨s, behind⟩ hp hs words r hinv
  cases s with
  | field n => cases hs
  | element n i => cases hs
  | nested n k =>
    obtain ⟨subtype, sub, hsub, hinner⟩ := h _ hp
    refine ⟨{ r.replace (Specifier.nested n k).text with
      modifiedValues := r.modifiedValues ++ [(r.maxFieldNumber + 1, value (.nested n k))] }, ?_,
      hinv.step rfl rfl (fun i hi => ⟨rfl, lookup_concat hi _ _⟩) ?_⟩
    · have hlast : ([numeral n, numeral k] : List Bytes).getLastD [] = numeral k := rfl
      have hinit : ([numeral n, numeral k] : List Bytes).dropLast = [numeral n] := rfl
      rw [renumberNested, splitOn_nested, hlast, hinit, hsub]
      simp only [bind, Except.bind, hinner]
    · have hkey := hinv.indexed _ (.inr (Nat.lt_succ_self _))
      have hfield : findFieldByNumber (lib.descriptor type) ((r.maxFieldNumber + 1 : ℕ) : ℤ) = none := by
        refine List.find?_eq_none.mpr fun fd hfd => ?_
        have hlt := Nat.lt_succ_of_le ((hbound fd hfd).trans hinv.bound_le)
        simpa using by omega
      have hvalue := hinv.values _ (Nat.lt_succ_self _)
      simp only [argument, Renumbering.replace, hkey, Option.elim_none, hfield, List.lookup_append, hvalue,
        Option.none_or, List.lookup_cons_self, Option.getD_some]

theorem asInt_numeral {n : ℕ} (h : n < 2 ^ 31) : asInt (numeral n) = n := by
  rw [asInt, lexicalCastInt_numeral h, Option.getD_some]

theorem renumbers_indexed
    (h : ∀ p ∈ pieces, p.1.isElement = true → Writes lib delimiter inner type m (value p.1) p.1) :
    Renumbers Specifier.isElement (Numbered lib delimiter type m bound)
      (Found lib delimiter type m bound value) (fun words r => .ok (renumberIndexed words r)) pieces := by
  refine ⟨fun _ hs => .inr hs, fun _ => rfl, fun _ => rfl, ?_⟩
  rintro ⟨s, behind⟩ hp hs words r hinv
  cases s with
  | field n => cases hs
  | nested n k => cases hs
  | element n i =>
    obtain ⟨hn, hi, fd, hfd, hprint⟩ := h _ hp rfl
    refine ⟨{ r.replace (Specifier.element n i).text with
      indexedRepeatedFields := r.indexedRepeatedFields ++ [(r.maxFieldNumber + 1,
        ⟨asInt (numeral n), asInt (numeral i)⟩)] }, ?_,
      hinv.step rfl rfl (fun i hi => ⟨lookup_concat hi _ _, rfl⟩) ?_⟩
    · rw [renumberIndexed, splitOn_element]
      rfl
    · have hkey := hinv.indexed _ (.inr (Nat.lt_succ_self _))
      simp only [argument, List.lookup_append, hkey, Option.none_or, List.lookup_cons_self,
        Option.elim_some, Option.map_some, asInt_numeral hn, asInt_numeral hi, hfd]
      exact hprint

theorem argument_field {n : ℕ} {v : Bytes} (hinv : Numbered lib delimiter type m bound r) (hle : n ≤ bound)
    (h : Writes lib delimiter inner type m v (.field n)) : argument lib delimiter type m r n = .ok v := by
  obtain ⟨fd, hfd, hprint⟩ := h
  simp only [argument, hinv.indexed n (.inl hle), Option.elim_none, hfd, Option.map_none]
  exact hprint

theorem mapM_argument (hinv : Numbered lib delimiter type m bound r) :
    ∃ arguments, ((List.range r.maxFieldNumber).mapM fun i =>
        argument lib delimiter type m r (i + 1)) = .ok arguments ∧
      ∀ N v, 1 ≤ N → N ≤ r.maxFieldNumber → argument lib delimiter type m r N = .ok v →
        arguments.getD (N - 1) [] = v := by
  choose f hf using hinv.arguments
  have hpure : (fun i => argument lib delimiter type m r (i + 1)) = fun i => pure (f (i + 1)) :=
    funext fun i => hf (i + 1)
  refine ⟨(List.range r.maxFieldNumber).map fun i => f (i + 1), ?_, ?_⟩
  · rw [hpure, List.mapM_pure]
    rfl
  · intro N v hpos hle hv
    have hlt : N - 1 < r.maxFieldNumber := by omega
    have hone : N - 1 + 1 = N := by omega
    rw [hf N] at hv
    simp [List.getD_eq_getElem?_getD, hlt, hone, Except.ok.inj hv]

theorem formatItems_append {x : Bytes} (hx : percent ∉ x) (s : Bytes) :
    formatItems none (x ++ s) = (formatItems none s).map (x.map .literal ++ ·) := by
  induction x with
  | nil => simp
  | cons b x ih =>
    have hb : b ≠ percent := fun h => hx (h ▸ List.mem_cons_self)
    rw [List.cons_append, formatItems, if_neg hb, ih fun h => hx (List.mem_cons_of_mem b h), Option.map_map]
    rfl

theorem formatItems_digits {x : Bytes} (hx : ∀ b ∈ x, isDigit b = true) (digits s : Bytes) :
    formatItems (some digits) (x ++ s) = formatItems (some (digits ++ x)) s := by
  induction x generalizing digits with
  | nil => simp
  | cons b x ih =>
    have hb : b ≠ percent := by
      rintro rfl
      exact absurd (hx percent List.mem_cons_self) (by decide)
    rw [List.cons_append, formatItems, if_neg hb, if_pos (hx b List.mem_cons_self),
      ih fun c hc => hx c (List.mem_cons_of_mem b hc)]
    simp

theorem formatItems_numeral (hN : 1 ≤ N) (s : Bytes) :
    formatItems none (percent :: (numeral N ++ percent :: s)) =
      (formatItems none s).map (.argument N :: ·) := by
  have hvalue : digitsValue (numeral N) ≠ 0 := by
    rw [digitsValue_numeral]
    omega
  rw [formatItems, if_pos rfl, formatItems_digits (isDigit_numeral N), List.nil_append, formatItems,
    if_pos rfl, if_neg (numeral_ne_nil N), if_neg hvalue, digitsValue_numeral]

theorem flatMap_fill_literal (arguments : List Bytes) (x : Bytes) :
    (x.map FormatItem.literal).flatMap (FormatItem.fill arguments) = x := by
  induction x with
  | nil => rfl
  | cons b x ih => exact congrArg (b :: ·) ih

def StandsFor (arguments : List Bytes) (value : Specifier → Bytes) (p q : Piece) : Prop :=
  q.2 = p.2 ∧ ∃ N, q.1 = .field N ∧ 1 ≤ N ∧ arguments.getD (N - 1) [] = value p.1

theorem formatItems_formatText {arguments : List Bytes} {numbered : List Piece}
    (h : List.Forall₂ (StandsFor arguments value) pieces numbered) (hlead : percent ∉ lead)
    (hbehind : ∀ p ∈ pieces, percent ∉ p.2) :
    ∃ items, formatItems none (formatText lead numbered) = some items ∧
      items.flatMap (FormatItem.fill arguments) = filled lead value pieces := by
  induction h generalizing lead with
  | nil =>
    refine ⟨lead.map .literal, ?_, ?_⟩
    · have hempty : formatText lead [] = lead ++ [] := rfl
      rw [hempty, formatItems_append hlead, formatItems]
      simp
    · rw [flatMap_fill_literal]
      simp [filled]
  | @cons p q pieces numbered hpq _ ih =>
    obtain ⟨hsnd, N, hfield, hN, hvalue⟩ := hpq
    obtain ⟨items, hitems, hfilled⟩ := ih (hbehind p List.mem_cons_self) fun x hx =>
      hbehind x (List.mem_cons_of_mem p hx)
    have htext : formatText lead (q :: numbered) =
        lead ++ percent :: (numeral N ++ percent :: formatText p.2 numbered) := by
      rw [formatText, List.map_cons, layout_cons, hfield, hsnd]
      rfl
    refine ⟨lead.map .literal ++ .argument N :: items, ?_, ?_⟩
    · rw [htext, formatItems_append hlead, formatItems_numeral hN, hitems]
      rfl
    · rw [List.flatMap_append, flatMap_fill_literal, List.flatMap_cons, hfilled, FormatItem.fill, hvalue]
      simp [filled]

theorem forall₂_comp {α β γ : Type} {R : α → β → Prop} {S : β → γ → Prop} {T : α → γ → Prop}
    (hcomp : ∀ a b c, R a b → S b c → T a c) {l : List α} {l' : List β} {l'' : List γ}
    (h : List.Forall₂ R l l') (h' : List.Forall₂ S l' l'') : List.Forall₂ T l l'' := by
  induction h generalizing l'' with
  | nil =>
    cases h'
    exact .nil
  | cons hab _ ih =>
    cases h' with
    | cons hbc hrest => exact .cons (hcomp _ _ _ hab hbc) (ih hrest)

theorem map_snd_of_renumbered {kind : Specifier → Bool}
    (h : List.Forall₂ (Renumbered kind F) pieces pieces') :
    pieces'.map Prod.snd = pieces.map Prod.snd := by
  induction h with
  | nil => rfl
  | cons hpq _ ih => rw [List.map_cons, List.map_cons, hpq.1, ih]

/-- The first search leaves the elements to the second. -/
theorem filter_isElement_of_renumbered
    (h : List.Forall₂ (Renumbered Specifier.isNested F) pieces pieces') :
    (pieces'.filter fun p => p.1.isElement) = pieces.filter fun p => p.1.isElement := by
  induction h with
  | nil => rfl
  | @cons p q _ _ hpq _ ih =>
    obtain ⟨s, behind⟩ := p
    obtain ⟨s', behind'⟩ := q
    obtain ⟨hbehind, hspecifier⟩ := hpq
    obtain rfl : behind' = behind := hbehind
    cases s with
    | nested n k =>
      obtain ⟨N, hN, -⟩ := hspecifier
      obtain rfl : s' = .field N := hN
      exact ih
    | field n =>
      obtain rfl : s' = .field n := hspecifier
      exact ih
    | element n i =>
      obtain rfl : s' = .element n i := hspecifier
      exact congrArg (_ :: ·) ih

theorem argument_of_renumbered {r₁ r₂ : Renumbering} {p q z : Piece}
    (hpos : ∀ fd ∈ lib.descriptor type, 1 ≤ fd.number)
    (hbound : ∀ fd ∈ lib.descriptor type, fd.number ≤ bound)
    (hinv : Numbered lib delimiter type m bound r₂)
    (hkeeps : ∀ N s, Found lib delimiter type m bound value r₁ N s →
      Found lib delimiter type m bound value r₂ N s)
    (hwrites : Writes lib delimiter inner type m (value p.1) p.1)
    (hpq : Renumbered Specifier.isNested (Found lib delimiter type m bound value r₁) p q)
    (hqz : Renumbered Specifier.isElement (Found lib delimiter type m bound value r₂) q z) :
    ∃ N, z.1 = .field N ∧ 1 ≤ N ∧ N ≤ r₂.maxFieldNumber ∧
      argument lib delimiter type m r₂ N = .ok (value p.1) := by
  obtain ⟨s, behind⟩ := p
  obtain ⟨s₁, behind₁⟩ := q
  obtain ⟨s₂, behind₂⟩ := z
  cases s with
  | field n =>
    obtain rfl : s₁ = .field n := hpq.2
    obtain rfl : s₂ = .field n := hqz.2
    obtain ⟨fd, hfd, -⟩ := id hwrites
    obtain ⟨hmem, hnumber⟩ := findFieldByNumber_eq_some hfd
    obtain rfl : fd.number = n := by exact_mod_cast hnumber
    exact ⟨fd.number, rfl, hpos fd hmem, (hbound fd hmem).trans hinv.bound_le,
      argument_field hinv (hbound fd hmem) hwrites⟩
  | element n i =>
    obtain rfl : s₁ = .element n i := hpq.2
    obtain ⟨N, hN, hfound⟩ := hqz.2
    exact ⟨N, hN, Nat.one_le_of_lt hfound.lt, hfound.le, hfound.argument⟩
  | nested n k =>
    obtain ⟨N, hN, hfound⟩ := hpq.2
    obtain rfl : s₁ = .field N := hN
    obtain rfl : s₂ = .field N := hqz.2
    have hkept := hkeeps N _ hfound
    exact ⟨N, rfl, Nat.one_le_of_lt hkept.lt, hkept.le, hkept.argument⟩

/-- A format writes the literal text with the values in their places. -/
theorem serializeWith_formatText (hliteral : Literal lead pieces)
    (hpos : ∀ fd ∈ lib.descriptor type, 1 ≤ fd.number)
    (hmax : ∀ fd ∈ lib.descriptor type, fd.number ≤ maxFieldNumber (lib.descriptor type))
    (hnodup : (pieces.map Prod.fst).Nodup)
    (hwrites : ∀ p ∈ pieces, Writes lib delimiter inner type m (value p.1) p.1) :
    serializeWith lib delimiter inner type m (formatText lead pieces) =
      .ok (filled lead value pieces) := by
  obtain ⟨r₁, pieces₁, hloop₁, hinv₁, hformat₁, hall₁, -⟩ := (renumbers_nested hmax hwrites).all
    (hnodup.sublist (List.filter_sublist.map _)) (numbered_start (formatText lead pieces)) rfl hliteral
  have hliteral₁ : Literal lead pieces₁ := hliteral.congr (map_snd_of_renumbered hall₁)
  have hfilter := filter_isElement_of_renumbered hall₁
  have hwrites₁ : ∀ p ∈ pieces₁, p.1.isElement = true →
      Writes lib delimiter inner type m (value p.1) p.1 := by
    intro p hp helement
    have hmem : p ∈ pieces₁.filter fun p => p.1.isElement := List.mem_filter.mpr ⟨hp, helement⟩
    rw [hfilter] at hmem
    exact hwrites p (List.mem_filter.mp hmem).1
  obtain ⟨r₂, pieces₂, hloop₂, hinv₂, hformat₂, hall₂, hkeeps⟩ := (renumbers_indexed hwrites₁).all
    (hfilter ▸ hnodup.sublist (List.filter_sublist.map _)) hinv₁ hformat₁ hliteral₁
  obtain ⟨arguments, hmapM, harguments⟩ := mapM_argument hinv₂
  have hstands : List.Forall₂ (StandsFor arguments value) pieces pieces₂ := by
    have hboth := (List.forall₂_and_left pieces pieces₁).mpr ⟨hwrites, hall₁⟩
    refine forall₂_comp ?_ hboth hall₂
    rintro p q z ⟨hp, hpq⟩ hqz
    obtain ⟨N, hN, hone, hNle, hargument⟩ := argument_of_renumbered hpos hmax hinv₂ hkeeps hp hpq hqz
    exact ⟨hqz.1.trans hpq.1, N, hN, hone, harguments N _ hone hNle hargument⟩
  obtain ⟨items, hitems, hfilled⟩ := formatItems_formatText hstands hliteral.lead hliteral.behind
  have hwords₁ := wordsOf_formatText hliteral nestedShape_text fun _ h => h.1
  have hwords₂ := wordsOf_formatText hliteral₁ indexedShape_text fun _ h => h.2
  unfold textsOf at hloop₁ hloop₂
  unfold serializeWith
  rw [hwords₁, hloop₁]
  simp only [bind, Except.bind]
  rw [hformat₁, hwords₂, Except.ok.inj hloop₂, hformat₂, hitems]
  dsimp only
  rw [hmapM]
  exact congrArg Except.ok hfilled

end Serialize

end Goby.Moos.Format
