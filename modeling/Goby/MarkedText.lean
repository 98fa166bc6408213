import Mathlib.Data.List.Basic

/-! In a text such as `%1%, %2%` some words stand between two marks. A search for words of a given
shape takes a mark for the end of one match at most, and tries the words between the marks of
different words as well. If none of those has the shape, the search finds the words that were
meant, and to replace one of them is to replace it in its place. -/

namespace Goby.MarkedText

variable {α : Type*} [DecidableEq α] (mark : α)

def layout (lead : List α) (pieces : List (List α × List α)) : List α :=
  lead ++ pieces.flatMap fun p => mark :: (p.1 ++ mark :: p.2)

/-- The words of a shape, from left to right; in front is the word begun by the last mark. -/
def wordsOf (shape : List α → Bool) : Option (List α) → List α → List (List α)
  | _, [] => []
  | none, a :: s => wordsOf shape (if a = mark then some [] else none) s
  | some word, a :: s =>
    if a = mark then
      if shape word then word :: wordsOf shape none s else wordsOf shape (some []) s
    else wordsOf shape (some (word ++ [a])) s

/-- Every occurrence replaced, from left to right; the number is how many symbols of the last
occurrence are still to be passed over. -/
def replaceAll (old new : List α) : ℕ → List α → List α
  | _, [] => []
  | passed + 1, _ :: s => replaceAll old new passed s
  | 0, a :: s =>
    if old <+: a :: s then new ++ replaceAll old new (old.length - 1) s
    else a :: replaceAll old new 0 s

/-- No mark but those around the words. -/
structure Unmarked (lead : List α) (pieces : List (List α × List α)) : Prop where
  lead : mark ∉ lead
  word : ∀ p ∈ pieces, mark ∉ p.1
  behind : ∀ p ∈ pieces, mark ∉ p.2

/-- What holds of all texts but the last, which are those between two words. -/
def Between (P : List α → Prop) : List (List α) → Prop
  | [] => True
  | x :: texts => (texts ≠ [] → P x) ∧ Between P texts

variable {mark} {lead : List α} {pieces : List (List α × List α)} {shape : List α → Bool}

omit [DecidableEq α] in
theorem layout_cons (p : List α × List α) :
    layout mark lead (p :: pieces) = lead ++ mark :: (p.1 ++ mark :: layout mark p.2 pieces) := by
  simp [layout]

omit [DecidableEq α] in
theorem Unmarked.tail {p : List α × List α} (h : Unmarked mark lead (p :: pieces)) :
    Unmarked mark p.2 pieces :=
  ⟨h.behind p List.mem_cons_self, fun q hq => h.word q (List.mem_cons_of_mem p hq),
    fun q hq => h.behind q (List.mem_cons_of_mem p hq)⟩

theorem wordsOf_none_append {x : List α} (hx : mark ∉ x) (s : List α) :
    wordsOf mark shape none (x ++ s) = wordsOf mark shape none s := by
  induction x with
  | nil => rfl
  | cons a x ih =>
    have ha : a ≠ mark := fun h => hx (h ▸ List.mem_cons_self)
    rw [List.cons_append, wordsOf, if_neg ha]
    exact ih fun h => hx (List.mem_cons_of_mem a h)

theorem wordsOf_some_append {x : List α} (hx : mark ∉ x) (word s : List α) :
    wordsOf mark shape (some word) (x ++ s) = wordsOf mark shape (some (word ++ x)) s := by
  induction x generalizing word with
  | nil => simp
  | cons a x ih =>
    have ha : a ≠ mark := fun h => hx (h ▸ List.mem_cons_self)
    rw [List.cons_append, wordsOf, if_neg ha, ih fun h => hx (List.mem_cons_of_mem a h)]
    simp

/-- Behind a mark that may begin a word the text must not have the shape, if another mark follows. -/
theorem wordsOf_layout_state {state : Option (List α)} (hstate : state = none ∨ state = some [])
    (hmark : Unmarked mark lead pieces) (hlead : pieces ≠ [] → state = some [] → shape lead = false)
    (hshape : Between (fun x => shape x = false) (pieces.map Prod.snd)) :
    wordsOf mark shape state (layout mark lead pieces) = (pieces.map Prod.fst).filter shape := by
  induction pieces generalizing lead state with
  | nil =>
    have hempty : layout mark lead [] = lead ++ [] := by simp [layout]
    rw [hempty]
    rcases hstate with rfl | rfl
    · rw [wordsOf_none_append hmark.lead, wordsOf]
      rfl
    · rw [wordsOf_some_append hmark.lead, wordsOf]
      rfl
  | cons p pieces ih =>
    have hopen : wordsOf mark shape state (layout mark lead (p :: pieces)) =
        wordsOf mark shape (some []) (p.1 ++ mark :: layout mark p.2 pieces) := by
      rw [layout_cons]
      rcases hstate with rfl | rfl
      · rw [wordsOf_none_append hmark.lead, wordsOf, if_pos rfl]
      · have hnot : shape ([] ++ lead) = false := hlead (List.cons_ne_nil p pieces) rfl
        rw [wordsOf_some_append hmark.lead, wordsOf, if_pos rfl, hnot]
        rfl
    have hnext : ∀ next, next = none ∨ next = some [] →
        wordsOf mark shape next (layout mark p.2 pieces) = (pieces.map Prod.fst).filter shape := by
      intro next hnext
      exact ih hnext hmark.tail (fun hne _ => hshape.1 (by simpa using hne)) hshape.2
    rw [hopen, wordsOf_some_append (hmark.word p List.mem_cons_self), wordsOf, if_pos rfl, List.nil_append,
      List.map_cons, List.filter_cons]
    split_ifs
    · rw [hnext none (.inl rfl)]
    · exact hnext (some []) (.inr rfl)

theorem wordsOf_layout (hmark : Unmarked mark lead pieces)
    (hshape : Between (fun x => shape x = false) (pieces.map Prod.snd)) :
    wordsOf mark shape none (layout mark lead pieces) = (pieces.map Prod.fst).filter shape :=
  wordsOf_layout_state (.inl rfl) hmark nofun hshape

omit [DecidableEq α] in
theorem word_isPrefix_iff {word x s : List α} (hword : mark ∉ word) (hx : mark ∉ x) :
    word ++ [mark] <+: x ++ mark :: s ↔ word = x := by
  induction word generalizing x with
  | nil =>
    cases x with
    | nil => simp
    | cons b x =>
      have hb : mark ≠ b := fun h => hx (h ▸ List.mem_cons_self)
      simp [hb]
  | cons a word ih =>
    have ha : a ≠ mark := fun h => hword (h ▸ List.mem_cons_self)
    cases x with
    | nil => simp [ha]
    | cons b x =>
      have hrest := ih (fun h => hword (List.mem_cons_of_mem a h)) fun h => hx (List.mem_cons_of_mem b h)
      simp [List.cons_prefix_cons, hrest]

theorem replaceAll_append {old new x : List α} (hold : old.head? = some mark) (hx : mark ∉ x)
    (s : List α) : replaceAll old new 0 (x ++ s) = x ++ replaceAll old new 0 s := by
  obtain ⟨rest, rfl⟩ := List.head?_eq_some_iff.mp hold
  induction x with
  | nil => rfl
  | cons a x ih =>
    have ha : mark ≠ a := fun h => hx (h ▸ List.mem_cons_self)
    have hnot : ¬ mark :: rest <+: a :: (x ++ s) := fun h => ha (List.cons_prefix_cons.mp h).1
    rw [List.cons_append, replaceAll, if_neg hnot, ih fun h => hx (List.mem_cons_of_mem a h)]
    rfl

theorem replaceAll_passed {old new : List α} (x s : List α) :
    replaceAll old new x.length (x ++ s) = replaceAll old new 0 s := by
  induction x with
  | nil => rfl
  | cons a x ih => exact ih

/-- The mark behind a word does not begin an occurrence. -/
theorem replaceAll_mark {word new : List α} (hword : mark ∉ word) (hmark : Unmarked mark lead pieces)
    (hlead : pieces ≠ [] → lead ≠ word) :
    replaceAll (mark :: (word ++ [mark])) new 0 (mark :: layout mark lead pieces) =
      mark :: replaceAll (mark :: (word ++ [mark])) new 0 (layout mark lead pieces) := by
  have hnot : ¬ mark :: (word ++ [mark]) <+: mark :: layout mark lead pieces := by
    rw [List.cons_prefix_cons]
    rintro ⟨-, hprefix⟩
    cases pieces with
    | nil =>
      have hmem : mark ∈ layout mark lead [] := hprefix.subset (by simp)
      exact hmark.lead (by simpa [layout] using hmem)
    | cons p pieces =>
      rw [layout_cons, word_isPrefix_iff hword hmark.lead] at hprefix
      exact hlead (List.cons_ne_nil p pieces) hprefix.symm
  rw [replaceAll, if_neg hnot]

theorem replaceAll_layout {word : List α} (new : List α) (hword : mark ∉ word)
    (hmark : Unmarked mark lead pieces) (hother : Between (· ≠ word) (pieces.map Prod.snd)) :
    replaceAll (mark :: (word ++ [mark])) (mark :: (new ++ [mark])) 0 (layout mark lead pieces) =
      layout mark lead (pieces.map fun p => (if p.1 = word then new else p.1, p.2)) := by
  induction pieces generalizing lead with
  | nil =>
    have hempty : layout mark lead [] = lead ++ [] := by simp [layout]
    rw [hempty, replaceAll_append rfl hmark.lead, replaceAll, ← hempty]
    rfl
  | cons p pieces ih =>
    have hp := hmark.word p List.mem_cons_self
    have hbehind : pieces ≠ [] → p.2 ≠ word := fun hne => hother.1 (by simpa using hne)
    have htail := ih hmark.tail hother.2
    rw [List.map_cons, layout_cons, layout_cons, replaceAll_append rfl hmark.lead]
    congr 1
    by_cases hmatch : p.1 = word
    · have hprefix : mark :: (word ++ [mark]) <+: mark :: (p.1 ++ mark :: layout mark p.2 pieces) :=
        List.cons_prefix_cons.mpr ⟨rfl, (word_isPrefix_iff hword hp).mpr hmatch.symm⟩
      have hpassed : p.1 ++ mark :: layout mark p.2 pieces =
          (word ++ [mark]) ++ layout mark p.2 pieces := by simp [hmatch]
      rw [replaceAll, if_pos hprefix, hpassed, List.length_cons, Nat.add_sub_cancel, replaceAll_passed, htail,
        if_pos hmatch]
      simp
    · have hnot : ¬ mark :: (word ++ [mark]) <+: mark :: (p.1 ++ mark :: layout mark p.2 pieces) := by
        rw [List.cons_prefix_cons, word_isPrefix_iff hword hp]
        rintro ⟨-, rfl⟩
        exact hmatch rfl
      rw [replaceAll, if_neg hnot, replaceAll_append rfl hp, replaceAll_mark hword hmark.tail hbehind, htail,
        if_neg hmatch]

end Goby.MarkedText
