import Goby.FormatTechnique

/-! In a format that is laid out from specifiers and literal text, a search for the specifiers of a
kind finds just these, unless a text between two specifiers looks like one. A loop that gives
each of them the next number then leaves a format in which they are replaced in their places. -/

namespace Goby.Moos.Format

open MarkedText

inductive Specifier where
  | field (n : ℕ)
  | element (n i : ℕ)
  | nested (n k : ℕ)
deriving DecidableEq

def Specifier.text : Specifier → Bytes
  | .field n => numeral n
  | .element n i => numeral n ++ dot :: numeral i
  | .nested n k => numeral n ++ colon :: numeral k

abbrev Piece := Specifier × Bytes

def formatText (lead : Bytes) (pieces : List Piece) : Bytes :=
  layout percent lead (pieces.map fun p => (p.1.text, p.2))

def filled (lead : Bytes) (value : Specifier → Bytes) (pieces : List Piece) : Bytes :=
  lead ++ pieces.flatMap fun p => value p.1 ++ p.2

def Inconspicuous (text : Bytes) : Prop := nestedShape text = false ∧ indexedShape text = false

/-- Literal text has no percent sign, and does not look like a specifier between two of them. -/
structure Literal (lead : Bytes) (pieces : List Piece) : Prop where
  lead : percent ∉ lead
  behind : ∀ p ∈ pieces, percent ∉ p.2
  between : Between Inconspicuous (pieces.map Prod.snd)

variable {b : UInt8}

theorem numeral_notMem {n : ℕ} (hb : isDigit b = false) : b ∉ numeral n := by
  intro hmem
  rw [isDigit_numeral n b hmem] at hb
  cases hb

theorem all_isDigit_numeral (n : ℕ) : (numeral n).all isDigit = true :=
  List.all_eq_true.mpr (isDigit_numeral n)

theorem splitOn_of_notMem {x : Bytes} (h : b ∉ x) : x.splitOn b = [x] := by
  have hsplit : ([b].intercalate [x]).splitOn b = [x] :=
    List.splitOn_intercalate b (by simpa using h) (by simp)
  simpa using hsplit

theorem splitOn_numerals {n k : ℕ} (hb : isDigit b = false) :
    (numeral n ++ b :: numeral k).splitOn b = [numeral n, numeral k] := by
  have hsplit : ([b].intercalate [numeral n, numeral k]).splitOn b = [numeral n, numeral k] :=
    List.splitOn_intercalate b (by simpa using ⟨numeral_notMem hb, numeral_notMem hb⟩) (by simp)
  simpa [List.intercalate] using hsplit

theorem percent_notMem_text (s : Specifier) : percent ∉ s.text := by
  have hnumeral : ∀ n, percent ∉ numeral n := fun n => numeral_notMem (by decide)
  cases s with
  | field n => exact hnumeral n
  | element n i => simpa [Specifier.text, hnumeral] using (by decide : percent ≠ dot)
  | nested n k => simpa [Specifier.text, hnumeral] using (by decide : percent ≠ colon)

def Specifier.isNested : Specifier → Bool
  | .nested _ _ => true
  | _ => false

def Specifier.isElement : Specifier → Bool
  | .element _ _ => true
  | _ => false

theorem colon_notMem_text {s : Specifier} (h : s.isNested = false) : colon ∉ s.text := by
  have hnumeral : ∀ n, colon ∉ numeral n := fun n => numeral_notMem (by decide)
  cases s with
  | field n => exact hnumeral n
  | element n i => simpa [Specifier.text, hnumeral] using (by decide : colon ≠ dot)
  | nested n k => cases h

theorem dot_notMem_text {s : Specifier} (h : s.isElement = false) : dot ∉ s.text := by
  have hnumeral : ∀ n, dot ∉ numeral n := fun n => numeral_notMem (by decide)
  cases s with
  | field n => exact hnumeral n
  | element n i => cases h
  | nested n k => simpa [Specifier.text, hnumeral] using (by decide : dot ≠ colon)

theorem splitOn_nested (n k : ℕ) :
    (Specifier.nested n k).text.splitOn colon = [numeral n, numeral k] := splitOn_numerals (by decide)

theorem splitOn_element (n i : ℕ) :
    (Specifier.element n i).text.splitOn dot = [numeral n, numeral i] := splitOn_numerals (by decide)

theorem nestedShape_text (s : Specifier) : nestedShape s.text = s.isNested := by
  cases hs : s.isNested with
  | false => simp [nestedShape, splitOn_of_notMem (colon_notMem_text hs)]
  | true =>
    cases s with
    | field n => cases hs
    | element n i => cases hs
    | nested n k =>
      have hdigits : ∀ n, (numeral n).all (fun b => isDigit b || b = dot) = true := by
        intro n
        exact List.all_eq_true.mpr fun b hb => by simp [isDigit_numeral n b hb]
      simp [nestedShape, splitOn_nested, numeral_ne_nil, hdigits]

theorem indexedShape_text (s : Specifier) : indexedShape s.text = s.isElement := by
  cases hs : s.isElement with
  | false => simp [indexedShape, splitOn_of_notMem (dot_notMem_text hs)]
  | true =>
    cases s with
    | field n => cases hs
    | element n i => simp [indexedShape, splitOn_element, numeral_ne_nil, all_isDigit_numeral]
    | nested n k => cases hs

theorem numerals_injective {n k n' k' : ℕ} (hb : isDigit b = false)
    (h : numeral n ++ b :: numeral k = numeral n' ++ b :: numeral k') : n = n' ∧ k = k' := by
  have hsplit := congrArg (List.splitOn b) h
  simp only [splitOn_numerals hb, List.cons.injEq, and_true] at hsplit
  exact ⟨numeral_injective hsplit.1, numeral_injective hsplit.2⟩

theorem text_injective : Function.Injective Specifier.text := by
  intro s s' h
  have hnested : s.isNested = s'.isNested := by rw [← nestedShape_text, h, nestedShape_text]
  have helement : s.isElement = s'.isElement := by rw [← indexedShape_text, h, indexedShape_text]
  cases s <;> cases s' <;> cases hnested <;> cases helement
  · rw [numeral_injective h]
  · obtain ⟨rfl, rfl⟩ := numerals_injective (by decide) h
    rfl
  · obtain ⟨rfl, rfl⟩ := numerals_injective (by decide) h
    rfl

theorem between_mono {P Q : Bytes → Prop} (hPQ : ∀ x, P x → Q x) {texts : List Bytes}
    (h : Between P texts) : Between Q texts := by
  induction texts with
  | nil => trivial
  | cons x texts ih => exact ⟨fun hne => hPQ x (h.1 hne), ih h.2⟩

section Format

variable {lead : Bytes} {pieces : List Piece} {r : Renumbering}

theorem Literal.unmarked (h : Literal lead pieces) :
    Unmarked percent lead (pieces.map fun p => (p.1.text, p.2)) := by
  refine ⟨h.lead, ?_, ?_⟩
  · intro q hq
    obtain ⟨p, -, rfl⟩ := List.mem_map.mp hq
    exact percent_notMem_text p.1
  · intro q hq
    obtain ⟨p, hp, rfl⟩ := List.mem_map.mp hq
    exact h.behind p hp

theorem map_snd_texts (pieces : List Piece) :
    (pieces.map fun p => (p.1.text, p.2)).map Prod.snd = pieces.map Prod.snd := by
  rw [List.map_map]
  rfl

theorem Literal.congr {pieces' : List Piece} (h : Literal lead pieces)
    (hsnd : pieces'.map Prod.snd = pieces.map Prod.snd) : Literal lead pieces' := by
  refine ⟨h.lead, ?_, hsnd ▸ h.between⟩
  intro p hp
  have hmem : p.2 ∈ pieces.map Prod.snd := hsnd ▸ List.mem_map_of_mem hp
  obtain ⟨q, hq, heq⟩ := List.mem_map.mp hmem
  exact heq ▸ h.behind q hq

theorem wordsOf_formatText {shape : Bytes → Bool} {kind : Specifier → Bool} (h : Literal lead pieces)
    (htext : ∀ s : Specifier, shape s.text = kind s)
    (hshape : ∀ x, Inconspicuous x → shape x = false) :
    wordsOf percent shape none (formatText lead pieces) =
      (pieces.filter fun p => kind p.1).map fun p => p.1.text := by
  have hbetween : Between (fun x => shape x = false)
      ((pieces.map fun p => (p.1.text, p.2)).map Prod.snd) := by
    rw [map_snd_texts]
    exact between_mono hshape h.between
  rw [formatText, wordsOf_layout h.unmarked hbetween, List.map_map, List.filter_map]
  have hcomp : (shape ∘ (Prod.fst ∘ fun p : Piece => (p.1.text, p.2))) = fun p => kind p.1 := by
    funext p
    exact htext p.1
  rw [hcomp]
  rfl

theorem replace_formatText {done rest : List Piece} {p : Piece} {r : Renumbering}
    (hformat : r.format = formatText lead (done ++ p :: rest))
    (hliteral : Literal lead (done ++ p :: rest)) (hkind : p.1.isNested = true ∨ p.1.isElement = true)
    (hdone : ∀ q ∈ done, q.1 ≠ p.1) (hrest : ∀ q ∈ rest, q.1 ≠ p.1) :
    (r.replace p.1.text).format =
      formatText lead (done ++ (.field (r.maxFieldNumber + 1), p.2) :: rest) := by
  have hshape : ∀ x, Inconspicuous x → x ≠ p.1.text := by
    rintro x ⟨hnested, helement⟩ rfl
    rw [nestedShape_text] at hnested
    rw [indexedShape_text] at helement
    simp [hnested, helement] at hkind
  have hother : Between (· ≠ p.1.text)
      (((done ++ p :: rest).map fun p => (p.1.text, p.2)).map Prod.snd) := by
    rw [map_snd_texts]
    exact between_mono hshape hliteral.between
  have hkeep : ∀ l : List Piece, (∀ q ∈ l, q.1 ≠ p.1) →
      l.map ((fun q => (if q.1 = p.1.text then numeral (r.maxFieldNumber + 1) else q.1, q.2)) ∘
        fun q : Piece => (q.1.text, q.2)) = l.map fun q => (q.1.text, q.2) := by
    intro l hl
    apply List.map_congr_left
    intro q hq
    simp [text_injective.ne (hl q hq)]
  change replaceAll _ _ 0 r.format = _
  rw [hformat, formatText, marked, marked,
    replaceAll_layout _ (percent_notMem_text p.1) hliteral.unmarked hother, List.map_map, formatText,
    List.map_append, List.map_append, List.map_cons, List.map_cons, hkeep done hdone, hkeep rest hrest]
  simp [Specifier.text]

/-- Pieces of a kind have a number instead of their specifier. -/
def Renumbered (kind : Specifier → Bool) (Found : ℕ → Specifier → Prop) (p q : Piece) : Prop :=
  q.2 = p.2 ∧ if kind p.1 then ∃ N, q.1 = .field N ∧ Found N p.1 else q.1 = p.1

/-- One step of a renumbering: the specifier of a piece gets the next number, which is then
found for it, and what was found before is found still. -/
structure Step (Found : Renumbering → ℕ → Specifier → Prop) (s : Specifier) (r r₁ : Renumbering) :
    Prop where
  format : r₁.format = (r.replace s.text).format
  found : Found r₁ (r.maxFieldNumber + 1) s
  keeps : ∀ N s', Found r N s' → Found r₁ N s'

/-- A loop over the specifiers of a kind, with an invariant of its steps. -/
structure Renumbers (kind : Specifier → Bool) (Inv : Renumbering → Prop)
    (Found : Renumbering → ℕ → Specifier → Prop)
    (loop : List Bytes → Renumbering → Except Failure Renumbering) (pieces : List Piece) : Prop where
  kind_eq : ∀ s, kind s = true → s.isNested = true ∨ s.isElement = true
  field : ∀ n, kind (.field n) = false
  nil : ∀ r, loop [] r = .ok r
  cons : ∀ p ∈ pieces, kind p.1 = true → ∀ words r, Inv r →
    ∃ r₁, loop (p.1.text :: words) r = loop words r₁ ∧ Inv r₁ ∧ Step Found p.1 r r₁

section Loop

variable {kind : Specifier → Bool} {Inv : Renumbering → Prop}
  {Found : Renumbering → ℕ → Specifier → Prop}
  {loop : List Bytes → Renumbering → Except Failure Renumbering} {rest done : List Piece}

def textsOf (kind : Specifier → Bool) (pieces : List Piece) : List Bytes :=
  (pieces.filter fun p => kind p.1).map fun p => p.1.text

theorem Renumbers.next {p : Piece}
    (h : Renumbers kind Inv Found loop (p :: rest)) (hdone : ∀ q ∈ done, kind q.1 = false)
    (hrest : kind p.1 = true → ∀ q ∈ rest, q.1 ≠ p.1) (hinv : Inv r)
    (hformat : r.format = formatText lead (done ++ p :: rest))
    (hliteral : Literal lead (done ++ p :: rest)) :
    ∃ r₁ q, loop (textsOf kind (p :: rest)) r = loop (textsOf kind rest) r₁ ∧ Inv r₁ ∧
      r₁.format = formatText lead (done ++ q :: rest) ∧ kind q.1 = false ∧
      Renumbered kind (Found r₁) p q ∧ ∀ N s, Found r N s → Found r₁ N s := by
  cases hp : kind p.1 with
  | false =>
    refine ⟨r, p, ?_, hinv, hformat, hp, ⟨rfl, by simp [hp]⟩, fun _ _ h => h⟩
    rw [textsOf, List.filter_cons, if_neg (by simp [hp])]
    rfl
  | true =>
    obtain ⟨r₁, hloop, hinv₁, hstep⟩ := h.cons p List.mem_cons_self hp (textsOf kind rest) r hinv
    have hother : ∀ q ∈ done, q.1 ≠ p.1 := by
      intro q hq heq
      have hnot := hdone q hq
      rw [heq, hp] at hnot
      cases hnot
    refine ⟨r₁, (.field (r.maxFieldNumber + 1), p.2), ?_, hinv₁, ?_, h.field _, ⟨rfl, ?_⟩, hstep.keeps⟩
    · rw [textsOf, List.filter_cons, if_pos hp, List.map_cons]
      exact hloop
    · rw [hstep.format, replace_formatText hformat hliteral (h.kind_eq p.1 hp) hother (hrest hp)]
    · simpa [hp] using hstep.found

theorem Renumbered.mono {Found' : ℕ → Specifier → Prop} {F : ℕ → Specifier → Prop} {p q : Piece}
    (h : Renumbered kind F p q) (hF : ∀ N s, F N s → Found' N s) : Renumbered kind Found' p q := by
  refine ⟨h.1, ?_⟩
  have h2 := h.2
  split_ifs at h2 ⊢
  · obtain ⟨N, hN, hfound⟩ := h2
    exact ⟨N, hN, hF N _ hfound⟩
  · exact h2

theorem renumber_formatText (h : Renumbers kind Inv Found loop rest)
    (hnodup : ((rest.filter fun p => kind p.1).map Prod.fst).Nodup)
    (hdone : ∀ q ∈ done, kind q.1 = false) (hinv : Inv r)
    (hformat : r.format = formatText lead (done ++ rest)) (hliteral : Literal lead (done ++ rest)) :
    ∃ r' rest', loop (textsOf kind rest) r = .ok r' ∧ Inv r' ∧
      r'.format = formatText lead (done ++ rest') ∧
      List.Forall₂ (Renumbered kind (Found r')) rest rest' ∧ ∀ N s, Found r N s → Found r' N s := by
  induction rest generalizing done r with
  | nil => exact ⟨r, [], h.nil r, hinv, hformat, .nil, fun _ _ h => h⟩
  | cons p rest ih =>
    have hnodup' : ((rest.filter fun p => kind p.1).map Prod.fst).Nodup :=
      hnodup.sublist (((List.sublist_cons_self p rest).filter _).map _)
    have hrest : kind p.1 = true → ∀ q ∈ rest, q.1 ≠ p.1 := by
      intro hp q hq heq
      rw [List.filter_cons, if_pos hp, List.map_cons, List.nodup_cons] at hnodup
      exact hnodup.1 (heq ▸ List.mem_map_of_mem (List.mem_filter.mpr ⟨hq, by simpa [heq] using hp⟩))
    obtain ⟨r₁, q, hloop, hinv₁, hformat₁, hq, hone, hkeeps₁⟩ :=
      h.next hdone hrest hinv hformat hliteral
    have hassoc : done ++ q :: rest = (done ++ [q]) ++ rest := by simp
    have hdone₁ : ∀ x ∈ done ++ [q], kind x.1 = false := by
      exact List.forall_mem_append.mpr ⟨hdone, List.forall_mem_singleton.mpr hq⟩
    have hliteral₁ : Literal lead ((done ++ [q]) ++ rest) := hliteral.congr (by simp [hone.1])
    have htail : Renumbers kind Inv Found loop rest :=
      ⟨h.kind_eq, h.field, h.nil, fun x hx => h.cons x (List.mem_cons_of_mem p hx)⟩
    rw [hassoc] at hformat₁
    obtain ⟨r', rest', hloop', hinv', hformat', hall, hkeeps⟩ :=
      ih htail hnodup' hdone₁ hinv₁ hformat₁ hliteral₁
    refine ⟨r', q :: rest', hloop.trans hloop', hinv', ?_, .cons (hone.mono hkeeps) hall, ?_⟩
    · simpa using hformat'
    · exact fun N s hfound => hkeeps N s (hkeeps₁ N s hfound)

theorem Renumbers.all (h : Renumbers kind Inv Found loop pieces)
    (hnodup : ((pieces.filter fun p => kind p.1).map Prod.fst).Nodup) (hinv : Inv r)
    (hformat : r.format = formatText lead pieces) (hliteral : Literal lead pieces) :
    ∃ r' pieces', loop (textsOf kind pieces) r = .ok r' ∧ Inv r' ∧
      r'.format = formatText lead pieces' ∧
      List.Forall₂ (Renumbered kind (Found r')) pieces pieces' ∧ ∀ N s, Found r N s → Found r' N s := by
  have hdone : ∀ q ∈ ([] : List Piece), kind q.1 = false := nofun
  exact renumber_formatText h hnodup hdone hinv hformat hliteral

end Loop

end Format

end Goby.Moos.Format
