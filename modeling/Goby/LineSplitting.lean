import Goby.LineReading
import Mathlib.Data.List.TakeWhile

/-! A line is waited for until the whole delimiter has arrived, but it is cut at the first occurrence
of the delimiter's last character, and that character is dropped. So no line is the piece of the
text up to its delimiter. Where the last character stands for nothing but the end of a delimiter,
it is all that is missing. -/

namespace Goby

section Cutting

variable {α : Type} [DecidableEq α]

/-- The list up to the end of the first occurrence of a separator, and what follows. -/
def firstCut (sep : List α) : List α → Option (List α × List α)
  | [] => if sep = [] then some ([], []) else none
  | a :: l =>
    if sep <+: a :: l then some (sep, (a :: l).drop sep.length)
    else (firstCut sep l).map fun cut => (a :: cut.1, cut.2)

def cutLoop (sep : List α) : ℕ → List α → List (List α) × List α
  | 0, l => ([], l)
  | fuel + 1, l =>
    match firstCut sep l with
    | none => ([], l)
    | some (piece, rest) => ((piece :: (cutLoop sep fuel rest).1), (cutLoop sep fuel rest).2)

/-- The pieces of a list cut after each occurrence of a separator, from the left, and the rest. -/
def cutAfter (sep l : List α) : List (List α) × List α := cutLoop sep l.length l

variable {sep l : List α}

theorem firstCut_eq_none (hsep : sep ≠ []) : firstCut sep l = none ↔ ¬ sep <:+: l := by
  induction l with
  | nil => simp [firstCut, hsep]
  | cons a l ih =>
    rw [firstCut]
    split
    next h => simp [h.isInfix]
    next h => rw [Option.map_eq_none_iff, ih, List.infix_cons_iff, not_or, and_iff_right h]

theorem suffix_of_firstCut {piece rest : List α} (h : firstCut sep l = some (piece, rest)) :
    sep <:+ piece := by
  induction l generalizing piece with
  | nil =>
    rw [firstCut] at h
    split at h
    next hsep => exact hsep ▸ List.nil_suffix
    next => cases h
  | cons a l ih =>
    rw [firstCut] at h
    split at h
    next =>
      cases h
      exact List.suffix_refl _
    next =>
      obtain ⟨cut, hcut, heq⟩ := Option.map_eq_some_iff.mp h
      cases heq
      exact (ih hcut).trans (List.suffix_cons _ _)

/-- If the separator ends where an element occurs for the first time, it ends there first. -/
theorem firstCut_of_suffix {c : α} {line rest : List α} (hc : c ∈ sep) (hline : c ∉ line)
    (hsep : sep <:+ line ++ [c]) : firstCut sep (line ++ c :: rest) = some (line ++ [c], rest) := by
  -- an occurrence at the front that is shorter would lie within the line
  have hfront {line : List α} (hline : c ∉ line) (hsep : sep <:+ line ++ [c])
      (hpre : sep <+: line ++ c :: rest) : sep = line ++ [c] := by
    have hwhole : line ++ [c] <+: line ++ c :: rest := ⟨rest, by simp⟩
    have hle : sep <+: line ++ [c] := List.prefix_of_prefix_length_le hpre hwhole hsep.length_le
    rcases List.prefix_concat_iff.mp hle with heq | hshort
    · exact heq
    · exact absurd (hshort.subset hc) hline
  induction line with
  | nil =>
    have heq : sep = [c] := by
      rcases List.suffix_cons_iff.mp hsep with heq | hnil
      · exact heq
      · exact absurd (hnil.subset hc) List.not_mem_nil
    simp [firstCut, heq]
  | cons b line ih =>
    have hline' : c ∉ line := fun h => hline (List.mem_cons_of_mem _ h)
    rw [List.cons_append, firstCut]
    split
    next hpre =>
      have heq := hfront hline hsep hpre
      rw [heq]
      simp
    next hpre =>
      rcases List.suffix_cons_iff.mp hsep with heq | hsep'
      · exact absurd ⟨rest, by simp [heq]⟩ hpre
      · rw [ih hline' hsep']
        rfl

end Cutting

namespace LineReader

/-- The last character of the delimiter occurs at the end of delimiters only. -/
def LastEnds (d : LineDelimiter) (text : Bytes) : Prop :=
  ∀ before after, text = before ++ d.last :: after → d.bytes <:+ before ++ [d.last]

variable {d : LineDelimiter} {text : Bytes} {lines : List Bytes}

theorem dropLast_suffix {before : Bytes}
    (h : d.bytes <:+ before ++ [d.last]) : d.bytes.dropLast <:+ before := by
  obtain ⟨front, hfront⟩ := h
  rw [← List.dropLast_append_getLast d.nonempty, ← List.append_assoc] at hfront
  exact ⟨front, (List.append_inj' hfront rfl).1⟩

theorem LastEnds.of_append {line rest : Bytes} (h : LastEnds d (line ++ d.last :: rest))
    (hline : d.last ∉ line) : LastEnds d rest := by
  have hinner : d.last ∉ d.bytes.dropLast :=
    fun hmem => hline ((dropLast_suffix (h line rest rfl)).subset hmem)
  rintro before after rfl
  have hsuffix : d.bytes.dropLast <:+ line ++ d.last :: before := by
    refine dropLast_suffix (h (line ++ d.last :: before) after (by simp) |>.trans ?_)
    simp
  have hwithin : d.bytes.dropLast <:+ before := by
    have hbefore : before <:+ line ++ d.last :: before := ⟨line ++ [d.last], by simp⟩
    rcases Nat.lt_or_ge before.length d.bytes.dropLast.length with hlong | hshort
    · have hover : d.last :: before <:+ d.bytes.dropLast :=
        List.suffix_of_suffix_length_le ⟨line, rfl⟩ hsuffix hlong
      exact absurd (hover.subset List.mem_cons_self) hinner
    · exact List.suffix_of_suffix_length_le hsuffix hbefore hshort
  obtain ⟨front, hfront⟩ := hwithin
  refine ⟨front, ?_⟩
  conv_lhs => rw [← List.dropLast_append_getLast d.nonempty]
  rw [← List.append_assoc, hfront]
  rfl

theorem LastEnds.of_terminated {rest : Bytes}
    (h : LastEnds d (terminated d.last lines ++ rest)) (hclean : ∀ line ∈ lines, d.last ∉ line) :
    LastEnds d rest := by
  induction lines with
  | nil => exact h
  | cons line lines ih =>
    rw [terminated_cons, List.append_assoc] at h
    exact ih (h.of_append (hclean line List.mem_cons_self)) fun l hl => hclean l (List.mem_cons_of_mem _ hl)

theorem LastEnds.notMem (h : LastEnds d text) (hout : ¬ d.bytes <:+: text) : d.last ∉ text := by
  intro hmem
  obtain ⟨before, after, rfl⟩ := List.append_of_mem hmem
  refine hout ((h before after rfl).isInfix.trans ⟨[], after, ?_⟩)
  simp

/-- Where the last character only ends delimiters, the pieces are the lines with that character. -/
theorem LastEnds.cutLoop {rest : Bytes}
    (h : LastEnds d (terminated d.last lines ++ rest)) (hclean : ∀ line ∈ lines, d.last ∉ line)
    (hrest : d.last ∉ rest) {fuel : ℕ} (hfuel : lines.length ≤ fuel) :
    cutLoop d.bytes fuel (terminated d.last lines ++ rest) = (lines.map (· ++ [d.last]), rest) := by
  induction fuel generalizing lines with
  | zero =>
    rw [List.eq_nil_of_length_eq_zero (Nat.le_zero.mp hfuel)]
    rfl
  | succ fuel ih =>
    cases lines with
    | nil =>
      have hnone : firstCut d.bytes rest = none :=
        (firstCut_eq_none d.nonempty).mpr fun hin => hrest (last_mem_of_contains hin)
      simp [Goby.cutLoop, hnone]
    | cons line lines =>
      have hline := hclean line List.mem_cons_self
      rw [terminated_cons, List.append_assoc, List.cons_append] at h ⊢
      have hcut : firstCut d.bytes (line ++ d.last :: (terminated d.last lines ++ rest)) =
          some (line ++ [d.last], terminated d.last lines ++ rest) :=
        firstCut_of_suffix d.last_mem hline (h line _ rfl)
      have hloop := ih (h.of_append hline) (fun l hl => hclean l (List.mem_cons_of_mem _ hl))
        (Nat.le_of_succ_le_succ hfuel)
      simp only [Goby.cutLoop, hcut, hloop, List.map_cons]

theorem length_le_terminated (c : UInt8)
    (lines : List Bytes) : lines.length ≤ (terminated c lines).length := by
  induction lines with
  | nil => exact Nat.le_refl _
  | cons line lines ih =>
    rw [terminated_cons, List.length_append, List.length_cons, List.length_cons]
    omega

/-- A piece that was cut off holds the last character of the delimiter. -/
theorem cutAfter_of_infix (h : d.bytes <:+: text) : ∃ piece pieces, (cutAfter d.bytes text).1 = piece :: pieces ∧
    d.last ∈ piece := by
  obtain ⟨fuel, hfuel⟩ := Nat.exists_eq_succ_of_ne_zero
    (List.length_pos_of_mem (last_mem_of_contains h)).ne'
  cases hcut : firstCut d.bytes text with
  | none => exact absurd h ((firstCut_eq_none d.nonempty).mp hcut)
  | some cut =>
    refine ⟨cut.1, (Goby.cutLoop d.bytes fuel cut.2).1, ?_, (suffix_of_firstCut hcut).subset d.last_mem⟩
    rw [cutAfter, hfuel, Goby.cutLoop, hcut]

/-- Without a delimiter, bytes are only collected. -/
theorem receiveAll_of_not_contains {r : LineReader} {chunks : List Bytes}
    (h : ¬ d.bytes <:+: r.buffer ++ chunks.flatten) :
    receiveAll d r chunks = { r with buffer := r.buffer ++ chunks.flatten } := by
  induction chunks generalizing r with
  | nil => simp [receiveAll]
  | cons chunk chunks ih =>
    rw [List.flatten_cons, ← List.append_assoc] at h
    have hchunk : ¬ d.bytes <:+: r.buffer ++ chunk :=
      fun hin => h (hin.trans (List.prefix_append _ _).isInfix)
    have hstep : r.receive d chunk = { r with buffer := r.buffer ++ chunk } := by
      rw [receive]
      cases (r.buffer ++ chunk).length with
      | zero => rfl
      | succ fuel => exact if_neg hchunk
    rw [receiveAll, List.foldl_cons, hstep]
    exact (ih h).trans (by rw [List.flatten_cons, List.append_assoc])

/-- The lines are the pieces of the text with their delimiters only if there are none; but for the
last character, they are where that character ends delimiters only. -/
theorem receiveAll_pieces (d : LineDelimiter) (chunks : List Bytes) :
    ((receiveAll d {} chunks).lines = (cutAfter d.bytes chunks.flatten).1 ∧
        (receiveAll d {} chunks).buffer = (cutAfter d.bytes chunks.flatten).2 ↔
      ¬ d.bytes <:+: chunks.flatten) ∧
    (LastEnds d chunks.flatten →
      (receiveAll d {} chunks).lines.map (· ++ [d.last]) = (cutAfter d.bytes chunks.flatten).1 ∧
        (receiveAll d {} chunks).buffer = (cutAfter d.bytes chunks.flatten).2) := by
  obtain ⟨⟨htext, hclean⟩, hout⟩ := receiveAll_reads d chunks
  constructor
  · constructor
    · rintro ⟨hlines, -⟩ hin
      obtain ⟨piece, pieces, hpieces, hlast⟩ := cutAfter_of_infix hin
      exact hclean piece (by rw [hlines, hpieces]; exact List.mem_cons_self) hlast
    · intro hnone
      have hcut : cutAfter d.bytes chunks.flatten = ([], chunks.flatten) := by
        rw [cutAfter]
        cases chunks.flatten.length with
        | zero => rfl
        | succ fuel => simp only [Goby.cutLoop, (firstCut_eq_none d.nonempty).mpr hnone]
      rw [receiveAll_of_not_contains (r := {}) hnone, hcut]
      exact ⟨rfl, rfl⟩
  · intro hends
    rw [← htext] at hends
    have hbuffer := (hends.of_terminated hclean).notMem hout
    have hfuel : (receiveAll d {} chunks).lines.length ≤ chunks.flatten.length := by
      have hle := length_le_terminated d.last (receiveAll d {} chunks).lines
      rw [← htext, List.length_append]
      omega
    have hcut := hends.cutLoop hclean hbuffer hfuel
    rw [htext] at hcut
    rw [cutAfter, hcut]
    exact ⟨rfl, rfl⟩

def crlfDelimiter : LineDelimiter := ⟨[13, 10], by decide⟩

/-- `a\nb\r\n` is one piece, but two lines are delivered, and a piece that is a line loses its end. -/
theorem crlf_pieces_differ :
    (receiveAll crlfDelimiter {} [[97, 10, 98, 13, 10]]).lines = [[97], [98, 13]] ∧
      cutAfter crlfDelimiter.bytes [97, 10, 98, 13, 10] = ([[97, 10, 98, 13, 10]], []) ∧
      (receiveAll crlfDelimiter {} [[97, 13, 10]]).lines = [[97, 13]] ∧
      cutAfter crlfDelimiter.bytes [97, 13, 10] = ([[97, 13, 10]], []) := by
  decide +kernel

end LineReader
end Goby
