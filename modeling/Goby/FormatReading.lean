import Goby.FormatSpecifiers
import Mathlib.Data.List.TakeWhile

/-! The loop over a format gives every specifier the part of the string in its place, if the first
literal character behind it is not in that part. What a specifier sets is in the place that it
names, and does not touch what another one names. -/

namespace Goby.Moos.Format

open MarkedText

theorem toLower_eq_percent_iff (b : UInt8) : toLower b = percent ↔ b = percent :=
  forall_byte (by decide +kernel) b

theorem toLower_of_isDigit {b : UInt8} : isDigit b = true → toLower b = b := forall_byte (by decide +kernel) b

theorem map_toLower_numeral (n : ℕ) : (numeral n).map toLower = numeral n := by
  conv_rhs => rw [← List.map_id (numeral n)]
  exact List.map_congr_left fun b hb => toLower_of_isDigit (isDigit_numeral n b hb)

theorem map_toLower_text (s : Specifier) : s.text.map toLower = s.text := by
  have hdot : toLower dot = dot := by decide
  have hcolon : toLower colon = colon := by decide
  cases s <;> simp [Specifier.text, map_toLower_numeral, hdot, hcolon]

section Loop

variable {ι : Type} {lib : Library ι} {delimiter : Bytes}
  {inner : ι → Bytes → Bytes → Message → Except Failure Message} {type : ι} {b : UInt8} {v : Bytes}
  {value : Specifier → Bytes} {pieces : List Piece}

theorem eat_append (hv : ∀ c ∈ v, toLower c ≠ toLower b) (s : Bytes) :
    eat (toLower b) (v ++ b :: s) = s := by
  have hfind : (v ++ b :: s).findIdx? (fun c => toLower c = toLower b) = some v.length := by
    rw [List.findIdx?_append, List.findIdx?_eq_none_iff.mpr fun c hc => by simpa using hv c hc]
    simp [List.findIdx?_cons]
  rw [eat, hfind]
  simp

theorem parseLoop_literal {x : Bytes} (hx : percent ∉ x) (format s : Bytes) (out : Message) :
    parseLoop lib delimiter inner type none (x.map toLower ++ format) (x ++ s) out =
      parseLoop lib delimiter inner type none format s out := by
  induction x with
  | nil => rfl
  | cons b x ih =>
    have hb : toLower b ≠ percent := fun h => hx ((toLower_eq_percent_iff b).mp h ▸ List.mem_cons_self)
    have heat : eat (toLower b) (b :: (x ++ s)) = x ++ s := eat_append (v := []) nofun _
    rw [List.map_cons, List.cons_append, List.cons_append, parseLoop, if_neg hb, heat]
    exact ih fun h => hx (List.mem_cons_of_mem b h)

/-- The value is still there when the text behind it is eaten. -/
theorem parseLoop_behind {x v : Bytes} (hx : percent ∉ b :: x)
    (hv : ∀ c ∈ v, toLower c ≠ toLower b) (format s : Bytes) (out : Message) :
    parseLoop lib delimiter inner type none ((b :: x).map toLower ++ format) (v ++ (b :: x ++ s)) out =
      parseLoop lib delimiter inner type none format s out := by
  have hb : toLower b ≠ percent := fun h => hx ((toLower_eq_percent_iff b).mp h ▸ List.mem_cons_self)
  rw [List.map_cons, List.cons_append, List.cons_append, parseLoop, if_neg hb, eat_append hv]
  exact parseLoop_literal (fun h => hx (List.mem_cons_of_mem b h)) format s out

theorem parseLoop_collect {x : Bytes} (hx : percent ∉ x) (specifier format s : Bytes)
    (out : Message) :
    parseLoop lib delimiter inner type (some specifier) (x ++ format) s out =
      parseLoop lib delimiter inner type (some (specifier ++ x)) format s out := by
  induction x generalizing specifier with
  | nil => simp
  | cons b x ih =>
    have hb : b ≠ percent := fun h => hx (h ▸ List.mem_cons_self)
    rw [List.cons_append, parseLoop, if_neg hb, ih fun h => hx (List.mem_cons_of_mem b h)]
    simp

theorem parseLoop_specifier {word : Bytes} (hword : percent ∉ word) (format s : Bytes)
    (out : Message) :
    parseLoop lib delimiter inner type none (percent :: (word ++ percent :: format)) s out =
      (parseSpecifier lib delimiter inner type word (extractUntil (format.headD 0) s) out >>= fun out =>
        parseLoop lib delimiter inner type none format s out) := by
  rw [parseLoop, if_pos rfl, parseLoop_collect hword, List.nil_append, parseLoop, if_pos rfl]

/-- The text of a piece ends at the first character behind it, or at the end. -/
structure Stops (value : Specifier → Bytes) (p : Piece) : Prop where
  literal : ∀ b, p.2.head? = some b → ∀ c ∈ value p.1, toLower c ≠ toLower b
  zero : p.2 = [] → 0 ∉ value p.1

def setAll (lib : Library ι) (delimiter : Bytes)
    (inner : ι → Bytes → Bytes → Message → Except Failure Message) (type : ι)
    (value : Specifier → Bytes) : List Piece → Message → Except Failure Message
  | [], out => .ok out
  | p :: pieces, out =>
    parseSpecifier lib delimiter inner type p.1.text (value p.1) out >>= fun out =>
      setAll lib delimiter inner type value pieces out

theorem toLower_eq_zero : toLower b = 0 → b = 0 := forall_byte (by decide +kernel) b

theorem extractUntil_append (hv : ∀ c ∈ v, toLower c ≠ toLower b) (s : Bytes) :
    extractUntil (toLower b) (v ++ b :: s) = v := by
  have hall : ∀ c ∈ v, decide (toLower c ≠ toLower b) = true := fun c hc => by simpa using hv c hc
  rw [extractUntil, List.takeWhile_append_of_pos hall, List.takeWhile_cons_of_neg (by simp), List.append_nil]

theorem extractUntil_zero (hv : 0 ∉ v) : extractUntil 0 v = v := by
  apply List.takeWhile_eq_self_iff.mpr
  intro c hc
  have hne : toLower c ≠ 0 := fun h => hv (toLower_eq_zero h ▸ hc)
  simpa using hne

def lowered (pieces : List Piece) : List Piece := pieces.map fun p => (p.1, p.2.map toLower)

theorem map_toLower_formatText (lead : Bytes) (pieces : List Piece) :
    (formatText lead pieces).map toLower = formatText (lead.map toLower) (lowered pieces) := by
  have hpercent : toLower percent = percent := by decide
  induction pieces generalizing lead with
  | nil => simp [formatText, lowered, layout]
  | cons p pieces ih =>
    have hlow := ih p.2
    simp only [formatText, lowered, List.map_cons, layout_cons, List.map_append, hpercent, map_toLower_text] at hlow ⊢
    rw [hlow]

theorem parseLoop_formatText
    (hbehind : ∀ p ∈ pieces, percent ∉ p.2) (hseparated : Between (· ≠ []) (pieces.map Prod.snd))
    (hstops : ∀ p ∈ pieces, Stops value p) (out : Message) :
    parseLoop lib delimiter inner type none (formatText [] (lowered pieces)) (filled [] value pieces) out =
      setAll lib delimiter inner type value pieces out := by
  induction pieces generalizing out with
  | nil => rfl
  | cons p pieces ih =>
    have hp := hstops p List.mem_cons_self
    have hrest := ih (fun q hq => hbehind q (List.mem_cons_of_mem p hq)) hseparated.2
      fun q hq => hstops q (List.mem_cons_of_mem p hq)
    have hformat : formatText [] (lowered (p :: pieces)) =
        percent :: (p.1.text ++ percent :: (p.2.map toLower ++ formatText [] (lowered pieces))) := by
      simp [formatText, lowered, layout]
    have hstring : filled [] value (p :: pieces) = value p.1 ++ (p.2 ++ filled [] value pieces) := by
      simp [filled]
    rw [hformat, hstring, parseLoop_specifier (percent_notMem_text p.1), setAll]
    cases hlit : p.2 with
    | nil =>
      obtain rfl : pieces = [] := by
        by_contra hne
        exact hseparated.1 (by simpa using hne) hlit
      have hextract : extractUntil 0 (value p.1) = value p.1 := extractUntil_zero (hp.zero hlit)
      simp only [filled, lowered, formatText, layout, List.map_nil, List.flatMap_nil, List.append_nil, List.headD_nil,
        hextract]
      rfl
    | cons b x =>
      have hv := hp.literal b (by rw [hlit]; rfl)
      have hx : percent ∉ b :: x := hlit ▸ hbehind p List.mem_cons_self
      have hextract : extractUntil (((b :: x).map toLower ++ formatText [] (lowered pieces)).headD 0)
          (value p.1 ++ (b :: x ++ filled [] value pieces)) = value p.1 := extractUntil_append hv _
      rw [hextract]
      congr 1
      funext out'
      rw [parseLoop_behind hx hv]
      exact hrest out'

theorem parseWith_formatText {lead : Bytes}
    (hlead : percent ∉ lead) (hbehind : ∀ p ∈ pieces, percent ∉ p.2)
    (hseparated : Between (· ≠ []) (pieces.map Prod.snd)) (hstops : ∀ p ∈ pieces, Stops value p)
    (out : Message) :
    parseWith lib delimiter inner type (filled lead value pieces) (formatText lead pieces) out =
      setAll lib delimiter inner type value pieces out := by
  have hformat : formatText (lead.map toLower) (lowered pieces) =
      lead.map toLower ++ formatText [] (lowered pieces) := rfl
  have hstring : filled lead value pieces = lead ++ filled [] value pieces := rfl
  rw [parseWith, map_toLower_formatText, hformat, hstring, parseLoop_literal hlead]
  exact parseLoop_formatText hbehind hseparated hstops out

end Loop

def Specifier.number : Specifier → ℕ
  | .field n => n
  | .element n _ => n
  | .nested n _ => n

def Specifier.slot (m : Message) : Specifier → List Value
  | .field n => m n
  | .element n _ => m n
  | .nested n k => ((m n).head?.getD (.message emptyMessage)).fields k

/-- Specifiers of which neither is about a part of what the other is about. -/
def Apart : Specifier → Specifier → Prop
  | .nested n k, .nested n' k' => n ≠ n' ∨ k ≠ k'
  | s, s' => s.number ≠ s'.number

theorem slot_update_of_ne {s : Specifier} {n : ℕ} (h : s.number ≠ n) (m : Message)
    (values : List Value) :
    s.slot (Function.update m n values) = s.slot m := by
  cases s with
  | field n' => exact Function.update_of_ne h _ _
  | element n' i => exact Function.update_of_ne h _ _
  | nested n' k =>
    have hne : n' ≠ n := h
    simp only [Specifier.slot, Function.update_of_ne hne]

theorem Apart.number_ne {s s' : Specifier} (h : Apart s s') (hs : s.isNested = false) :
    s'.number ≠ s.number := by
  cases s with
  | field n => exact Ne.symm h
  | element n i => exact Ne.symm h
  | nested n k => cases hs

section Places

variable {ι : Type} (lib : Library ι) (delimiter : Bytes) (type : ι)

def embeddedType (n : ℕ) : Option ι :=
  match findFieldByNumber (lib.descriptor type) n with
  | none => none
  | some fd =>
    match fd.repeated, fd.type with
    | false, .message subtype => some subtype
    | _, _ => none

/-- The field that a specifier names; an element is one of a repeated field. -/
def Specifier.leaf : Specifier → Option (FieldDescriptor ι)
  | .field n => findFieldByNumber (lib.descriptor type) n
  | .element n _ => (findFieldByNumber (lib.descriptor type) n).filter FieldDescriptor.repeated
  | .nested n k => (embeddedType lib type n).bind fun subtype =>
      findFieldByNumber (lib.descriptor subtype) k

def Specifier.values (fd : FieldDescriptor ι) (slot : List Value) : Specifier → List Value
  | .element _ i => slot[i]?.toList
  | _ => if fd.repeated then slot else [slot.head?.getD fd.default]

def printedValues (fd : FieldDescriptor ι) (values : List Value) : Bytes :=
  delimiter.intercalate (values.map (printValue lib fd.type))

structure Readable (s : Specifier) (fd : FieldDescriptor ι) (values : List Value) : Prop where
  ne_nil : values ≠ []
  read : ∀ v ∈ values, readValue lib fd.type (printValue lib fd.type v) = some v
  enum : fd.repeated = true → fd.type.isEnum = false
  split : fd.repeated = true → s.isElement = false →
    (printedValues lib delimiter fd values).splitOnP (delimiter.contains ·) =
      values.map (printValue lib fd.type)

end Places

section Setting

variable {ι : Type} {lib : Library ι} {delimiter : Bytes} {type : ι} {fd : FieldDescriptor ι}
  {values : List Value} {out : Message} {inner : ι → Bytes → Bytes → Message → Except Failure Message}
  {slot : List Value} {n : ℕ} {subtype : ι}

theorem setValues_repeated (hrepeated : fd.repeated = true) (henum : fd.type.isEnum = false)
    (hread : ∀ v ∈ values, readValue lib fd.type (printValue lib fd.type v) = some v)
    (out : Message) :
    setValues lib fd none (values.map (printValue lib fd.type)) out =
      .ok (Function.update out fd.number (out fd.number ++ values)) := by
  induction values generalizing out with
  | nil => simp [setValues]
  | cons v values ih =>
    have hset : setValue lib fd none (printValue lib fd.type v) out =
        .ok (Function.update out fd.number (out fd.number ++ [v])) := by
      simp [setValue, hrepeated, henum, hread v List.mem_cons_self]
    rw [List.map_cons, setValues, hset]
    change setValues lib fd none _ _ = _
    rw [ih fun w hw => hread w (List.mem_cons_of_mem v hw)]
    simp

theorem parseField_field (hfd : findFieldByNumber (lib.descriptor type) n = some fd) (hn : n < 2 ^ 31)
    (h : Readable lib delimiter (.field n) fd ((Specifier.field n).values fd slot))
    (hout : out n = []) :
    ∃ new, parseField lib delimiter type (numeral n)
        (printedValues lib delimiter fd ((Specifier.field n).values fd slot)) out =
          .ok (Function.update out n new) ∧
      (Specifier.field n).values fd new = (Specifier.field n).values fd slot := by
  have hnumber : fd.number = n := by exact_mod_cast (findFieldByNumber_eq_some hfd).2
  have hsplit : (numeral n).splitOn dot = [numeral n] := splitOn_of_notMem (numeral_notMem (by decide))
  have hparse : ∀ extract, parseField lib delimiter type (numeral n) extract out =
      setValues lib fd none (if fd.repeated = false then [extract]
        else extract.splitOnP (delimiter.contains ·)) out := by
    intro extract
    simp [parseField, hsplit, lexicalCastInt_numeral hn, hfd]
  rw [hparse]
  cases hrepeated : fd.repeated with
  | false =>
    simp only [Specifier.values, hrepeated, Bool.false_eq_true, if_false] at h ⊢
    refine ⟨[slot.head?.getD fd.default], ?_, rfl⟩
    have hread := h.read _ List.mem_cons_self
    simp [printedValues, setValues, setValue, hrepeated, hread, hnumber]
    rfl
  | true =>
    simp only [Specifier.values, hrepeated, if_true] at h ⊢
    refine ⟨slot, ?_, rfl⟩
    rw [if_neg (by decide), h.split hrepeated rfl, setValues_repeated hrepeated (h.enum hrepeated) h.read,
      hnumber, hout, List.nil_append]

theorem parseField_element {n i : ℕ} {v : Value}
    (hfd : findFieldByNumber (lib.descriptor type) n = some fd)
    (hrepeated : fd.repeated = true) (henum : fd.type.isEnum = false) (hn : n < 2 ^ 31)
    (hi : i < 2 ^ 31)
    (hread : readValue lib fd.type (printValue lib fd.type v) = some v) (hout : out n = []) :
    ∃ new, parseField lib delimiter type (Specifier.element n i).text (printValue lib fd.type v) out =
          .ok (Function.update out n new) ∧ new[i]? = some v := by
  have hnumber : fd.number = n := by exact_mod_cast (findFieldByNumber_eq_some hfd).2
  refine ⟨(fillUp fd (i + 1) []).set i v, ?_, ?_⟩
  · have hnot : ¬ (i : ℤ) < 0 := by omega
    simp [parseField, splitOn_element, lexicalCastInt_numeral hn, lexicalCastInt_numeral hi, hfd, setValues,
      setValue, hrepeated, henum, hread, hnumber, hout, hnot]
    rfl
  · simp [fillUp]

def Specifier.Small : Specifier → Prop
  | .field n => n < 2 ^ 31
  | .element n i => n < 2 ^ 31 ∧ i < 2 ^ 31
  | .nested n k => n < 2 ^ 31 ∧ k < 2 ^ 31

theorem embeddedType_eq_some (h : embeddedType lib type n = some subtype) :
    ∃ fd, findFieldByNumber (lib.descriptor type) n = some fd ∧ fd.number = n ∧ fd.repeated = false ∧
      fd.type = .message subtype := by
  unfold embeddedType at h
  split at h
  · cases h
  next fd hfd =>
    split at h
    next hrepeated htype =>
      cases h
      exact ⟨fd, hfd, by exact_mod_cast (findFieldByNumber_eq_some hfd).2, hrepeated, htype⟩
    · cases h

theorem default_of_message (h : fd.type = .message subtype) : fd.default = .message emptyMessage := by
  simp [FieldDescriptor.default, h]

theorem submessageField_numeral {specifier requirement : Bytes} (hn : n < 2 ^ 31)
    (hfd : findFieldByNumber (lib.descriptor type) n = some fd) (hrepeated : fd.repeated = false)
    (htype : fd.type = .message subtype) :
    ∃ index, submessageField lib specifier requirement type (numeral n) = .ok (fd, subtype, index) := by
  have hsplit : (numeral n).splitOn dot = [numeral n] := splitOn_of_notMem (numeral_notMem (by decide))
  have hasInt : asInt (numeral n) = n := by rw [asInt, lexicalCastInt_numeral hn, Option.getD_some]
  exact ⟨_, by simp [submessageField, hsplit, hasInt, hfd, hrepeated, htype]; rfl⟩

theorem parseSpecifier_of_not_nested {s : Specifier} (hs : s.isNested = false) (extract : Bytes) :
    parseSpecifier lib delimiter inner type s.text extract out =
      parseField lib delimiter type s.text extract out := by
  rw [parseSpecifier, if_neg (colon_notMem_text hs)]

theorem parseWith_marked {k : ℕ} {extract : Bytes} (hzero : 0 ∉ extract) :
    parseWith lib delimiter inner type extract (marked (numeral k)) out =
      parseField lib delimiter type (numeral k) extract out := by
  have hstops : ∀ p ∈ [((.field k, []) : Piece)], Stops (fun _ => extract) p := by
    intro p hp
    obtain rfl := List.mem_singleton.mp hp
    exact ⟨nofun, fun _ => hzero⟩
  have hparse : parseWith lib delimiter inner type (filled [] (fun _ => extract) [(.field k, [])])
      (formatText [] [(.field k, [])]) out =
        setAll lib delimiter inner type (fun _ => extract) [(.field k, [])] out :=
    parseWith_formatText List.not_mem_nil (by simp) (by simp [Between]) hstops out
  have hformat : formatText [] [((.field k, []) : Piece)] = marked (numeral k) := by
    simp [formatText, layout, marked, Specifier.text]
  have hstring : filled [] (fun _ => extract) [((.field k, []) : Piece)] = extract := by simp [filled]
  rw [← hformat]
  rw [hstring] at hparse
  rw [hparse, setAll, parseSpecifier_of_not_nested rfl]
  change (parseField lib delimiter type (numeral k) extract out >>= fun out => .ok out) = _
  cases parseField lib delimiter type (numeral k) extract out <;> rfl

/-- What a specifier sets: the values in its place are those that were written, and what is apart
from it stays as it is. -/
structure Sets (s : Specifier) (fd : FieldDescriptor ι) (values : List Value) (out out' : Message) :
    Prop where
  values_eq : s.values fd (s.slot out') = values
  apart : ∀ s', Apart s s' → s'.slot out' = s'.slot out

/-- What was written for the values in the place of a specifier sets these, wherever there is
nothing in its place. -/
def ReadsBack (lib : Library ι) (delimiter : Bytes)
    (inner : ι → Bytes → Bytes → Message → Except Failure Message) (type : ι) (s : Specifier)
    (fd : FieldDescriptor ι) (values : List Value) : Prop :=
  ∀ out, s.slot out = [] → ∃ out', parseSpecifier lib delimiter inner type s.text
    (printedValues lib delimiter fd values) out = .ok out' ∧ Sets s fd values out out'

theorem readsBack_field (hleaf : (Specifier.field n).leaf lib type = some fd) (hn : n < 2 ^ 31)
    (h : Readable lib delimiter (.field n) fd ((Specifier.field n).values fd slot)) :
    ReadsBack lib delimiter inner type (.field n) fd ((Specifier.field n).values fd slot) := by
  intro out hout
  obtain ⟨new, hparse, hvalues⟩ := parseField_field hleaf hn h hout
  refine ⟨Function.update out n new, ?_, ?_, ?_⟩
  · rw [parseSpecifier_of_not_nested rfl]
    exact hparse
  · rw [Specifier.slot, Function.update_self, hvalues]
  · exact fun s' hs' => slot_update_of_ne (hs'.number_ne rfl) _ _

theorem readsBack_element {n i : ℕ} (hleaf : (Specifier.element n i).leaf lib type = some fd)
    (hsmall : n < 2 ^ 31 ∧ i < 2 ^ 31)
    (h : Readable lib delimiter (.element n i) fd ((Specifier.element n i).values fd slot)) :
    ReadsBack lib delimiter inner type (.element n i) fd ((Specifier.element n i).values fd slot) := by
  intro out hout
  obtain ⟨hfd, hrepeated⟩ := Option.filter_eq_some_iff.mp hleaf
  obtain ⟨v, hv⟩ : ∃ v, slot[i]? = some v := by
    have hne := h.ne_nil
    simp only [Specifier.values] at hne
    exact Option.ne_none_iff_exists'.mp fun hnone => hne (by rw [hnone]; rfl)
  have hvalues : (Specifier.element n i).values fd slot = [v] := by simp [Specifier.values, hv]
  rw [hvalues] at h ⊢
  have hprinted : printedValues lib delimiter fd [v] = printValue lib fd.type v := by simp [printedValues]
  obtain ⟨new, hparse, hnew⟩ := @parseField_element ι lib delimiter type fd out n i v hfd hrepeated
    (h.enum hrepeated) hsmall.1 hsmall.2 (h.read v List.mem_cons_self) hout
  refine ⟨Function.update out n new, ?_, ?_, ?_⟩
  · rw [parseSpecifier_of_not_nested rfl, hprinted]
    exact hparse
  · simp [Specifier.slot, Specifier.values, hnew]
  · exact fun s' hs' => slot_update_of_ne (hs'.number_ne rfl) _ _

theorem readsBack_nested {n k : ℕ} (hleaf : (Specifier.nested n k).leaf lib type = some fd)
    (hsmall : n < 2 ^ 31 ∧ k < 2 ^ 31)
    (h : Readable lib delimiter (.nested n k) fd ((Specifier.nested n k).values fd slot))
    (hzero : 0 ∉ printedValues lib delimiter fd ((Specifier.nested n k).values fd slot)) :
    ReadsBack lib delimiter (parseWith lib delimiter inner) type (.nested n k) fd
      ((Specifier.nested n k).values fd slot) := by
  intro out hout
  obtain ⟨subtype, hsubtype, hfd⟩ := Option.bind_eq_some_iff.mp hleaf
  obtain ⟨fdn, hfdn, rfl, hrepeated, htype⟩ := embeddedType_eq_some hsubtype
  obtain ⟨index, hfield⟩ : ∃ index, submessageField lib (Specifier.nested fdn.number k).text
      (ascii "singular embedded messages") type (numeral fdn.number) = .ok (fdn, subtype, index) :=
    submessageField_numeral hsmall.1 hfdn hrepeated htype
  have hsub : ∀ k', (getSingular fdn out).fields k' = (Specifier.nested fdn.number k').slot out := by
    intro k'
    rw [getSingular, default_of_message htype]
    rfl
  obtain ⟨new, hparse, hvalues⟩ := parseField_field hfd hsmall.2 ⟨h.ne_nil, h.read, h.enum, h.split⟩
    ((hsub k).trans hout)
  refine ⟨Function.update out fdn.number [.message (Function.update (getSingular fdn out).fields k new)],
    ?_, ?_, ?_⟩
  · have hmem : colon ∈ (Specifier.nested fdn.number k).text := by simp [Specifier.text]
    rw [parseSpecifier, if_pos hmem, splitOn_nested]
    change updateSubmessage lib _ (fun subtype sub => parseWith lib delimiter inner subtype _
      (marked (numeral k)) sub) [numeral fdn.number] type out = _
    simp only [updateSubmessage, hfield, bind, Except.bind, hrepeated, Bool.false_eq_true, if_false]
    have hsame : (Specifier.nested fdn.number k).values fd slot = (Specifier.field k).values fd slot := rfl
    rw [parseWith_marked hzero, hsame, hparse]
  · have hslot : (Specifier.nested fdn.number k).slot (Function.update out fdn.number
        [.message (Function.update (getSingular fdn out).fields k new)]) = new := by
      simp [Specifier.slot, Value.fields]
    rw [hslot]
    exact hvalues
  · intro s' hs'
    by_cases hn : s'.number = fdn.number
    · cases s' with
      | field n' => exact absurd hn.symm hs'
      | element n' i => exact absurd hn.symm hs'
      | nested n' k' =>
        obtain rfl : n' = fdn.number := hn
        have hk : k' ≠ k := fun heq => hs'.elim (fun hne => hne rfl) fun hne => hne heq.symm
        rw [← hsub k']
        simp [Specifier.slot, Value.fields, Function.update_of_ne hk]
    · exact slot_update_of_ne hn _ _

end Setting

end Goby.Moos.Format
