import Goby.FormatReading
import Goby.FormatWriting

/-! A message that is written by a format and read by the same format should have the same values in
the fields that the format names, if the first literal character behind a specifier is not in the
value. This needs more than that: bytes are written in hexadecimal digits and not read so, the
first field of a type is not counted for its highest number, and an enumerator of a repeated field
cannot be read. -/

namespace Goby.Moos.Format

open MarkedText

variable {ι : Type} (lib : Library ι) (delimiter : Bytes) (type : ι) (m : Message) (lead : Bytes)
  (pieces : List Piece) {fd : FieldDescriptor ι} {s : Specifier} {v : Value} {p : Piece}

def Specifier.printed (s : Specifier) : Bytes :=
  match s.leaf lib type with
  | none => []
  | some fd => printedValues lib delimiter fd (s.values fd (s.slot m))

/-- The field that a specifier names, by its number and that of the message around it. -/
def Specifier.path : Specifier → List ℕ
  | .field n => [n]
  | .element n _ => [n]
  | .nested n k => [n, k]

/-- A specifier names a field with values other than floating-point numbers. Neither do these have
the first literal character behind it, nor an element the delimiter. The library reads back
embedded messages. -/
structure AdmissiblePiece (p : Piece) (fd : FieldDescriptor ι) : Prop where
  leaf : p.1.leaf lib type = some fd
  real : fd.type ≠ .float ∧ fd.type ≠ .double
  ne_nil : p.1.values fd (p.1.slot m) ≠ []
  stops : ∀ b, p.2.head? = some b → ∀ c ∈ p.1.printed lib delimiter type m, toLower c ≠ toLower b
  elements : fd.repeated = true →
    ∀ v ∈ p.1.values fd (p.1.slot m), ¬ delimiter <:+: printValue lib fd.type v
  library : ∀ t sub, fd.type = .message t → .message sub ∈ p.1.values fd (p.1.slot m) →
    lib.parseFromString t (lib.serializeAsString t sub) = sub

/-- A message and a format of specifiers, separated by literal text, that name distinct fields. -/
structure Admissible : Prop where
  valid : ∀ t, ValidType lib t
  conforms : Conforms lib (.message type) (.message m)
  lead : percent ∉ lead
  behind : ∀ p ∈ pieces, percent ∉ p.2
  separated : Between (· ≠ []) (pieces.map Prod.snd)
  each : ∀ p ∈ pieces, ∃ fd, AdmissiblePiece lib delimiter type m p fd
  distinct : (pieces.map fun p => p.1.path).Nodup

def RoundTrips : Prop :=
  ∃ s out, serialize lib delimiter type m (formatText lead pieces) = .ok s ∧
    parse lib delimiter type s (formatText lead pieces) emptyMessage = .ok out ∧
    ∀ p ∈ pieces, ∀ fd, p.1.leaf lib type = some fd →
      p.1.values fd (p.1.slot out) = p.1.values fd (p.1.slot m)

/-- The highest number is not that of the first field alone. -/
def Counted (t : ι) : Prop :=
  ∀ fd ∈ lib.descriptor t, fd.number ≤ maxFieldNumber (lib.descriptor t)

/-- What the code can deal with: bytes are empty, no repeated field has enumerators, one that is
joined with the delimiter is split into its elements at the characters of the delimiter, and a
value at the end of the format or in an embedded message has no zero byte. -/
structure CoveredPiece (p : Piece) (fd : FieldDescriptor ι) : Prop where
  embedded : ∀ n k t, p.1 = .nested n k → embeddedType lib type n = some t → Counted lib t
  bytes : fd.type = .bytes → ∀ v ∈ p.1.values fd (p.1.slot m), v = .text []
  enums : fd.repeated = true → fd.type.isEnum = false
  splits : fd.repeated = true → p.1.isElement = false →
    (p.1.printed lib delimiter type m).splitOnP (delimiter.contains ·) =
      (p.1.values fd (p.1.slot m)).map (printValue lib fd.type)
  zero : p.2 = [] ∨ p.1.isNested = true → 0 ∉ p.1.printed lib delimiter type m

/-- Besides, the numbers of the types are counted, no text between specifiers looks like one, and
a message is not named together with one of its fields. -/
structure Covered : Prop where
  counted : Counted lib type
  between : Between Inconspicuous (pieces.map Prod.snd)
  each : ∀ p ∈ pieces, ∀ fd, p.1.leaf lib type = some fd → CoveredPiece lib delimiter type m p fd
  whole : ∀ p ∈ pieces, ∀ q ∈ pieces, ∀ n k, p.1 = .field n → q.1 ≠ .nested n k

variable {lib delimiter type m lead pieces}
  {inner : ι → Bytes → Bytes → Message → Except Failure Message}

theorem mem_values_of_conforms (hvalid : ∀ t, ValidType lib t) {t : ι} {sub : Message}
    (hfd : fd ∈ lib.descriptor t)
    (hsub : ∀ v ∈ sub fd.number, Conforms lib fd.type v)
    (hv : v ∈ if fd.repeated then sub fd.number else [(sub fd.number).head?.getD fd.default]) :
    Conforms lib fd.type v := by
  split_ifs at hv
  · exact hsub v hv
  · rw [List.mem_singleton.mp hv]
    cases hslot : sub fd.number with
    | nil => exact (hvalid t).default fd hfd
    | cons w rest => exact hsub w (hslot ▸ List.mem_cons_self)

section

variable (h : Admissible lib delimiter type m lead pieces) (hleaf : s.leaf lib type = some fd)
include h hleaf

theorem conforms_values : ∀ v ∈ s.values fd (s.slot m), Conforms lib fd.type v := by
  intro v hv
  have hvalues := h.conforms.values
  cases s with
  | field n =>
    obtain ⟨hmem, hnumber⟩ := findFieldByNumber_eq_some hleaf
    obtain rfl : fd.number = n := by exact_mod_cast hnumber
    exact mem_values_of_conforms h.valid hmem (hvalues fd hmem) hv
  | element n i =>
    obtain ⟨hfd, -⟩ := Option.filter_eq_some_iff.mp hleaf
    obtain ⟨hmem, hnumber⟩ := findFieldByNumber_eq_some hfd
    obtain rfl : fd.number = n := by exact_mod_cast hnumber
    exact hvalues fd hmem v (List.mem_of_getElem? (Option.mem_toList.mp hv))
  | nested n k =>
    obtain ⟨t, ht, hfd⟩ := Option.bind_eq_some_iff.mp hleaf
    obtain ⟨hmem, hnumber⟩ := findFieldByNumber_eq_some hfd
    obtain rfl : fd.number = k := by exact_mod_cast hnumber
    obtain ⟨fdn, hfdn, rfl, -, htype⟩ := embeddedType_eq_some ht
    refine mem_values_of_conforms h.valid hmem ?_ hv
    intro w hw
    cases hslot : m fdn.number with
    | nil =>
      rw [hslot] at hw
      cases hw
    | cons x rest =>
      have hx := hvalues fdn (findFieldByNumber_eq_some hfdn).1 x (hslot ▸ List.mem_cons_self)
      rw [htype] at hx
      rw [hslot] at hw
      cases hx with
      | message hsub => exact hsub fd hmem w hw

theorem small_of_leaf (hvalues : s.values fd (s.slot m) ≠ []) : s.Small := by
  have hnumber : ∀ {t : ι} {n : ℕ} {fd : FieldDescriptor ι},
      findFieldByNumber (lib.descriptor t) n = some fd → n < 2 ^ 31 := by
    intro t n fd hfd
    obtain ⟨hmem, hn⟩ := findFieldByNumber_eq_some hfd
    have hlt := (h.valid t).lt fd hmem
    omega
  cases s with
  | field n => exact hnumber hleaf
  | element n i =>
    obtain ⟨hfd, -⟩ := Option.filter_eq_some_iff.mp hleaf
    refine ⟨hnumber hfd, ?_⟩
    have hlt : i < (m n).length := by
      by_contra hge
      exact hvalues (by simp [Specifier.values, Specifier.slot, Nat.not_lt.mp hge])
    exact hlt.trans (h.conforms.size n)
  | nested n k =>
    obtain ⟨t, ht, hfd⟩ := Option.bind_eq_some_iff.mp hleaf
    obtain ⟨fdn, hfdn, -⟩ := embeddedType_eq_some ht
    exact ⟨hnumber hfdn, hnumber hfd⟩

end

theorem printed_of_leaf (hleaf : s.leaf lib type = some fd) :
    s.printed lib delimiter type m = printedValues lib delimiter fd (s.values fd (s.slot m)) := by
  rw [Specifier.printed, hleaf]

/-- A delimiter of one character is in no element, so that it separates them. -/
theorem AdmissiblePiece.splits_singleton {d : UInt8} (h : AdmissiblePiece lib [d] type m p fd)
    (hrepeated : fd.repeated = true) :
    (p.1.printed lib [d] type m).splitOnP ([d].contains ·) =
      (p.1.values fd (p.1.slot m)).map (printValue lib fd.type) := by
  have hd : ∀ v ∈ p.1.values fd (p.1.slot m), d ∉ printValue lib fd.type v := by
    intro v hv hmem
    obtain ⟨before, behind, heq⟩ := List.append_of_mem hmem
    exact h.elements hrepeated v hv ⟨before, behind, by simp [heq]⟩
  have hcontains : (fun b => [d].contains b) = fun b => b == d := by
    funext b
    simp [beq_eq_decide]
  rw [printed_of_leaf h.leaf, printedValues, hcontains, ← List.splitOn_eq_splitOnP]
  exact List.splitOn_intercalate d (by simpa using hd) (by simpa using h.ne_nil)

theorem CoveredPiece.readable (hcovered : CoveredPiece lib delimiter type m p fd)
    (h : Admissible lib delimiter type m lead pieces) (hp : AdmissiblePiece lib delimiter type m p fd) :
    Readable lib delimiter p.1 fd (p.1.values fd (p.1.slot m)) := by
  refine ⟨hp.ne_nil, fun v hv => ?_, hcovered.enums, fun hrepeated helement => ?_⟩
  · apply readValue_printValue (conforms_values h hp.leaf v hv) hp.real
    · exact fun hbytes => hcovered.bytes hbytes v hv
    · rintro t sub htype rfl
      exact hp.library t sub htype hv
  · rw [← printed_of_leaf hp.leaf]
    exact hcovered.splits hrepeated helement

theorem printField_none (fd : FieldDescriptor ι) :
    printField lib delimiter m fd none =
      .ok (printedValues lib delimiter fd ((Specifier.field fd.number).values fd (m fd.number))) := by
  cases hrepeated : fd.repeated <;> simp [printField, printedValues, Specifier.values, getSingular, hrepeated]

theorem serializeWith_marked {inner : ι → Message → Bytes → Except Failure Bytes} {k : ℕ}
    (hvalid : ValidType lib type) (hcounted : Counted lib type)
    (hfd : findFieldByNumber (lib.descriptor type) k = some fd) :
    serializeWith lib delimiter inner type m (marked (numeral k)) =
      .ok (printedValues lib delimiter fd ((Specifier.field k).values fd (m k))) := by
  obtain rfl : fd.number = k := by exact_mod_cast (findFieldByNumber_eq_some hfd).2
  have hwrites : ∀ p ∈ [((.field fd.number, []) : Piece)], Writes lib delimiter inner type m
      (printedValues lib delimiter fd ((Specifier.field fd.number).values fd (m fd.number))) p.1 := by
    intro p hp
    obtain rfl := List.mem_singleton.mp hp
    exact ⟨fd, hfd, printField_none fd⟩
  have hliteral : Literal [] [((.field fd.number, []) : Piece)] :=
    ⟨List.not_mem_nil, by simp, by simp [Between]⟩
  have hserialize : serializeWith lib delimiter inner type m (formatText [] [(.field fd.number, [])]) =
      .ok (filled [] (fun _ => printedValues lib delimiter fd
        ((Specifier.field fd.number).values fd (m fd.number))) [(.field fd.number, [])]) :=
    serializeWith_formatText hliteral hvalid.pos hcounted (by simp) hwrites
  have hformat : formatText [] [((.field fd.number, []) : Piece)] = marked (numeral fd.number) := by
    simp [formatText, layout, marked, Specifier.text]
  rw [hformat] at hserialize
  simpa [filled] using hserialize

section

variable (hcovered : Covered lib delimiter type m pieces)
  (h : Admissible lib delimiter type m lead pieces)
include hcovered h

theorem Covered.writes {inner : ι → Message → Bytes → Except Failure Bytes} (hp : p ∈ pieces) :
    Writes lib delimiter (serializeWith lib delimiter inner) type m (p.1.printed lib delimiter type m) p.1 := by
  obtain ⟨fd, hadmissible⟩ := h.each p hp
  have hleaf := hadmissible.leaf
  have hne := hadmissible.ne_nil
  have hpiece := hcovered.each p hp fd hleaf
  have hsmall := small_of_leaf h hleaf hne
  rw [printed_of_leaf hleaf]
  obtain ⟨s, behind⟩ := p
  cases s with
  | field n =>
    obtain rfl : fd.number = n := by exact_mod_cast (findFieldByNumber_eq_some hleaf).2
    exact ⟨fd, hleaf, printField_none fd⟩
  | element n i =>
    obtain ⟨hfd, hrepeated⟩ := Option.filter_eq_some_iff.mp hleaf
    obtain rfl : fd.number = n := by exact_mod_cast (findFieldByNumber_eq_some hfd).2
    refine ⟨hsmall.1, hsmall.2, fd, hfd, ?_⟩
    obtain ⟨v, hv⟩ : ∃ v, (m fd.number)[i]? = some v :=
      Option.ne_none_iff_exists'.mp fun hnone => hne (by simp [Specifier.values, Specifier.slot, hnone])
    have hnot : ¬ (i : ℤ) < 0 := by omega
    simp [printField, hrepeated, elementAt, hnot, hv, printedValues, Specifier.values, Specifier.slot]
  | nested n k =>
    obtain ⟨t, ht, hfd⟩ := Option.bind_eq_some_iff.mp hleaf
    obtain ⟨fdn, hfdn, rfl, hrepeated, htype⟩ := embeddedType_eq_some ht
    obtain ⟨index, hfield⟩ : ∃ index, submessageField lib (Specifier.nested fdn.number k).text
        (ascii "embedded messages") type (numeral fdn.number) = .ok (fdn, t, index) :=
      submessageField_numeral hsmall.1 hfdn hrepeated htype
    refine ⟨t, (getSingular fdn m).fields, ?_, ?_⟩
    · simp [getSubmessage, hfield, bind, Except.bind, hrepeated]
    · have hslot : (getSingular fdn m).fields k = (Specifier.nested fdn.number k).slot m := by
        rw [getSingular, default_of_message htype]
        rfl
      rw [serializeWith_marked (h.valid t) (hpiece.embedded _ _ t rfl ht) hfd, hslot]
      rfl

theorem serialize_formatText :
    serialize lib delimiter type m (formatText lead pieces) =
      .ok (filled lead (Specifier.printed lib delimiter type m) pieces) := by
  have hnodup : (pieces.map Prod.fst).Nodup := by
    refine List.Nodup.of_map Specifier.path ?_
    rw [List.map_map]
    exact h.distinct
  exact serializeWith_formatText ⟨h.lead, h.behind, hcovered.between⟩ (h.valid type).pos hcovered.counted hnodup
    fun p hp => hcovered.writes h hp

end

theorem Apart.symm {s s' : Specifier} (h : Apart s s') : Apart s' s := by
  cases s <;> cases s' <;> first | exact Ne.symm h | exact h.imp Ne.symm Ne.symm

theorem element_ne_nested {n n' i k : ℕ} {fd fd' : FieldDescriptor ι}
    (hleaf : (Specifier.element n i).leaf lib type = some fd)
    (hleaf' : (Specifier.nested n' k).leaf lib type = some fd') : n ≠ n' := by
  rintro rfl
  obtain ⟨hfd, hrepeated⟩ := Option.filter_eq_some_iff.mp hleaf
  obtain ⟨t, ht, -⟩ := Option.bind_eq_some_iff.mp hleaf'
  obtain ⟨fdn, hfdn, -, hsingular, -⟩ := embeddedType_eq_some ht
  obtain rfl : fd = fdn := Option.some.inj (hfd.symm.trans hfdn)
  rw [hrepeated] at hsingular
  cases hsingular

theorem Covered.apart (hcovered : Covered lib delimiter type m pieces)
    (h : Admissible lib delimiter type m lead pieces) :
    pieces.Pairwise fun p q => Apart p.1 q.1 := by
  refine (List.pairwise_map.mp h.distinct).imp_of_mem ?_
  rintro ⟨s, behind⟩ ⟨s', behind'⟩ hp hq hpath
  obtain ⟨fd, ⟨hleaf⟩⟩ := h.each _ hp
  obtain ⟨fd', ⟨hleaf'⟩⟩ := h.each _ hq
  cases s with
  | field n =>
    cases s' with
    | field n' => exact fun heq => hpath (congrArg (fun x => [x]) heq)
    | element n' i => exact fun heq => hpath (congrArg (fun x => [x]) heq)
    | nested n' k =>
      rintro rfl
      exact hcovered.whole _ hp _ hq _ k rfl rfl
  | element n i =>
    cases s' with
    | field n' => exact fun heq => hpath (congrArg (fun x => [x]) heq)
    | element n' i' => exact fun heq => hpath (congrArg (fun x => [x]) heq)
    | nested n' k => exact element_ne_nested hleaf hleaf'
  | nested n k =>
    cases s' with
    | field n' =>
      rintro rfl
      exact hcovered.whole _ hq _ hp _ k rfl rfl
    | element n' i => exact (element_ne_nested hleaf' hleaf).symm
    | nested n' k' =>
      by_cases hn : n = n'
      · exact .inr fun hk => hpath (by rw [hn, hk])
      · exact .inl hn

theorem Covered.readsBack (hcovered : Covered lib delimiter type m pieces)
    (h : Admissible lib delimiter type m lead pieces)
    (hp : p ∈ pieces) :
    ∃ fd, p.1.leaf lib type = some fd ∧
      ReadsBack lib delimiter (parseWith lib delimiter inner) type p.1 fd (p.1.values fd (p.1.slot m)) := by
  obtain ⟨fd, hadmissible⟩ := h.each p hp
  have hleaf := hadmissible.leaf
  have hpiece := hcovered.each p hp fd hleaf
  have hsmall := small_of_leaf h hleaf hadmissible.ne_nil
  have hreadable := hpiece.readable h hadmissible
  refine ⟨fd, hleaf, ?_⟩
  obtain ⟨s, behind⟩ := p
  cases s with
  | field n => exact readsBack_field hleaf hsmall hreadable
  | element n i => exact readsBack_element hleaf hsmall hreadable
  | nested n k =>
    exact readsBack_nested hleaf hsmall hreadable (printed_of_leaf hleaf ▸ hpiece.zero (.inr rfl))

theorem setAll_sets {out : Message}
    (hsets : ∀ p ∈ pieces, ∃ fd, p.1.leaf lib type = some fd ∧
      ReadsBack lib delimiter inner type p.1 fd (p.1.values fd (p.1.slot m)))
    (hapart : pieces.Pairwise fun p q => Apart p.1 q.1) (hout : ∀ p ∈ pieces, p.1.slot out = []) :
    ∃ out', setAll lib delimiter inner type (Specifier.printed lib delimiter type m) pieces out = .ok out' ∧
      (∀ p ∈ pieces, ∀ fd, p.1.leaf lib type = some fd →
        p.1.values fd (p.1.slot out') = p.1.values fd (p.1.slot m)) ∧
      ∀ s, (∀ p ∈ pieces, Apart p.1 s) → s.slot out' = s.slot out := by
  induction pieces generalizing out with
  | nil => exact ⟨out, rfl, nofun, fun _ _ => rfl⟩
  | cons p pieces ih =>
    obtain ⟨hp, hpieces⟩ := List.pairwise_cons.mp hapart
    obtain ⟨fd, hleaf, hreads⟩ := hsets p List.mem_cons_self
    obtain ⟨out₁, hparse, hset⟩ := hreads out (hout p List.mem_cons_self)
    have hout₁ : ∀ q ∈ pieces, q.1.slot out₁ = [] := fun q hq =>
      (hset.apart q.1 (hp q hq)).trans (hout q (List.mem_cons_of_mem p hq))
    obtain ⟨out', hrest, hvalues, hframe⟩ :=
      ih (fun q hq => hsets q (List.mem_cons_of_mem p hq)) hpieces hout₁
    refine ⟨out', ?_, ?_, ?_⟩
    · rw [setAll, printed_of_leaf hleaf, hparse]
      exact hrest
    · intro q hq fd' hleaf'
      rcases List.mem_cons.mp hq with rfl | hq
      · obtain rfl : fd = fd' := Option.some.inj (hleaf.symm.trans hleaf')
        rw [hframe q.1 fun x hx => (hp x hx).symm]
        exact hset.values_eq
      · exact hvalues q hq fd' hleaf'
    · intro s hs
      rw [hframe s fun x hx => hs x (List.mem_cons_of_mem p hx)]
      exact hset.apart s (hs p List.mem_cons_self)

theorem slot_emptyMessage (s : Specifier) : s.slot emptyMessage = [] := by
  cases s <;> rfl

/-- A report with statuses inside. -/
inductive SampleType where
  | report | status

/-- The field with the highest number is declared first or last. -/
def SampleType.fields (first : Bool) : SampleType → List (FieldDescriptor SampleType)
  | .report =>
    let whole : FieldDescriptor SampleType :=
      { number := 5, type := .message .status, defaultValue := .number 0 }
    (if first then [whole] else []) ++
      [{ number := 1, type := .int32, defaultValue := .number 0 },
        { number := 2, repeated := true, type := .string, defaultValue := .text [] },
        { number := 3, repeated := true, type := .uint32, defaultValue := .number 0 },
        { number := 4, type := .message .status, defaultValue := .number 0 }] ++
      if first then [] else [whole]
  | .status => [{ number := 1, type := .bool, defaultValue := .flag false }]

def setStatus : Message := fun n => if n = 1 then [.flag true] else []

/-- The library knows two messages of the inner type, and prints no real numbers. -/
def sampleLibrary (first : Bool) : Library SampleType where
  fullName _ := ascii "Sample"
  descriptor := SampleType.fields first
  serializeAsString _ m :=
    match m 1 with
    | [.flag true] => [0x08, 0x01]
    | _ => []
  parseFromString _ s := if s = [0x08, 0x01] then setStatus else emptyMessage
  printReal _ _ := ascii "nan"
  readReal _ _ := none

def sampleReport : Message
  | 1 => [.number (-17)]
  | 2 => [.text (ascii "ab"), .text (ascii "C")]
  | 3 => [.number 5, .number 6]
  | 4 => [.message setStatus]
  | 5 => [.message setStatus]
  | _ => []

/-- `X=%1%,y=%2%;%3.1%!%4:1%/%5%` -/
def samplePieces : List Piece :=
  [(.field 1, ascii ",y="), (.field 2, ascii ";"), (.element 3 1, ascii "!"), (.nested 4 1, ascii "/"),
    (.field 5, [])]

variable {first : Bool}

theorem emptyMessage_conforms (t : SampleType) :
    Conforms (sampleLibrary first) (.message t) (.message emptyMessage) :=
  .message (fun _ _ _ hv => absurd hv List.not_mem_nil) (fun _ _ _ => Nat.zero_le 1) fun _ =>
    Nat.two_pow_pos 31

theorem setStatus_conforms :
    Conforms (sampleLibrary first) (.message .status) (.message setStatus) := by
  refine .message ?_ ?_ fun n => ?_
  · intro fd hfd v hv
    obtain rfl := List.mem_singleton.mp hfd
    obtain rfl := List.mem_singleton.mp hv
    exact .bool true
  · intro fd hfd _
    obtain rfl := List.mem_singleton.mp hfd
    exact le_refl 1
  · unfold setStatus
    split_ifs <;> simp

theorem forall_mem_report {P : FieldDescriptor SampleType → Prop} (h1 : P ⟨1, false, .int32, .number 0⟩)
    (h2 : P ⟨2, true, .string, .text []⟩) (h3 : P ⟨3, true, .uint32, .number 0⟩)
    (h4 : P ⟨4, false, .message .status, .number 0⟩) (h5 : P ⟨5, false, .message .status, .number 0⟩) :
    ∀ fd ∈ (sampleLibrary first).descriptor .report, P fd := by
  cases first <;> simp [sampleLibrary, SampleType.fields, h1, h2, h3, h4, h5]

theorem sampleLibrary_valid (t : SampleType) : ValidType (sampleLibrary first) t := by
  have hdefault : ∀ fd ∈ (sampleLibrary first).descriptor t,
      Conforms (sampleLibrary first) fd.type fd.default := by
    cases t with
    | report =>
      exact forall_mem_report (.int32 (by decide) (by decide)) (.string []) (.uint32 (by decide) (by decide))
        (emptyMessage_conforms .status) (emptyMessage_conforms .status)
    | status =>
      intro fd hfd
      obtain rfl := List.mem_singleton.mp hfd
      exact .bool false
  cases first <;> cases t <;> exact ⟨by decide, by decide, by decide, hdefault⟩

theorem sampleReport_conforms :
    Conforms (sampleLibrary first) (.message .report) (.message sampleReport) := by
  refine .message ?_ ?_ ?_
  · apply forall_mem_report <;> intro v hv <;>
      simp only [sampleReport, List.mem_cons, List.not_mem_nil, or_false] at hv
    · rw [hv]
      exact .int32 (by decide) (by decide)
    · rcases hv with rfl | rfl <;> exact .string _
    · rcases hv with rfl | rfl <;> exact .uint32 (by decide) (by decide)
    · rw [hv]
      exact setStatus_conforms
    · rw [hv]
      exact setStatus_conforms
  · apply forall_mem_report <;> intro hsingular <;> first | exact le_refl 1 | cases hsingular
  · intro number
    unfold sampleReport
    split <;> decide

example : formatText (ascii "X=") samplePieces = ascii "X=%1%,y=%2%;%3.1%!%4:1%/%5%" := by decide +kernel

theorem forall_mem_samplePieces {P : Piece → Prop} (h1 : P (.field 1, ascii ",y="))
    (h2 : P (.field 2, ascii ";")) (h3 : P (.element 3 1, ascii "!"))
    (h4 : P (.nested 4 1, ascii "/"))
    (h5 : P (.field 5, [])) : ∀ p ∈ samplePieces, P p := by
  simp only [samplePieces, List.forall_mem_cons]
  exact ⟨h1, h2, h3, h4, h5, fun _ hp => absurd hp List.not_mem_nil⟩

theorem sampleReport_admissible (first : Bool) :
    Admissible (sampleLibrary first) (ascii "|") .report sampleReport (ascii "X=") samplePieces where
  valid := sampleLibrary_valid
  conforms := sampleReport_conforms
  lead := by decide
  behind := by decide
  separated := by simp [samplePieces, Between, ascii]
  each := by
    have hstops : ∀ p ∈ samplePieces, ∀ c ∈ p.1.printed (sampleLibrary first) (ascii "|") .report sampleReport,
        p.2.head?.all fun b => toLower c ≠ toLower b := by
      cases first <;> decide +kernel
    have helements : ∀ p ∈ samplePieces, ∀ fd ∈ p.1.leaf (sampleLibrary first) .report, fd.repeated = true →
        ∀ v ∈ p.1.values fd (p.1.slot sampleReport), ¬ ascii "|" <:+: printValue (sampleLibrary first) fd.type v := by
      cases first <;> decide +kernel
    have hpiece : ∀ p ∈ samplePieces, ∀ fd, p.1.leaf (sampleLibrary first) .report = some fd →
        fd.type ≠ .float ∧ fd.type ≠ .double → p.1.values fd (p.1.slot sampleReport) ≠ [] →
        (∀ t sub, fd.type = .message t → .message sub ∈ p.1.values fd (p.1.slot sampleReport) →
          sub = setStatus) → ∃ fd, AdmissiblePiece (sampleLibrary first) (ascii "|") .report sampleReport p fd := by
      intro p hp fd hleaf hreal hne hsub
      refine ⟨fd, hleaf, hreal, hne, fun b hb c hc => ?_, helements p hp fd hleaf, ?_⟩
      · simpa [hb] using hstops p hp c hc
      · intro t sub htype hmem
        rw [hsub t sub htype hmem]
        rfl
    cases first <;> apply forall_mem_samplePieces
    all_goals
      refine hpiece _ (by decide) _ rfl (by simp) (List.cons_ne_nil _ _) ?_
      rintro t sub ⟨⟩ hmem
    all_goals exact Value.message.inj (List.mem_singleton.mp hmem)
  distinct := by decide

theorem samplePieces_covered :
    Covered (sampleLibrary false) (ascii "|") .report sampleReport samplePieces where
  counted := by
    unfold Counted
    decide
  between := by
    simp only [samplePieces, List.map_cons, List.map_nil, Between, Inconspicuous]
    decide +kernel
  each := by
    intro p hp fd hleaf
    obtain ⟨fd', hadmissible⟩ := (sampleReport_admissible false).each p hp
    obtain rfl : fd' = fd := Option.some.inj (hadmissible.leaf.symm.trans hleaf)
    have hzero : ∀ p ∈ samplePieces, p.2 = [] ∨ p.1.isNested = true →
        0 ∉ p.1.printed (sampleLibrary false) (ascii "|") .report sampleReport := by decide +kernel
    refine ⟨?_, ?_, ?_, fun hrepeated _ => hadmissible.splits_singleton hrepeated, hzero p hp⟩
    all_goals
      clear hadmissible
      revert fd' p
      apply forall_mem_samplePieces
    all_goals
      rintro fd ⟨⟩
      first
        | exact fun _ => rfl
        | rintro _ _ _ ⟨⟩ ⟨⟩ <;> (unfold Counted; decide)
        | rintro ⟨⟩
  whole := by
    have hfields : ∀ p ∈ samplePieces, ∀ q ∈ samplePieces, q.1.isNested = true →
        p.1 ≠ .field q.1.number := by decide
    intro p hp q hq n k hpn hqn
    exact hfields p hp q hq (by rw [hqn]; rfl) (by rw [hqn]; exact hpn)

end Goby.Moos.Format
