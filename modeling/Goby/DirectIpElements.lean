import Goby.DirectIpSegments
import Mathlib.Data.List.GetD

/-! The handler of the information elements moves its position by what the fields of an element
take where it knows them, and by the length that the element declares where it does not; for
a confirmation it does both. An element is followed by the next one where it moves by as
many bytes as the element has. -/

namespace Goby.SbdReader

variable {α β : Type} {data : Bytes} {e : InformationElement} {es : List InformationElement}
  {m : SbdM α} {s s' : SbdReader} {fuel n k pos : ℕ} {f : (ℕ → UInt8) → α} {visits : List ℕ}

/-- Reads so many bytes and returns what they mean, where the buffer has them. -/
def Reads (n : ℕ) (f : (ℕ → UInt8) → α) (m : SbdM α) : Prop :=
  ∀ data s, s.pos + n ≤ sbdBufferSize →
    m data s = .ok (f fun i => data.getD (s.pos + i) 0) { s with pos := s.pos + n }

theorem Reads.pure (f : (ℕ → UInt8) → α) (a : α)
    (hf : ∀ b, f b = a) : Reads 0 f (pure a : SbdM α) := by
  intro data s _
  rw [hf]
  rfl

theorem Reads.bind {g : α → (ℕ → UInt8) → β} {h : α → SbdM β}
    (hm : Reads n f m) (hh : ∀ a, Reads k (g a) (h a)) :
    Reads (n + k) (fun b => g (f b) fun i => b (n + i)) (m >>= h) := by
  intro data s hle
  rw [run_bind_apply, hm data s (by omega)]
  dsimp only
  rw [hh _ data _ (show s.pos + n + k ≤ sbdBufferSize by omega)]
  simp only [Nat.add_assoc]

theorem Reads.map (hm : Reads n f m) (g : α → β) :
    Reads n (fun b => g (f b)) (m >>= fun a => Pure.pure (g a)) :=
  hm.bind fun a => .pure (fun _ => g a) (g a) fun _ => rfl

def uint32Of (b : ℕ → UInt8) : ℕ := uint16Of b * 2 ^ 16 + uint16Of fun i => b (2 + i)

theorem nextByte_reads : Reads 1 (fun b => b 0) nextByte := fun _ _ hle => nextByte_eq (by omega)

theorem readByte_reads : Reads 1 (fun b => charOf (b 0)) readByte := nextByte_reads.map _

theorem readUint16_reads : Reads 2 uint16Of readUint16 :=
  nextByte_reads.bind fun a => nextByte_reads.map fun b => a.toNat * 256 + b.toNat

theorem readUint32_reads : Reads 4 uint32Of readUint32 :=
  readUint16_reads.bind fun a => readUint16_reads.map fun b => a * 2 ^ 16 + b

theorem readString_reads (n : ℕ) : Reads n (fun b => (List.range n).map b) (readString n) := by
  intro data s hle
  rw [readString, if_pos hle]

structure HoldsAt (data : Bytes) (pos : ℕ) (bs : Bytes) : Prop where
  fits : pos + bs.length ≤ sbdBufferSize
  getD_eq : ∀ i < bs.length, data.getD (pos + i) 0 = bs.getD i 0

theorem HoldsAt.left {bs cs : Bytes} (h : HoldsAt data pos (bs ++ cs)) : HoldsAt data pos bs where
  fits := by
    have := h.fits
    rw [List.length_append] at this
    omega
  getD_eq i hi := by
    rw [h.getD_eq i (by rw [List.length_append]; omega), List.getD_append _ _ _ _ hi]

theorem HoldsAt.right {bs cs : Bytes} (h : HoldsAt data pos (bs ++ cs)) :
    HoldsAt data (pos + bs.length) cs where
  fits := by
    have := h.fits
    rw [List.length_append] at this
    omega
  getD_eq i hi := by
    rw [Nat.add_assoc, h.getD_eq _ (by rw [List.length_append]; omega), List.getD_append_right _ _ _ _ (by omega),
      Nat.add_sub_cancel_left]

theorem uint16Of_uint16Bytes (h : n < 65536) : uint16Of (fun i => (uint16Bytes n).getD i 0) = n := by
  show (UInt8.ofNat (n / 256)).toNat * 256 + (UInt8.ofNat n).toNat = n
  rw [UInt8.toNat_ofNat', UInt8.toNat_ofNat']
  omega

theorem length_bytes (e : InformationElement) : e.bytes.length = 3 + e.content.length := by
  simp [InformationElement.bytes, uint16Bytes]
  omega

/-- The identifier and the length of an element in the buffer are read from it. -/
theorem HoldsAt.element (h : HoldsAt data s.pos e.bytes) :
    s.pos + 3 ≤ sbdBufferSize ∧ ieiAt data s.pos = charOf e.iei ∧
      lengthAt data s.pos = e.content.length := by
  have hfits := h.fits
  rw [length_bytes] at hfits
  have hfront : HoldsAt data s.pos (e.iei :: uint16Bytes e.content.length) := h.left
  have hiei : data.getD s.pos 0 = e.iei := hfront.getD_eq 0 (by simp)
  have hhigh : data.getD (s.pos + 1) 0 = UInt8.ofNat (e.content.length / 256) :=
    hfront.getD_eq 1 (by simp [uint16Bytes])
  have hlow : data.getD (s.pos + 1 + 1) 0 = UInt8.ofNat e.content.length :=
    hfront.getD_eq 2 (by simp [uint16Bytes])
  have hword : e.content.length < 65536 := by
    rw [sbdBufferSize] at hfits
    omega
  refine ⟨by omega, congrArg charOf hiei, ?_⟩
  rw [lengthAt, uint16Of, Nat.add_zero, hhigh, hlow]
  exact uint16Of_uint16Bytes hword

def Regular (e : InformationElement) : Prop := e.iei ≠ 0x44 ∧ (e.iei = 0x01 → e.content.length = 28)

instance (e : InformationElement) : Decidable (Regular e) :=
  inferInstanceAs (Decidable (e.iei ≠ 0x44 ∧ (e.iei = 0x01 → e.content.length = 28)))

theorem bmod_eq_iff (hn : n < 256) (hk : k < 128) : (n : ℤ).bmod 256 = k ↔ n = k := by
  rw [Int.bmod_def]
  split
  · omega
  · omega

theorem charOf_eq_iff {a : UInt8} {k : ℕ} (hk : k < 128) : charOf a = k ↔ a = UInt8.ofNat k := by
  have hof : (UInt8.ofNat k).toNat = k := by
    rw [UInt8.toNat_ofNat']
    exact Nat.mod_eq_of_lt (Nat.lt_trans hk (by decide))
  rw [← UInt8.toNat_inj, hof]
  exact bmod_eq_iff a.toNat_lt hk

theorem regular_iff (e : InformationElement) :
    Regular e ↔ contentAdvance (charOf e.iei) e.content.length = e.content.length := by
  have h1 : charOf e.iei = 0x01 ↔ e.iei = 0x01 := charOf_eq_iff (by decide)
  have h2 : charOf e.iei = 0x02 ↔ e.iei = 0x02 := charOf_eq_iff (by decide)
  have h44 : charOf e.iei = 0x44 ↔ e.iei = 0x44 := charOf_eq_iff (by decide)
  rw [Regular, contentAdvance]
  simp only [h1, h2, h44]
  split
  · next hiei => simp [hiei, eq_comm]
  · next hiei =>
    split
    · next hbody => simp [hbody]
    · split
      · next hconfirm => simp [hconfirm]
      · next hconfirm => simp [hiei, hconfirm]

def headerOf (length : ℕ) (b : ℕ → UInt8) : DirectIpMoHeader where
  iei := 0x01
  length := length
  cdrReference := uint32Of b
  imei := (List.range 15).map fun i => b (4 + i)
  sessionStatus := toUnsigned (charOf (b 19))
  momsn := uint16Of fun i => b (20 + i)
  mtmsn := uint16Of fun i => b (22 + i)
  timeOfSession := uint32Of fun i => b (24 + i)

def confirmationOf (length : ℕ) (b : ℕ → UInt8) : DirectIpMtConfirmation where
  iei := 0x44
  length := length
  clientId := uint32Of b
  imei := (List.range 15).map fun i => b (4 + i)
  autoRefId := uint32Of fun i => b (19 + i)
  status := (uint16Of fun i => b (23 + i) : ℤ).bmod (2 ^ 16)

def setRecord (e : InformationElement) (s : SbdReader) : SbdReader :=
  if e.iei = 0x01 then
    { s with header := some (headerOf e.content.length fun i => e.content.getD i 0) }
  else if e.iei = 0x02 then
    { s with body := some ⟨0x02, e.content.length, e.content⟩ }
  else if e.iei = 0x44 then
    { s with confirm := some (confirmationOf e.content.length fun i => e.content.getD i 0) }
  else s

def visit (s : SbdReader) (e : InformationElement) : SbdReader :=
  setRecord e { s with pos := s.pos + e.bytes.length }

theorem readHeader_eq (length : ℕ) (h : s.pos + 28 ≤ sbdBufferSize) :
    readHeader 0x01 length data s = .ok ()
      { s with
        pos := s.pos + 28
        header := some (headerOf length fun i => data.getD (s.pos + i) 0) } := by
  rw [readHeader, run_bind_apply, readUint32_reads data s (by omega)]
  dsimp only
  rw [run_bind_apply, readImei, readString_reads 15 data _ (by dsimp only; omega)]
  dsimp only
  rw [run_bind_apply, readByte_reads data _ (by dsimp only; omega)]
  dsimp only
  rw [run_bind_apply, readUint16_reads data _ (by dsimp only; omega)]
  dsimp only
  rw [run_bind_apply, readUint16_reads data _ (by dsimp only; omega)]
  dsimp only
  rw [run_bind_apply, readUint32_reads data _ (by dsimp only; omega)]
  simp only [Nat.add_assoc]
  rfl

theorem readPayload_eq {length : ℕ} (h : s.pos + length ≤ sbdBufferSize) :
    readPayload 0x02 length data s = .ok ()
      { s with
        pos := s.pos + length
        body := some ⟨0x02, length, (List.range length).map fun i => data.getD (s.pos + i) 0⟩ } := by
  rw [readPayload, run_bind_apply, readString_reads length data s h]
  rfl

theorem headerOf_congr (length : ℕ) {b c : ℕ → UInt8} (h : ∀ i < 28, b i = c i) :
    headerOf length b = headerOf length c := by
  have himei : (List.range 15).map (fun i => b (4 + i)) = (List.range 15).map fun i => c (4 + i) := by
    apply List.map_congr_left
    intro i hi
    have := List.mem_range.mp hi
    exact h _ (by omega)
  simp only [headerOf, uint32Of, uint16Of, himei, Nat.add_zero, Nat.reduceAdd]
  rw [h 0 (by decide), h 1 (by decide), h 2 (by decide), h 3 (by decide), h 19 (by decide), h 20 (by decide),
    h 21 (by decide), h 22 (by decide), h 23 (by decide), h 24 (by decide), h 25 (by decide), h 26 (by decide),
    h 27 (by decide)]

theorem HoldsAt.map_range {bs : Bytes} (h : HoldsAt data pos bs) :
    (List.range bs.length).map (fun i => data.getD (pos + i) 0) = bs := by
  apply List.ext_getElem (by simp)
  intro i hi hi'
  rw [List.getElem_map, List.getElem_range, h.getD_eq i hi', List.getD_eq_getElem bs 0 hi']

/-- The content of a regular element: its record is set, and the position is behind it. -/
theorem readContent_eq (hreg : Regular e) (h : HoldsAt data s.pos e.content) :
    readContent (charOf e.iei) e.content.length data s =
      .ok () (setRecord e { s with pos := s.pos + e.content.length }) := by
  have h1 : charOf e.iei = 0x01 ↔ e.iei = 0x01 := charOf_eq_iff (by decide)
  have h2 : charOf e.iei = 0x02 ↔ e.iei = 0x02 := charOf_eq_iff (by decide)
  have h44 : charOf e.iei = 0x44 ↔ e.iei = 0x44 := charOf_eq_iff (by decide)
  unfold readContent setRecord
  by_cases hheader : e.iei = 0x01
  · have hlen := hreg.2 hheader
    have hfits := h.fits
    have hbytes := headerOf_congr e.content.length (hlen ▸ h.getD_eq)
    rw [hlen] at hfits hbytes
    rw [if_pos (h1.mpr hheader), if_pos hheader, h1.mpr hheader, hlen, readHeader_eq 28 hfits, hbytes]
  · by_cases hbody : e.iei = 0x02
    · rw [if_neg (mt h1.mp hheader), if_neg hheader, if_pos (h2.mpr hbody), if_pos hbody, h2.mpr hbody,
        readPayload_eq h.fits, h.map_range]
    · rw [if_neg (mt h1.mp hheader), if_neg hheader, if_neg (mt h2.mp hbody), if_neg hbody,
        if_neg (mt h44.mp hreg.1), if_neg hreg.1]
      rfl

theorem readElement_visit (hreg : Regular e)
    (h : HoldsAt data s.pos e.bytes) : readElement data s = .ok () (visit s e) := by
  have hcontent : HoldsAt data (s.pos + (e.iei :: uint16Bytes e.content.length).length) e.content := h.right
  obtain ⟨hfits, hiei, hlength⟩ := h.element
  rw [readElement_eq hfits, hiei, hlength, readContent_eq hreg hcontent, visit, length_bytes,
    ← Nat.add_assoc]

/-- The handler, with the positions at which it starts to read an element. -/
def ieVisits : ℕ → SbdM (List ℕ)
  | 0 => throw .fuel
  | fuel + 1 => do
      let start ← get
      readElement
      let s ← get
      if s.pos < s.overallLength + preHeaderSize then do
        let visits ← ieVisits fuel
        pure (start.pos :: visits)
      else pure [start.pos]

theorem run_ieVisits_succ (fuel : ℕ) (data : Bytes) (s : SbdReader) :
    ieVisits (fuel + 1) data s = match readElement data s with
      | .ok _ t =>
        if t.pos < t.overallLength + preHeaderSize then
          match ieVisits fuel data t with
          | .ok visits t' => .ok (s.pos :: visits) t'
          | .error e t' => .error e t'
        else .ok [s.pos] t
      | .error e t => .error e t := by
  rw [ieVisits, run_bind_apply]
  show (readElement >>= fun _ => _ : SbdM (List ℕ)) data s = _
  rw [run_bind_apply]
  cases readElement data s with
  | error e t => rfl
  | ok a t =>
    show (if _ then _ else _ : SbdM (List ℕ)) data t = _
    by_cases h : t.pos < t.overallLength + preHeaderSize
    · simp only [if_pos h]
      rw [run_bind_apply]
      cases ieVisits fuel data t with
      | error e t' => rfl
      | ok visits t' => rfl
    · simp only [if_neg h]
      rfl

/-- A run that visits elements reads one, and is at its end or goes on behind it. -/
theorem ieVisits_ok (h : ieVisits fuel data s = .ok visits s') : ∃ fuel' t rest, fuel = fuel' + 1 ∧
      readElement data s = .ok () t ∧ visits = s.pos :: rest ∧
      (t.pos < t.overallLength + preHeaderSize ∧ ieVisits fuel' data t = .ok rest s' ∨
        ¬ t.pos < t.overallLength + preHeaderSize ∧ rest = [] ∧ t = s') := by
  cases fuel with
  | zero => cases h
  | succ fuel =>
    rw [run_ieVisits_succ] at h
    split at h
    next _ t hread =>
      split at h
      next hmore =>
        split at h
        next rest t' hrest =>
          cases h
          exact ⟨fuel, t, rest, rfl, hread, rfl, .inl ⟨hmore, hrest⟩⟩
        next => cases h
      next hmore =>
        cases h
        exact ⟨fuel, _, [], rfl, hread, rfl, .inr ⟨hmore, rfl, rfl⟩⟩
    next => cases h

theorem ieHandler_of_ieVisits
    (h : ieVisits fuel data s = .ok visits s') : ieHandler fuel data s = .ok () s' := by
  induction fuel generalizing s visits with
  | zero => cases h
  | succ fuel ih =>
    obtain ⟨fuel', t, rest, hfuel, hread, -, hrest⟩ := ieVisits_ok h
    obtain rfl := Nat.succ.inj hfuel
    rw [run_ieHandler_succ, hread]
    rcases hrest with ⟨hmore, hrest⟩ | ⟨hmore, -, rfl⟩
    · exact (if_pos hmore).trans (ih hrest)
    · exact if_neg hmore

def offsets : ℕ → List InformationElement → List ℕ
  | _, [] => []
  | pos, e :: es => pos :: offsets (pos + e.bytes.length) es

def contentBytes (es : List InformationElement) : Bytes := (es.map InformationElement.bytes).flatten

@[simp] theorem contentBytes_cons (e : InformationElement) (es : List InformationElement) :
    contentBytes (e :: es) = e.bytes ++ contentBytes es := rfl

theorem setRecord_pos (e : InformationElement) (s : SbdReader) :
    (setRecord e s).pos = s.pos ∧ (setRecord e s).overallLength = s.overallLength := by
  unfold setRecord
  split_ifs <;> exact ⟨rfl, rfl⟩

@[simp] theorem pos_visit (s : SbdReader)
    (e : InformationElement) : (visit s e).pos = s.pos + e.bytes.length :=
  (setRecord_pos e _).1

@[simp] theorem overallLength_visit (s : SbdReader) (e : InformationElement) :
    (visit s e).overallLength = s.overallLength :=
  (setRecord_pos e _).2

/-- The elements that the handler is to read stand at its position, to the end of the message. -/
structure Pending (data : Bytes) (s : SbdReader) (es : List InformationElement) : Prop where
  holds : HoldsAt data s.pos (contentBytes es)
  ends : s.overallLength + preHeaderSize = s.pos + (contentBytes es).length

theorem Pending.tail {s t : SbdReader}
    (h : Pending data s (e :: es)) (hpos : t.pos = s.pos + e.bytes.length)
    (hlen : t.overallLength = s.overallLength) : Pending data t es := by
  constructor
  · rw [hpos]
    exact h.holds.right
  · have hends := h.ends
    rw [contentBytes_cons, List.length_append] at hends
    omega

/-- Regular elements are read one after the other to the end. -/
theorem Pending.ieVisits
    (h : Pending data s es) (hne : es ≠ []) (hreg : ∀ e ∈ es, Regular e) (hfuel : es.length ≤ fuel) :
    SbdReader.ieVisits fuel data s = .ok (offsets s.pos es) (es.foldl visit s) := by
  induction es generalizing s fuel with
  | nil => exact absurd rfl hne
  | cons e es ih =>
    obtain ⟨fuel, rfl⟩ : ∃ k, fuel = k + 1 := Nat.exists_eq_succ_of_ne_zero (by simp at hfuel; omega)
    have hnext := h.tail (pos_visit s e) (overallLength_visit s e)
    rw [run_ieVisits_succ, readElement_visit (hreg e (List.mem_cons_self ..)) h.holds.left]
    dsimp only
    cases es with
    | nil =>
      rw [if_neg (by rw [hnext.ends]; simp [contentBytes])]
      rfl
    | cons e' es =>
      rw [if_pos (by rw [hnext.ends, contentBytes_cons, List.length_append, length_bytes]; omega),
        ih hnext (List.cons_ne_nil _ _) (fun f hf => hreg f (List.mem_cons_of_mem e hf))
          (by simpa using hfuel)]
      rw [pos_visit]
      rfl

theorem regular_iff_pos {s t : SbdReader}
    (h : HoldsAt data s.pos e.bytes) {a : Unit} (hread : readElement data s = .ok a t) :
    (Regular e ↔ t.pos = s.pos + e.bytes.length) ∧ t.overallLength = s.overallLength := by
  obtain ⟨hpos, hlen⟩ := readElement_advances hread
  obtain ⟨-, hiei, hlength⟩ := h.element
  refine ⟨?_, hlen⟩
  rw [regular_iff, hpos, elementAdvance, hiei, hlength, length_bytes]
  omega

/-- Elements that are each visited at their offset, up to the end, are regular. -/
theorem Pending.regular
    (h : Pending data s es) (hrun : SbdReader.ieVisits fuel data s = .ok (offsets s.pos es) s')
    (hend : s'.pos = s.pos + (contentBytes es).length) : es ≠ [] ∧ ∀ e ∈ es, Regular e := by
  induction es generalizing s fuel with
  | nil =>
    obtain ⟨_, _, _, -, -, hvisits, -⟩ := ieVisits_ok hrun
    cases hvisits
  | cons e es ih =>
    refine ⟨List.cons_ne_nil _ _, ?_⟩
    obtain ⟨fuel', t, rest, -, hread, hvisits, hrest⟩ := ieVisits_ok hrun
    obtain ⟨hregular, hlen⟩ := regular_iff_pos h.holds.left hread
    obtain ⟨-, rfl⟩ := List.cons.inj hvisits
    rcases hrest with ⟨-, hrest⟩ | ⟨-, hoffsets, rfl⟩
    · -- another element is read, and it has to be the next one
      obtain ⟨_, _, _, -, -, hnext, -⟩ := ieVisits_ok hrest
      have hpos : t.pos = s.pos + e.bytes.length := by
        cases es with
        | nil => cases hnext
        | cons e' es => exact (List.cons.inj hnext).1.symm
      have hrec := ih (h.tail hpos hlen) (by rw [hrest, hpos]) (by
        rw [hend, hpos, contentBytes_cons e, List.length_append]
        omega)
      exact List.forall_mem_cons.mpr ⟨hregular.mpr hpos, hrec.2⟩
    · cases es with
      | nil =>
        have hpos : t.pos = s.pos + e.bytes.length := by simpa [contentBytes] using hend
        exact List.forall_mem_cons.mpr ⟨hregular.mpr hpos, nofun⟩
      | cons e' es => cases hoffsets

theorem pos_foldl_visit (s : SbdReader) (es : List InformationElement) :
    (es.foldl visit s).pos = s.pos + (contentBytes es).length := by
  induction es generalizing s with
  | nil => rfl
  | cons e es ih =>
    rw [List.foldl_cons, ih, pos_visit, contentBytes_cons, List.length_append, Nat.add_assoc]

theorem length_le_contentBytes (es : List InformationElement) : es.length ≤ (contentBytes es).length := by
  induction es with
  | nil => exact Nat.zero_le _
  | cons e es ih =>
    rw [contentBytes_cons, List.length_append, length_bytes, List.length_cons]
    omega

theorem pending_afterPreHeader (m : DirectIpMessage) :
    Pending m.bytes (afterPreHeader m.bytes) m.elements where
  holds := by
    have hself : HoldsAt m.bytes 0 m.bytes := by
      refine ⟨?_, fun i _ => by rw [Nat.zero_add]⟩
      rw [Nat.zero_add, m.length_bytes]
      exact m.fits
    exact HoldsAt.right (show HoldsAt m.bytes 0 ((m.protocolVer :: uint16Bytes m.content.length) ++ m.content)
      from hself)
  ends := by
    rw [overallLength_afterPreHeader]
    exact Nat.add_comm _ _

/-- Of a message in the buffer each element is visited once and at its own offset, and its
record set from its bytes, up to the end of the message, exactly if there is an element, all
headers have the length of a header, and none of the elements is a confirmation. -/
theorem elements_visited_iff (m : DirectIpMessage) :
    (∃ s, ieVisits (m.bytes.length + 1) m.bytes (afterPreHeader m.bytes) =
          .ok (offsets preHeaderSize m.elements) s ∧
        ieHandler (m.bytes.length + 1) m.bytes (afterPreHeader m.bytes) = .ok () s ∧
        s = m.elements.foldl visit (afterPreHeader m.bytes) ∧
        s.pos = (afterPreHeader m.bytes).overallLength + preHeaderSize) ↔
      m.elements ≠ [] ∧ ∀ e ∈ m.elements, e.iei ≠ 0x44 ∧ (e.iei = 0x01 → e.content.length = 28) := by
  have hpending := pending_afterPreHeader m
  constructor
  · rintro ⟨s, hvisits, -, -, hend⟩
    exact hpending.regular hvisits (hend.trans hpending.ends)
  · rintro ⟨hne, hreg⟩
    have hfuel : m.elements.length ≤ m.bytes.length + 1 := by
      have hcontent : m.elements.length ≤ m.content.length := length_le_contentBytes m.elements
      have hbytes := m.length_bytes
      omega
    have hvisits := hpending.ieVisits hne hreg hfuel
    refine ⟨_, hvisits, ieHandler_of_ieVisits hvisits, rfl, ?_⟩
    rw [pos_foldl_visit, hpending.ends]

/-- A confirmation of 25 bytes and then a payload. -/
def confirmedMessage : DirectIpMessage where
  protocolVer := 1
  elements := [⟨0x44, List.replicate 25 0⟩, ⟨0x02, [0xAA, 0xBB]⟩]
  fits := by decide

/-- The length of the confirmation is skipped after its fields have been read: the handler
stops behind the message, and the payload has not been read. -/
theorem payload_after_confirmation :
    (∀ e ∈ confirmedMessage.elements, e.iei = 0x44 → e.content.length = 25) ∧
      offsets preHeaderSize confirmedMessage.elements = [3, 31] ∧
      (match ieVisits (confirmedMessage.bytes.length + 1) confirmedMessage.bytes
          (afterPreHeader confirmedMessage.bytes) with
        | .ok visits s => some (visits, s.pos, s.body)
        | .error _ _ => none) = some ([3], 56, none) ∧
      (afterPreHeader confirmedMessage.bytes).overallLength + preHeaderSize = 36 := by
  refine ⟨by decide, by decide, by decide +kernel, by decide⟩

end Goby.SbdReader
