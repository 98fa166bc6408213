import Goby.DirectIpReader

/-! What the reader makes of a message depends on the bytes from which it takes the identifier,
the length and the fields of the elements. If the message came in one read, the second read
gets nothing and the buffer is the message. Otherwise the second read overwrites the start of
the buffer, what it got is missing behind the first, and the elements are read from the wrong
place unless the bytes there happen to be the same. -/

namespace Goby.SbdReader

variable {α β : Type} {m : SbdM α} {data data' : Bytes} {s : SbdReader} {n k first : ℕ}
  {msg : Bytes}

def AgreeOn (pos n : ℕ) (data data' : Bytes) : Prop :=
  ∀ i < n, data.getD (pos + i) 0 = data'.getD (pos + i) 0

theorem AgreeOn.left {pos : ℕ} (h : AgreeOn pos (n + k) data data') : AgreeOn pos n data data' :=
  fun i hi => h i (by omega)

theorem AgreeOn.right {pos : ℕ} (h : AgreeOn pos (n + k) data data') :
    AgreeOn (pos + n) k data data' := by
  intro i hi
  rw [Nat.add_assoc]
  exact h (n + i) (by omega)

/-- The reader looks at no more than the next `n` bytes, and moves by `k` if it succeeds. -/
def Forward (n k : ℕ) (m : SbdM α) : Prop :=
  ∀ data s, (∀ data', AgreeOn s.pos n data data' → m data s = m data' s) ∧
    (∀ a s', m data s = .ok a s' → s'.pos = s.pos + k ∧ s'.overallLength = s.overallLength) ∧
    ∀ s', m data s ≠ .error .fuel s'

theorem run_bind_apply (m : SbdM α) (f : α → SbdM β) (data : Bytes) (s : SbdReader) :
    (m >>= f) data s = match m data s with
      | .ok a s' => f a data s'
      | .error e s' => .error e s' := by
  rw [show (m >>= f) data = (m data >>= fun a => f a data) from rfl, run_bind]
  cases m data s <;> rfl

theorem Forward.of_modify {f : SbdReader → SbdReader}
    (h : ∀ s, (f s).pos = s.pos + k ∧ (f s).overallLength = s.overallLength) :
    Forward 0 k (modify f : SbdM PUnit) := by
  intro data s
  refine ⟨fun _ _ => rfl, fun a s' hrun => ?_, fun s' hrun => ?_⟩
  · cases hrun
    exact h s
  · cases hrun

theorem Forward.pure (a : α) : Forward 0 0 (pure a : SbdM α) := by
  intro data s
  refine ⟨fun _ _ => rfl, fun a' s' hrun => ?_, fun s' hrun => ?_⟩
  · cases hrun
    exact ⟨rfl, rfl⟩
  · cases hrun

theorem Forward.bind {n' : ℕ} {f : α → SbdM β} (h : Forward n n m)
    (hf : ∀ a, Forward n' k (f a)) : Forward (n + n') (n + k) (m >>= f) := by
  intro data s
  obtain ⟨hlocal, hforward, hfuel⟩ := h data s
  rw [run_bind_apply]
  refine ⟨fun data' hagree => ?_, fun b s'' hrun => ?_, fun s'' hrun => ?_⟩
  · rw [run_bind_apply, ← hlocal data' hagree.left]
    cases hm : m data s with
    | error e s' => rfl
    | ok a s' =>
      refine (hf a data s').1 data' ?_
      rw [(hforward a s' hm).1]
      exact hagree.right
  · cases hm : m data s with
    | error e s' =>
      rw [hm] at hrun
      cases hrun
    | ok a s' =>
      rw [hm] at hrun
      obtain ⟨hpos, hlen⟩ := hforward a s' hm
      obtain ⟨hpos', hlen'⟩ := (hf a data s').2.1 b s'' hrun
      exact ⟨by omega, hlen'.trans hlen⟩
  · cases hm : m data s with
    | error e s' =>
      rw [hm] at hrun
      cases hrun
      exact hfuel s'' hm
    | ok a s' =>
      rw [hm] at hrun
      exact (hf a data s').2.2 s'' hrun

theorem Forward.map (h : Forward n n m) (f : α → β) :
    Forward n n (m >>= fun a => Pure.pure (f a)) := h.bind fun a => .pure (f a)

theorem nextByte_forward : Forward 1 1 nextByte := by
  intro data s
  unfold nextByte
  split
  · refine ⟨fun data' hagree => ?_, fun a s' hrun => ?_, fun s' hrun => ?_⟩
    · have hbyte : data.getD s.pos 0 = data'.getD s.pos 0 := hagree 0 Nat.one_pos
      rw [hbyte]
    · cases hrun
      exact ⟨rfl, rfl⟩
    · cases hrun
  · refine ⟨fun _ _ => rfl, fun a s' hrun => ?_, fun s' hrun => ?_⟩
    · cases hrun
    · cases hrun

theorem readString_forward (n : ℕ) : Forward n n (readString n) := by
  intro data s
  unfold readString
  split
  · refine ⟨fun data' hagree => ?_, fun a s' hrun => ?_, fun s' hrun => ?_⟩
    · have hbytes : ∀ i ∈ List.range n, data.getD (s.pos + i) 0 = data'.getD (s.pos + i) 0 :=
        fun i hi => hagree i (List.mem_range.mp hi)
      rw [List.map_congr_left hbytes]
    · cases hrun
      exact ⟨rfl, rfl⟩
    · cases hrun
  · refine ⟨fun _ _ => rfl, fun a s' hrun => ?_, fun s' hrun => ?_⟩
    · cases hrun
    · cases hrun

theorem readByte_forward : Forward 1 1 readByte := nextByte_forward.map _

theorem readUint16_forward : Forward 2 2 readUint16 :=
  nextByte_forward.bind fun _ => nextByte_forward.map _

theorem readInt16_forward : Forward 2 2 readInt16 := readUint16_forward.map _

theorem readUint32_forward : Forward 4 4 readUint32 :=
  readUint16_forward.bind fun _ => readUint16_forward.map _

theorem skip_forward (n : ℕ) : Forward 0 n (skip n) := .of_modify fun _ => ⟨rfl, rfl⟩

section

variable (iei : ℤ) (length : ℕ)

theorem readHeader_forward : Forward 28 28 (readHeader iei length) := by
  have h : Forward (4 + (15 + (1 + (2 + (2 + (4 + 0)))))) (4 + (15 + (1 + (2 + (2 + (4 + 0))))))
      (readHeader iei length) :=
    readUint32_forward.bind fun _ => (readString_forward 15).bind fun _ => readByte_forward.bind fun _ =>
      readUint16_forward.bind fun _ => readUint16_forward.bind fun _ => readUint32_forward.bind fun _ =>
        .of_modify fun _ => ⟨rfl, rfl⟩
  exact h

theorem readPayload_forward : Forward length length (readPayload iei length) := by
  have h : Forward (length + 0) (length + 0) (readPayload iei length) :=
    (readString_forward length).bind fun _ => .of_modify fun _ => ⟨rfl, rfl⟩
  exact h

theorem readConfirmation_forward : Forward 25 25 (readConfirmation iei length) := by
  have h : Forward (4 + (15 + (4 + (2 + 0)))) (4 + (15 + (4 + (2 + 0)))) (readConfirmation iei length) :=
    readUint32_forward.bind fun _ => (readString_forward 15).bind fun _ => readUint32_forward.bind fun _ =>
      readInt16_forward.bind fun _ => .of_modify fun _ => ⟨rfl, rfl⟩
  exact h

/-- How many bytes of the content of an element the handler looks at. -/
def contentTaken : ℕ :=
  if iei = 0x01 then 28 else if iei = 0x02 then length else if iei = 0x44 then 25 else 0

/-- By how many bytes the handler moves over the content of an element. -/
def contentAdvance : ℕ :=
  if iei = 0x01 then 28 else if iei = 0x02 then length else if iei = 0x44 then 25 + length else length

theorem readContent_forward :
    Forward (contentTaken iei length) (contentAdvance iei length) (readContent iei length) := by
  unfold readContent contentTaken contentAdvance
  split
  · exact readHeader_forward iei length
  · split
    · exact readPayload_forward iei length
    · split
      · exact (readConfirmation_forward iei length).bind fun _ => skip_forward length
      · exact skip_forward length

end

def charOf (a : UInt8) : ℤ := (a.toNat : ℤ).bmod 256

def uint16Of (b : ℕ → UInt8) : ℕ := (b 0).toNat * 256 + (b 1).toNat

def ieiAt (data : Bytes) (pos : ℕ) : ℤ := charOf (data.getD pos 0)

def lengthAt (data : Bytes) (pos : ℕ) : ℕ := uint16Of fun i => data.getD (pos + 1 + i) 0

theorem nextByte_eq (h : s.pos < sbdBufferSize) :
    nextByte data s = .ok (data.getD s.pos 0) { s with pos := s.pos + 1 } := if_pos h

theorem nextByte_overrun (h : ¬ s.pos < sbdBufferSize) :
    nextByte data s = .error .outOfRange { s with pos := s.pos + 1 } := if_neg h

theorem run_map_apply (f : α → β) (m : SbdM α) (data : Bytes) (s : SbdReader) :
    (m >>= fun a => pure (f a)) data s = match m data s with
      | .ok a s' => .ok (f a) s'
      | .error e s' => .error e s' := run_bind_apply m _ data s

theorem readElement_eq (h : s.pos + 3 ≤ sbdBufferSize) : readElement data s =
    readContent (ieiAt data s.pos) (lengthAt data s.pos) data { s with pos := s.pos + 3 } := by
  have h1 : s.pos + 1 < sbdBufferSize := by omega
  have h2 : s.pos + 1 + 1 < sbdBufferSize := by omega
  rw [readElement, run_bind_apply, readByte, run_map_apply, nextByte_eq (by omega)]
  dsimp only
  rw [run_bind_apply, readUint16, run_bind_apply, nextByte_eq h1]
  dsimp only
  rw [run_map_apply, nextByte_eq h2]
  rfl

/-- Where the buffer ends within the first bytes of an element, it makes no difference what
they are. -/
theorem readElement_overrun (h : ¬ s.pos + 3 ≤ sbdBufferSize) :
    ∃ t, ∀ data, readElement data s = .error .outOfRange t := by
  by_cases h0 : s.pos < sbdBufferSize
  · by_cases h1 : s.pos + 1 < sbdBufferSize
    · have h2 : ¬ s.pos + 1 + 1 < sbdBufferSize := by omega
      refine ⟨{ s with pos := s.pos + 3 }, fun data => ?_⟩
      rw [readElement, run_bind_apply, readByte, run_map_apply, nextByte_eq h0]
      dsimp only
      rw [run_bind_apply, readUint16, run_bind_apply, nextByte_eq h1]
      dsimp only
      rw [run_map_apply, nextByte_overrun h2]
    · refine ⟨{ s with pos := s.pos + 2 }, fun data => ?_⟩
      rw [readElement, run_bind_apply, readByte, run_map_apply, nextByte_eq h0]
      dsimp only
      rw [run_bind_apply, readUint16, run_bind_apply, nextByte_overrun h1]
  · refine ⟨{ s with pos := s.pos + 1 }, fun data => ?_⟩
    rw [readElement, run_bind_apply, readByte, run_map_apply, nextByte_overrun h0]

/-- How many bytes the handler looks at for the element at this position. -/
def elementTaken (data : Bytes) (pos : ℕ) : ℕ :=
  3 + contentTaken (ieiAt data pos) (lengthAt data pos)

def elementAdvance (data : Bytes) (pos : ℕ) : ℕ :=
  3 + contentAdvance (ieiAt data pos) (lengthAt data pos)

theorem readElement_local (h : AgreeOn s.pos (elementTaken data s.pos) data data') :
    readElement data s = readElement data' s := by
  by_cases hfits : s.pos + 3 ≤ sbdBufferSize
  · have hfront : AgreeOn s.pos 3 data data' := h.left
    have hiei : ieiAt data' s.pos = ieiAt data s.pos := congrArg charOf (hfront 0 (by decide)).symm
    have hlength : lengthAt data' s.pos = lengthAt data s.pos := by
      have h1 : data.getD (s.pos + 1) 0 = data'.getD (s.pos + 1) 0 := hfront 1 (by decide)
      have h2 : data.getD (s.pos + 1 + 1) 0 = data'.getD (s.pos + 1 + 1) 0 := hfront 2 (by decide)
      rw [lengthAt, lengthAt, uint16Of, uint16Of, Nat.add_zero, h1, h2]
    rw [readElement_eq hfits, readElement_eq hfits, hiei, hlength]
    exact (readContent_forward _ _ data _).1 data' h.right
  · obtain ⟨t, herror⟩ := readElement_overrun hfits
    rw [herror, herror]

theorem readElement_advances {a : Unit} {t : SbdReader} (h : readElement data s = .ok a t) :
    t.pos = s.pos + elementAdvance data s.pos ∧ t.overallLength = s.overallLength := by
  by_cases hfits : s.pos + 3 ≤ sbdBufferSize
  · rw [readElement_eq hfits] at h
    obtain ⟨hpos, hlen⟩ := (readContent_forward _ _ data _).2.1 a t h
    exact ⟨hpos.trans (Nat.add_assoc ..), hlen⟩
  · obtain ⟨t', herror⟩ := readElement_overrun hfits
    rw [herror] at h
    cases h

theorem readElement_ends (data : Bytes) (s t : SbdReader) : readElement data s ≠ .error .fuel t := by
  by_cases hfits : s.pos + 3 ≤ sbdBufferSize
  · rw [readElement_eq hfits]
    exact (readContent_forward _ _ data _).2.2 t
  · obtain ⟨t', herror⟩ := readElement_overrun hfits
    rw [herror]
    nofun

/-- The bytes of a message at which the handler looks for the elements from `pos` on. -/
def bytesTaken (msg : Bytes) : ℕ → ℕ → List ℕ
  | 0, _ => []
  | fuel + 1, pos =>
      (List.range (elementTaken msg pos)).map (pos + ·) ++
        if pos + elementAdvance msg pos < msg.length then
          bytesTaken msg fuel (pos + elementAdvance msg pos)
        else []

theorem run_ieHandler_succ (fuel : ℕ) (data : Bytes) (s : SbdReader) :
    ieHandler (fuel + 1) data s = match readElement data s with
      | .ok _ s' =>
        if s'.pos < s'.overallLength + preHeaderSize then ieHandler fuel data s' else .ok () s'
      | .error e s' => .error e s' := by
  rw [ieHandler, run_bind_apply]
  cases readElement data s with
  | error e s' => rfl
  | ok a s' =>
    show (if _ then ieHandler fuel else pure () : SbdM Unit) data s' = _
    by_cases h : s'.pos < s'.overallLength + preHeaderSize
    · simp only [if_pos h]
    · simp only [if_neg h]
      rfl

theorem ieHandler_local (fuel : ℕ) (hlen : s.overallLength + preHeaderSize = msg.length)
    (h : ∀ i ∈ bytesTaken msg fuel s.pos, msg.getD i 0 = data.getD i 0) :
    ieHandler fuel msg s = ieHandler fuel data s := by
  induction fuel generalizing s with
  | zero => rfl
  | succ fuel ih =>
    rw [bytesTaken] at h
    have hhead : AgreeOn s.pos (elementTaken msg s.pos) msg data := fun i hi =>
      h _ (List.mem_append_left _ (List.mem_map_of_mem (List.mem_range.mpr hi)))
    rw [run_ieHandler_succ, run_ieHandler_succ, ← readElement_local hhead]
    cases hm : readElement msg s with
    | error e t => rfl
    | ok a t =>
      obtain ⟨hpos, hlen'⟩ := readElement_advances hm
      dsimp only
      split
      next hmore =>
        refine ih (by rw [hlen', hlen]) fun i hi => h i (List.mem_append_right _ ?_)
        rw [hlen', hlen, hpos] at hmore
        rw [if_pos hmore, ← hpos]
        exact hi
      next => rfl

/-- The handler does not go on for more rounds than there are bytes. -/
theorem ieHandler_ends {fuel : ℕ} (data : Bytes) (hfuel : fuel ≠ 0)
    (h : s.overallLength + preHeaderSize ≤ s.pos + fuel) (s' : SbdReader) :
    ieHandler fuel data s ≠ .error .fuel s' := by
  induction fuel generalizing s with
  | zero => exact absurd rfl hfuel
  | succ fuel ih =>
    rw [run_ieHandler_succ]
    cases hm : readElement data s with
    | error e t =>
      rintro heq
      cases heq
      exact readElement_ends data s s' hm
    | ok a t =>
      obtain ⟨hpos, hlen⟩ := readElement_advances hm
      rw [elementAdvance] at hpos
      dsimp only
      split
      next hmore => exact ih (by omega) (by omega)
      next => exact fun heq => by cases heq

def afterPreHeader (data : Bytes) : SbdReader where
  pos := preHeaderSize
  preHeader := some ⟨((data.getD 0 0).toNat : ℤ).bmod 256,
    (data.getD 1 0).toNat * 256 + (data.getD 2 0).toNat⟩

theorem preHeaderHandler_eq (data : Bytes) :
    preHeaderHandler data {} = .ok () (afterPreHeader data) := by
  simp only [preHeaderHandler, readByte, readUint16, run_bind_apply, nextByte, sbdBufferSize]
  rfl

def secondBuffer (msg : Bytes) (first : ℕ) : Bytes := store (msg.drop first) (msg.take first)

theorem getD_take {first i : ℕ} (h : i < first) : (msg.take first).getD i 0 = msg.getD i 0 := by
  rw [List.getD_eq_getElem?_getD, List.getD_eq_getElem?_getD, List.getElem?_take_of_lt h]

theorem getD_secondBuffer (msg : Bytes) (first i : ℕ) :
    (secondBuffer msg first).getD i 0 =
      if first + i < msg.length then msg.getD (first + i) 0
      else if i < first then msg.getD i 0 else 0 := by
  simp only [secondBuffer, store, List.getD_eq_getElem?_getD]
  by_cases hrest : first + i < msg.length
  · rw [if_pos hrest, List.getElem?_append_left (by rw [List.length_drop]; omega), List.getElem?_drop]
  · have hbehind : (msg.drop first).length ≤ i := by
      rw [List.length_drop]
      omega
    rw [if_neg hrest, List.getElem?_append_right hbehind, List.getElem?_drop, Nat.add_sub_cancel' hbehind]
    split
    next hkept => rw [List.getElem?_take_of_lt hkept]
    next hgone => rw [List.getElem?_take, if_neg hgone, Option.getD_none]

theorem readMessage_eq (h : preHeaderSize ≤ first) :
    readMessage msg first {} =
      ieHandler (msg.length + 1) (secondBuffer msg first) (afterPreHeader msg) := by
  have hfirst : store (msg.take first) [] = msg.take first := by simp [store]
  have hheader : afterPreHeader (msg.take first) = afterPreHeader msg := by
    rw [preHeaderSize] at h
    simp only [afterPreHeader, getD_take (show 0 < first by omega), getD_take (show 1 < first by omega),
      getD_take (show 2 < first by omega)]
  rw [readMessage, hfirst, run_bind, preHeaderHandler_eq, hheader]
  rfl

theorem overallLength_afterPreHeader (m : DirectIpMessage) :
    (afterPreHeader m.bytes).overallLength = m.content.length := by
  have hfits : preHeaderSize + m.content.length ≤ sbdBufferSize := m.fits
  rw [preHeaderSize, sbdBufferSize] at hfits
  show (UInt8.ofNat (m.content.length / 256)).toNat * 256 + (UInt8.ofNat m.content.length).toNat = _
  rw [UInt8.toNat_ofNat', UInt8.toNat_ofNat']
  omega

/-- The bytes at which the handler looks are the same where the second read stores the rest of
the message over them, and zero where they are of the rest and the rest is stored before them. -/
def Undisturbed (msg : Bytes) (first : ℕ) : Prop :=
  ∀ i ∈ bytesTaken msg (msg.length + 1) preHeaderSize,
    (first + i < msg.length → msg.getD (first + i) 0 = msg.getD i 0) ∧
      (msg.length ≤ first + i → first ≤ i → msg.getD i 0 = 0)

instance (msg : Bytes) (first : ℕ) : Decidable (Undisturbed msg first) :=
  inferInstanceAs (Decidable (∀ i ∈ bytesTaken msg (msg.length + 1) preHeaderSize, _))

theorem undisturbed_iff (msg : Bytes) (first : ℕ) :
    Undisturbed msg first ↔ ∀ i ∈ bytesTaken msg (msg.length + 1) preHeaderSize,
      msg.getD i 0 = (secondBuffer msg first).getD i 0 := by
  refine forall₂_congr fun i _ => ?_
  rw [getD_secondBuffer]
  by_cases hrest : first + i < msg.length
  · simp [hrest, eq_comm]
  · by_cases hkept : i < first
    · simp [hrest, hkept]
    · simp [hrest, not_lt.mp hrest, hkept, not_lt.mp hkept]

/-- A message that the first read gets as a whole is undisturbed. -/
theorem undisturbed_whole (msg : Bytes) : Undisturbed msg msg.length := by
  intro i _
  refine ⟨fun h => absurd h (by omega), fun _ h => ?_⟩
  rw [List.getD_eq_getElem?_getD, List.getElem?_eq_none h, Option.getD_none]

/-- Read in two segments, a message is read as in one if the second read changes no byte at
which the handler looks, as it does if the first read gets the whole message; and reading ends. -/
theorem segments_same (m : DirectIpMessage) (hfirst : preHeaderSize ≤ first)
    (h : Undisturbed m.bytes first) :
    readMessage m.bytes first {} = readMessage m.bytes m.bytes.length {} ∧
      ∀ s, readMessage m.bytes first {} ≠ .error .fuel s := by
  have hlen := m.length_bytes
  have hwhole : preHeaderSize ≤ m.bytes.length := by omega
  have hoverall : (afterPreHeader m.bytes).overallLength + preHeaderSize = m.bytes.length := by
    rw [overallLength_afterPreHeader, hlen, Nat.add_comm]
  have hsame := ieHandler_local (m.bytes.length + 1) hoverall ((undisturbed_iff ..).mp h)
  have hone := ieHandler_local (m.bytes.length + 1) hoverall
    ((undisturbed_iff ..).mp (undisturbed_whole m.bytes))
  constructor
  · rw [readMessage_eq hfirst, readMessage_eq hwhole, ← hsame, ← hone]
  · rw [readMessage_eq hfirst]
    exact ieHandler_ends _ (Nat.succ_ne_zero _) (by omega)

/-- A payload of two bytes, and an element of two bytes that the handler skips. -/
def skippedMessage : DirectIpMessage where
  protocolVer := 1
  elements := [⟨0x02, [0xAA, 0xBB]⟩, ⟨0x05, [0xCC, 0xDD]⟩]
  fits := by decide

/-- The last two bytes come in the second read, and are stored over the first two. -/
theorem segments_same_skipped :
    (finalState (readMessage skippedMessage.bytes 11) {}).body = some ⟨0x02, 2, [0xAA, 0xBB]⟩ := by
  have h : Undisturbed skippedMessage.bytes 11 := by decide +kernel
  rw [finalState, (segments_same skippedMessage (by decide) h).1]
  decide +kernel

def payloadMessage : DirectIpMessage where
  protocolVer := 1
  elements := [⟨0x02, [0xAA, 0xBB]⟩]
  fits := by decide

/-- Read in segments of three and five bytes, the payload is lost. -/
theorem payload_lost :
    (finalState (readMessage payloadMessage.bytes payloadMessage.bytes.length) {}).body =
        some ⟨0x02, 2, [0xAA, 0xBB]⟩ ∧
      (finalState (readMessage payloadMessage.bytes 3) {}).body = none := by
  decide +kernel

end Goby.SbdReader
