import Goby.WaveGliderReader

/-! Messages that are written with escapes one after the other are fed to the reader. It finds the
end of each of them. But the escapes of a header are removed a second time with those of the rest
of the message, so that a header is spoiled in which an escape character is followed by a code. -/

namespace Goby.WaveGlider

def addEscapes (message : Bytes) : Bytes :=
  ByteStuffing.replaceFirstPair sv2Escape 0x5E sv2MagicByte
    (ByteStuffing.replaceSymbol sv2MagicByte [sv2Escape, 0x5E]
      (ByteStuffing.replaceSymbol sv2Escape [sv2Escape, 0x5D] message))

theorem addEscapes_cons (message : Bytes) :
    addEscapes (sv2MagicByte :: message) = sv2MagicByte :: sv2Code.stuff message := by
  have hstuff : ByteStuffing.replaceSymbol sv2MagicByte [sv2Escape, 0x5E]
      (ByteStuffing.replaceSymbol sv2Escape [sv2Escape, 0x5D] (sv2MagicByte :: message)) =
        sv2Code.stuff (sv2MagicByte :: message) :=
    @ByteStuffing.replaceSymbol_replaceSymbol _ sv2Code _ _
  rw [addEscapes, hstuff]
  rfl

open SV2SerialConnection

/-- A message with its length, less one, in the second and third byte. -/
structure SV2Message where
  bytes : Bytes
  magic : bytes.head? = some sv2MagicByte
  length_eq : bytes.length = lengthField bytes + 1
  min_length : sv2HeaderSize + 1 ≤ bytes.length
  max_length : bytes.length ≤ sv2MaxSize

/-- What is signalled of a message: its header with the bytes that follow, after the escapes have
been removed from both, filled up with zeros. -/
def heard (bytes : Bytes) : Bytes :=
  let message := sv2Code.unstuff (bytes.take (sv2HeaderSize + 1) ++
    sv2Code.stuff (bytes.drop (sv2HeaderSize + 1)))
  message ++ List.replicate (bytes.length - message.length) 0

/-- No escape character among the first eleven bytes is followed by a code. -/
def Regular (bytes : Bytes) : Prop :=
  ∀ i ≤ sv2HeaderSize, bytes[i]? = some sv2Escape → bytes[i + 1]? ≠ some 0x5D ∧ bytes[i + 1]? ≠ some 0x5E

theorem unpaired_drop_iff {bytes : Bytes} {i : ℕ} :
    sv2Code.Unpaired (bytes.drop i) ↔
      (bytes[i]? = some sv2Escape → bytes[i + 1]? ≠ some 0x5D ∧ bytes[i + 1]? ≠ some 0x5E) := by
  have hfirst : bytes[i]? = (bytes.drop i)[0]? := by simp
  have hsecond : bytes[i + 1]? = (bytes.drop i)[1]? := by simp
  rw [hfirst, hsecond]
  generalize bytes.drop i = s
  cases s with
  | nil => simp [ByteStuffing.Unpaired]
  | cons x s =>
    rw [ByteStuffing.unpaired_cons_iff]
    cases s with
    | nil => simp
    | cons y s => simp [ByteStuffing.IsCode, sv2Code]

theorem heard_eq_iff (m : SV2Message) : heard m.bytes = m.bytes ↔ Regular m.bytes := by
  have hlength : (m.bytes.take (sv2HeaderSize + 1)).length = sv2HeaderSize + 1 := by
    have := m.min_length
    rw [List.length_take]
    omega
  have hsplit := List.take_append_drop (sv2HeaderSize + 1) m.bytes
  have hregular : Regular m.bytes ↔ ∀ i < (m.bytes.take (sv2HeaderSize + 1)).length,
      sv2Code.Unpaired ((m.bytes.take (sv2HeaderSize + 1) ++ m.bytes.drop (sv2HeaderSize + 1)).drop i) := by
    simp only [hlength, hsplit, unpaired_drop_iff, Regular, Nat.lt_succ_iff]
  rw [hregular]
  constructor
  · intro h
    have hzeros (n : ℕ) : sv2Code.escapeCode ∉ List.replicate n (0 : UInt8) := fun hmem =>
      absurd (List.eq_of_mem_replicate hmem) (by decide)
    exact ByteStuffing.unpaired_of_unstuff (hzeros _) (h.trans hsplit.symm)
  · intro h
    rw [heard, ByteStuffing.unstuff_append_stuff h, hsplit]
    simp

variable {n : ℕ} {base w y s : Bytes} {c : SV2SerialConnection} {header body : Bytes}

/-- The reads of a part that consists of the escaped bytes `s`, but for the last one: they come up
to its end. -/
theorem exists_last_read (h : Fetching s.length base w c) (hpart : c.part ≠ .magic)
    (hstuff : w ++ y = sv2Code.stuff s) (rest : Bytes) :
    ∃ reads c' w' x, next^[reads] (c, y ++ rest) = (c', x ++ rest) ∧
      w' ++ x = sv2Code.stuff s ∧ Fetching s.length base w' c' ∧ c'.request = x.length ∧
      x.count sv2Escape = 0 ∧ c'.part = c.part ∧ c'.messageSize = c.messageSize ∧
      c'.signalled = c.signalled := by
  induction hk : y.count sv2Escape using Nat.strong_induction_on generalizing w y c with
  | _ k ih =>
    have hrequest := h.request
    have hlength := sv2Code.length_stuff s
    rw [← hstuff, List.length_append, List.count_append] at hlength
    have hle : y.count sv2Escape ≤ y.length := List.count_le_length
    obtain ⟨x, y', rfl, hx⟩ : ∃ x y', y = x ++ y' ∧ c.request = x.length := by
      refine ⟨y.take c.request.toNat, y.drop c.request.toNat, by simp, ?_⟩
      rw [List.length_take]
      change _ = s.length + (w.count sv2Escape + y.count sv2Escape) at hlength
      omega
    by_cases hescape : x.count sv2Escape = 0
    · -- the number of bytes is the one the escape characters call for, so nothing is left
      have hend : w ++ x = sv2Code.stuff s := by
        refine ByteStuffing.eq_stuff_of_length ⟨y', by simpa using hstuff⟩ ?_
        change _ = s.length + (w ++ x).count sv2Escape
        rw [List.length_append, List.count_append, hescape]
        omega
      obtain rfl : y' = [] := by
        rw [← hstuff, ← List.append_assoc] at hend
        simpa using hend
      exact ⟨0, c, w, x, by simp, hend, h, hx, hescape, rfl, rfl, rfl⟩
    · obtain ⟨waiting, hcheck, hfetching, -, hpart', hsize, hsignalled⟩ := h.more hx hescape
      rw [List.count_append] at hk
      obtain ⟨reads, c', w', x', hreads, hend, hfetching', hx', hescape', hp, hs, hg⟩ :=
        ih (y'.count sv2Escape) (by omega) hfetching (hpart' ▸ hpart) (by simpa using hstuff) rfl
      refine ⟨reads + 1, c', w', x', ?_, hend, hfetching', hx', hescape', hp.trans hpart',
        hs.trans hsize, hg.trans hsignalled⟩
      rw [Function.iterate_succ_apply, List.append_assoc, next_append hx,
        handleRead_of_waiting hpart hcheck, hreads]

/-- All reads of a part: what is stored in the end, the escapes being removed, are the bytes of
the part, unless something in front of them is taken for an escape. -/
theorem exists_part_read (h : Fetching s.length base [] c) (hpart : c.part ≠ .magic) (rest : Bytes) :
    ∃ (reads : ℕ) (c' : SV2SerialConnection) (x : Bytes),
      next^[reads] (c, sv2Code.stuff s ++ rest) = (c'.handleRead x, rest) ∧
      (c'.append x).checkEscapes = none ∧
      (c'.append x).removeEscapes = { c' with
        message := sv2Code.unstuff (base ++ sv2Code.stuff s)
        lastEscape := (sv2Code.unstuff (base ++ sv2Code.stuff s)).count sv2Escape } ∧
      c'.part = c.part ∧ c'.messageSize = c.messageSize ∧ c'.signalled = c.signalled := by
  obtain ⟨reads, c', w, x, hreads, hend, hfetching, hx, hescape, hsame⟩ :=
    exists_last_read h hpart (List.nil_append _) rest
  obtain ⟨hcheck, hlast⟩ := hfetching.done hescape
  have hmessage : (c'.append x).message = base ++ sv2Code.stuff s := by
    simp [SV2SerialConnection.append, hfetching.message, hend]
  refine ⟨reads + 1, c', x, ?_, hcheck, ?_, hsame⟩
  · rw [Function.iterate_succ_apply', hreads, next_append hx]
  · rw [removeEscapes_eq hlast, hmessage]
    rfl

/-- The reader waits for a magic byte. -/
structure Idle (c : SV2SerialConnection) : Prop where
  part : c.part = .magic
  lastEscape : c.lastEscape = 0
  request : c.request = 1

theorem Idle.read_magic (h : Idle c) (rest : Bytes) :
    ∃ c', next (c, sv2MagicByte :: rest) = (c', rest) ∧ c'.part = .header ∧
      Fetching sv2HeaderSize [sv2MagicByte] [] c' ∧ c'.signalled = c.signalled := by
  have hread : next (c, [sv2MagicByte] ++ rest) = (c.handleRead [sv2MagicByte], rest) :=
    next_append (by simp [h.request])
  refine ⟨_, hread, ?_, ⟨?_, ?_, ?_⟩, ?_⟩ <;> simp [handleRead, h.part]
  rw [h.lastEscape]
  decide

/-- The header is stored as it was sent, and the bytes that are left are asked for. -/
theorem exists_header_read (hlength : header.length = sv2HeaderSize)
    (h : Fetching sv2HeaderSize [sv2MagicByte] [] c) (hpart : c.part = .header)
    (hfield : lengthField (sv2MagicByte :: header) = sv2HeaderSize + body.length) (rest : Bytes) :
    ∃ (reads : ℕ) (c' : SV2SerialConnection),
      next^[reads] (c, sv2Code.stuff header ++ rest) = (c', rest) ∧ c'.part = .complete ∧
      Fetching body.length (sv2MagicByte :: header) [] c' ∧
      c'.messageSize = sv2HeaderSize + body.length ∧ c'.signalled = c.signalled := by
  rw [← hlength] at h
  obtain ⟨reads, c', x, hreads, hcheck, hremove, hpart', -, hsignalled⟩ :=
    exists_part_read h (by simp [hpart]) rest
  have hunstuff : sv2Code.unstuff ([sv2MagicByte] ++ sv2Code.stuff header) = sv2MagicByte :: header := by
    rw [List.singleton_append, ByteStuffing.unstuff_cons_of_unpaired
      (ByteStuffing.unpaired_of_ne (by decide) _), ByteStuffing.unstuff_stuff]
  rw [hunstuff] at hremove
  refine ⟨reads, _, hreads, ?_⟩
  simp only [handleRead, hpart'.trans hpart, hcheck, hremove, hfield]
  refine ⟨trivial, ⟨?_, ?_, ?_⟩, trivial, hsignalled⟩
  · simp
  · simp
  · simp

theorem exists_body_read (h : Fetching body.length (sv2MagicByte :: header) [] c)
    (hpart : c.part = .complete) (hsize : c.messageSize = sv2HeaderSize + body.length)
    (hlength : header.length = sv2HeaderSize) (rest : Bytes) :
    ∃ (reads : ℕ) (c' : SV2SerialConnection), next^[reads] (c, sv2Code.stuff body ++ rest) = (c', rest) ∧
      Idle c' ∧ c'.signalled = c.signalled ++ [heard (sv2MagicByte :: (header ++ body))] := by
  obtain ⟨reads, c', x, hreads, hcheck, hremove, hpart', hsize', hsignalled⟩ :=
    exists_part_read h (by simp [hpart]) rest
  have htotal : (sv2MagicByte :: (header ++ body)).length = c.messageSize + 1 := by
    simp [hsize, hlength]
  have htake : (sv2MagicByte :: (header ++ body)).take (sv2HeaderSize + 1) = sv2MagicByte :: header := by
    rw [List.take_succ_cons, List.take_left' hlength]
  have hdrop : (sv2MagicByte :: (header ++ body)).drop (sv2HeaderSize + 1) = body := by
    rw [List.drop_succ_cons, List.drop_left' hlength]
  have hle := sv2Code.length_unstuff_append_stuff_le (sv2MagicByte :: header) body
  refine ⟨reads, _, hreads, ?_⟩
  simp only [handleRead, hpart'.trans hpart, hcheck, hremove]
  refine ⟨⟨rfl, rfl, rfl⟩, ?_⟩
  simp only [readStart, front, hsignalled, hsize', heard, htotal, htake, hdrop]
  rw [List.take_of_length_le]
  simp only [List.length_cons] at hle
  omega

theorem lengthField_append {b : UInt8} (h : 2 ≤ header.length) :
    lengthField (b :: (header ++ body)) = lengthField (b :: header) := by
  match header, h with
  | _ :: _ :: _, _ => rfl

theorem Idle.read_message (hidle : Idle c) (m : SV2Message) (rest : Bytes) :
    ∃ (reads : ℕ) (c' : SV2SerialConnection), next^[reads] (c, addEscapes m.bytes ++ rest) = (c', rest) ∧
      Idle c' ∧ c'.signalled = c.signalled ++ [heard m.bytes] := by
  obtain ⟨tail, hbytes⟩ := List.head?_eq_some_iff.mp m.magic
  obtain ⟨header, body, rfl, hlength⟩ : ∃ header body, tail = header ++ body ∧
      header.length = sv2HeaderSize := by
    have hmin := m.min_length
    rw [hbytes, List.length_cons] at hmin
    exact ⟨tail.take sv2HeaderSize, tail.drop sv2HeaderSize, by simp, by rw [List.length_take]; omega⟩
  have hfield : lengthField (sv2MagicByte :: header) = sv2HeaderSize + body.length := by
    have hall := m.length_eq
    rw [hbytes, lengthField_append (by rw [hlength]; decide)] at hall
    simp only [List.length_cons, List.length_append, hlength] at hall
    omega
  have hstream : addEscapes m.bytes ++ rest =
      sv2MagicByte :: (sv2Code.stuff header ++ (sv2Code.stuff body ++ rest)) := by
    rw [hbytes, addEscapes_cons]
    simp [ByteStuffing.stuff]
  obtain ⟨c₁, hmagic, hpart₁, hfetching₁, hsignalled₁⟩ := hidle.read_magic
    (sv2Code.stuff header ++ (sv2Code.stuff body ++ rest))
  obtain ⟨reads₂, c₂, hheader, hpart₂, hfetching₂, hsize₂, hsignalled₂⟩ :=
    exists_header_read hlength hfetching₁ hpart₁ hfield (sv2Code.stuff body ++ rest)
  obtain ⟨reads₃, c₃, hbody, hidle₃, hsignalled₃⟩ :=
    exists_body_read hfetching₂ hpart₂ hsize₂ hlength rest
  refine ⟨reads₃ + (reads₂ + 1), c₃, ?_, hidle₃, ?_⟩
  · rw [hstream, Function.iterate_add_apply, Function.iterate_succ_apply, hmagic, hheader, hbody]
  · rw [hsignalled₃, hsignalled₂, hsignalled₁, hbytes]

def written (messages : List SV2Message) : Bytes := messages.flatMap fun m => addEscapes m.bytes

theorem Idle.read_messages (hidle : Idle c) (messages : List SV2Message) :
    ∃ (reads : ℕ) (c' : SV2SerialConnection), next^[reads] (c, written messages) = (c', []) ∧
      Idle c' ∧ c'.signalled = c.signalled ++ messages.map fun m => heard m.bytes := by
  induction messages generalizing c with
  | nil => exact ⟨0, c, rfl, hidle, by simp⟩
  | cons m messages ih =>
    obtain ⟨reads₁, c₁, hfirst, hidle₁, hsignalled₁⟩ := hidle.read_message m (written messages)
    obtain ⟨reads₂, c₂, hothers, hidle₂, hsignalled₂⟩ := ih hidle₁
    refine ⟨reads₂ + reads₁, c₂, ?_, hidle₂, by simp [hsignalled₂, hsignalled₁]⟩
    have hwritten : written (m :: messages) = addEscapes m.bytes ++ written messages := rfl
    rw [hwritten, Function.iterate_add_apply, hfirst, hothers]

/-- Once the line has been read, each message has been signalled once and in order; and they are
the messages that were sent exactly if their headers are regular. -/
theorem signalled_eq_iff (messages : List SV2Message) :
    ∃ enough, ∀ reads, enough ≤ reads →
      (after reads (written messages)).2 = [] ∧
      (after reads (written messages)).1.signalled.length = messages.length ∧
      ((after reads (written messages)).1.signalled = messages.map SV2Message.bytes ↔
        ∀ m ∈ messages, Regular m.bytes) := by
  have hstart : Idle {} := ⟨rfl, rfl, rfl⟩
  obtain ⟨enough, c, hreads, hidle, hsignalled⟩ := hstart.read_messages messages
  refine ⟨enough, fun reads hle => ?_⟩
  have hwaiting : next (c, []) = (c, []) := by simp [next, hidle.request]
  have hafter : after reads (written messages) = (c, []) := by
    obtain ⟨more, rfl⟩ := Nat.exists_eq_add_of_le' hle
    rw [after, Function.iterate_add_apply, hreads]
    exact Function.iterate_fixed hwaiting more
  rw [hafter, hsignalled]
  refine ⟨rfl, by simp, ?_⟩
  simp only [List.nil_append, List.map_inj_left, heard_eq_iff]

/-- A message of twelve bytes whose header holds an escape character and a code. -/
def spoiled : SV2Message where
  bytes := [sv2MagicByte, 11, 0, sv2Escape, 0x5E, 1, 2, 3, 4, 5, 6, 7]
  magic := rfl
  length_eq := by decide
  min_length := by decide
  max_length := by decide

theorem signalled_spoiled :
    (after 4 (written [spoiled])).1.signalled =
        [[sv2MagicByte, 11, 0, sv2MagicByte, 1, 2, 3, 4, 5, 6, 7, 0]] ∧
      (after 4 (written [spoiled])).2 = [] := by
  decide

end Goby.WaveGlider
