import Goby.ByteStuffing
import Goby.TransmissionMessages
import Mathlib.Data.Int.Notation
import Mathlib.Data.List.Chain
import Mathlib.Logic.Function.Iterate

/-! An SV2 message begins with a magic byte, which is escaped elsewhere. The reader asks for the magic
byte, the header and the rest of the message in turn. After each of the last two it asks for as
many bytes more as there are escape characters that it has not counted yet, and then removes the
escapes from all that it has stored. -/

namespace Goby.WaveGlider

def sv2MagicByte : UInt8 := 0x7E
def sv2Escape : UInt8 := 0x7D
def sv2HeaderSize : ℕ := 10
def sv2MaxSize : ℕ := 557

def sv2Code : ByteStuffing UInt8 where
  escape := sv2Escape
  mark := sv2MagicByte
  escapeCode := 0x5D
  markCode := 0x5E
  mark_ne_escape := by decide
  escapeCode_ne_escape := by decide
  escapeCode_ne_mark := by decide
  markCode_ne_escape := by decide
  markCode_ne_mark := by decide
  markCode_ne_escapeCode := by decide

inductive MessagePart where
  | magic | header | complete
  deriving DecidableEq

/-- `message` holds the bytes before `message_insert_`; the rest of the buffer is zero. The number
of bytes of the read that has been started is `request`. -/
structure SV2SerialConnection where
  part : MessagePart := .magic
  message : Bytes := []
  messageSize : ℕ := 0
  lastEscape : ℕ := 0
  request : ℤ := 1
  /-- the messages of `message_signal` -/
  signalled : List Bytes := []
  deriving DecidableEq

namespace SV2SerialConnection

/-- The size of the buffer. -/
def bufferSize : ℕ := sv2MaxSize * 2

def readStart (c : SV2SerialConnection) : SV2SerialConnection :=
  { c with part := .magic, message := [], lastEscape := 0, request := 1 }

def append (c : SV2SerialConnection) (bytes : Bytes) : SV2SerialConnection :=
  { c with message := c.message ++ bytes }

/-- The connection with another read, if escape characters have come in. -/
def checkEscapes (c : SV2SerialConnection) : Option SV2SerialConnection :=
  let escape := c.message.count sv2Escape
  if escape ≠ c.lastEscape then
    some { c with request := (escape : ℤ) - c.lastEscape, lastEscape := escape }
  else none

def removeEscapes (c : SV2SerialConnection) : SV2SerialConnection :=
  if c.lastEscape = 0 then c
  else
    let message := ByteStuffing.replacePair sv2Escape 0x5D sv2Escape
      (ByteStuffing.replacePair sv2Escape 0x5E sv2MagicByte c.message)
    { c with message := message, lastEscape := message.count sv2Escape }

def front (c : SV2SerialConnection) (n : ℕ) : Bytes :=
  c.message.take n ++ List.replicate (n - c.message.length) 0

def lengthField (message : Bytes) : ℕ := (message.getD 1 0).toNat ||| (message.getD 2 0).toNat <<< 8

def handleRead (c : SV2SerialConnection) (bytes : Bytes) : SV2SerialConnection :=
  match c.part with
  | .magic =>
    if bytes.head? ≠ some sv2MagicByte then c.readStart
    else { c with part := .header, message := bytes, request := sv2HeaderSize }
  | .header =>
    match (c.append bytes).checkEscapes with
    | some waiting => waiting
    | none =>
      let c := (c.append bytes).removeEscapes
      { c with
        part := .complete
        messageSize := lengthField c.message
        request := (lengthField c.message : ℤ) - sv2HeaderSize }
  | .complete =>
    match (c.append bytes).checkEscapes with
    | some waiting => waiting
    | none =>
      let c := (c.append bytes).removeEscapes
      { c with signalled := c.signalled ++ [c.front (c.messageSize + 1)] }.readStart

/-- One completed read of the stream. Nothing happens while there are too few bytes, or if a
negative number was asked for. -/
def next : SV2SerialConnection × Bytes → SV2SerialConnection × Bytes
  | (c, stream) =>
    if 0 ≤ c.request ∧ c.request ≤ stream.length then
      (c.handleRead (stream.take c.request.toNat), stream.drop c.request.toNat)
    else (c, stream)

theorem next_append {c : SV2SerialConnection} {bytes rest : Bytes} (h : c.request = bytes.length) :
    next (c, bytes ++ rest) = (c.handleRead bytes, rest) := by
  have hlength : c.request ≤ (bytes ++ rest).length := by
    rw [h, List.length_append]
    omega
  simp only [next]
  rw [if_pos ⟨by omega, hlength⟩, h, Int.toNat_natCast, List.take_left, List.drop_left]

/-- The bytes `w` have been read of a part that was begun behind `base` with a read of `n` bytes. -/
structure Fetching (n : ℕ) (base w : Bytes) (c : SV2SerialConnection) : Prop where
  message : c.message = base ++ w
  lastEscape : c.lastEscape = (base ++ w).count sv2Escape
  request : c.request + w.length = n + w.count sv2Escape

variable {n : ℕ} {base w x : Bytes} {c : SV2SerialConnection}

theorem Fetching.more (h : Fetching n base w c) (hx : c.request = x.length)
    (hescape : x.count sv2Escape ≠ 0) :
    ∃ waiting, (c.append x).checkEscapes = some waiting ∧ Fetching n base (w ++ x) waiting ∧
      waiting.request = x.count sv2Escape ∧ waiting.part = c.part ∧
      waiting.messageSize = c.messageSize ∧ waiting.signalled = c.signalled := by
  have hcount : (c.message ++ x).count sv2Escape = c.lastEscape + x.count sv2Escape := by
    rw [List.count_append, h.message, ← h.lastEscape]
  have hne : (c.message ++ x).count sv2Escape ≠ c.lastEscape := by omega
  have hrequest := h.request
  refine ⟨_, if_pos hne, ⟨?_, ?_, ?_⟩, ?_, rfl, rfl, rfl⟩
  · simp [append, h.message]
  · simp [append, h.message]
  · simp only [append, hcount, List.length_append, List.count_append]
    omega
  · simp only [append, hcount]
    omega

theorem handleRead_of_waiting {waiting : SV2SerialConnection} (hpart : c.part ≠ .magic)
    (hcheck : (c.append x).checkEscapes = some waiting) : c.handleRead x = waiting := by
  cases hp : c.part with
  | magic => exact absurd hp hpart
  | header | complete => simp only [handleRead, hp, hcheck]

theorem Fetching.done (h : Fetching n base w c) (hescape : x.count sv2Escape = 0) :
    (c.append x).checkEscapes = none ∧ (c.append x).lastEscape = (c.append x).message.count sv2Escape := by
  have hcount : (c.message ++ x).count sv2Escape = c.lastEscape := by
    rw [List.count_append, h.message, ← h.lastEscape, hescape, Nat.add_zero]
  exact ⟨if_neg (not_not.mpr hcount), hcount.symm⟩

/-- Once all escape characters are counted, they are all removed with their codes. -/
theorem removeEscapes_eq (h : c.lastEscape = c.message.count sv2Escape) :
    c.removeEscapes = { c with
      message := sv2Code.unstuff c.message
      lastEscape := (sv2Code.unstuff c.message).count sv2Escape } := by
  unfold removeEscapes
  split
  next hzero =>
    have hnone : sv2Code.unstuff c.message = c.message :=
      sv2Code.unstuff_of_notMem (List.count_eq_zero.mp (h.symm.trans hzero))
    rw [hnone, ← h]
  · have hpasses : ByteStuffing.replacePair sv2Escape 0x5D sv2Escape
        (ByteStuffing.replacePair sv2Escape 0x5E sv2MagicByte c.message) = sv2Code.unstuff c.message :=
      @ByteStuffing.replacePair_replacePair _ sv2Code _ c.message
    rw [hpasses]

def NoDoubleEscape (stream : Bytes) : Prop := stream.IsChain fun a b => a = sv2Escape → b ≠ sv2Escape

/-- The read that has been started is for no negative number of bytes, and if the stream provides
them, they fit into the buffer. -/
def WithinBounds : SV2SerialConnection × Bytes → Prop
  | (c, stream) => 0 ≤ c.request ∧ (c.request ≤ stream.length → c.message.length + c.request ≤ bufferSize)

theorem two_mul_count_le (h : NoDoubleEscape w) :
    2 * w.count sv2Escape ≤ w.length + 1 ∧
      (w.head? ≠ some sv2Escape → 2 * w.count sv2Escape ≤ w.length) := by
  induction w with
  | nil => simp
  | cons a w ih =>
    obtain ⟨hall, hhead⟩ := ih h.tail
    by_cases ha : a = sv2Escape
    · have hnext : w.head? ≠ some sv2Escape := by
        cases w with
        | nil => simp
        | cons b w => simpa using (List.isChain_cons_cons.mp h).1 ha
      have hw := hhead hnext
      simp [ha]
      omega
    · simp [ha]
      omega

/-- A part of which no more than `n` bytes are escape characters. -/
structure Bounded (n : ℕ) (base w : Bytes) (c : SV2SerialConnection) (stream : Bytes) : Prop
    extends Fetching n base w c where
  nonneg : 0 ≤ c.request
  count_le : w.count sv2Escape ≤ n
  noDouble : NoDoubleEscape (w ++ stream)

/-- The states of a reader that stays within bounds: a header is stored in no more than 21 bytes,
with ten escape characters that are not followed by a code. -/
inductive Steady : SV2SerialConnection × Bytes → Prop
  | magic {c stream} (hpart : c.part = .magic) (hmessage : c.message = []) (hlast : c.lastEscape = 0)
      (hrequest : c.request = 1) (hstream : NoDoubleEscape stream) : Steady (c, stream)
  | header {c stream w} (hpart : c.part = .header)
      (hbounded : Bounded sv2HeaderSize [sv2MagicByte] w c stream) : Steady (c, stream)
  | complete {c stream base w} (hpart : c.part = .complete) (hbase : base.length ≤ 21)
      (hbounded : Bounded (c.messageSize - sv2HeaderSize) base w c stream) : Steady (c, stream)

variable {stream : Bytes} {p : SV2SerialConnection × Bytes}

theorem Bounded.length_le (h : Bounded n base w c stream) :
    (c.message.length : ℤ) + c.request ≤ base.length + 2 * n := by
  have hrequest := h.request
  have hcount := h.count_le
  rw [h.message, List.length_append]
  omega

/-- A completed read of a part: more of it is fetched, or the part ends with no more than twice
the number of bytes that were asked for at first. -/
theorem Bounded.read (h : Bounded n base w c (x ++ stream)) (hx : c.request = x.length) :
    (∃ waiting, (c.append x).checkEscapes = some waiting ∧ Bounded n base (w ++ x) waiting stream ∧
      waiting.part = c.part ∧ waiting.messageSize = c.messageSize) ∨
    (c.append x).checkEscapes = none ∧
      (c.append x).lastEscape = (c.append x).message.count sv2Escape ∧
      (c.append x).message.length ≤ base.length + 2 * n := by
  have hnoDouble : NoDoubleEscape ((w ++ x) ++ stream) := by simpa using h.noDouble
  by_cases hescape : x.count sv2Escape = 0
  · obtain ⟨hcheck, hlast⟩ := h.done hescape
    have hlength := h.length_le
    refine .inr ⟨hcheck, hlast, ?_⟩
    simp only [append, List.length_append]
    omega
  · obtain ⟨waiting, hcheck, hfetching, hrequest, hpart, hsize, -⟩ := h.more hx hescape
    have hcount := (two_mul_count_le hnoDouble.left_of_append).1
    have hbefore := h.request
    rw [List.count_append, List.length_append] at hcount
    refine .inl ⟨waiting, hcheck, ⟨hfetching, by omega, ?_, hnoDouble⟩, hpart, hsize⟩
    rw [List.count_append]
    omega

theorem Steady.withinBounds (h : Steady p)
    (hsize : p.1.part = .complete → p.1.messageSize < sv2MaxSize) : WithinBounds p := by
  cases h with
  | magic hpart hmessage hlast hrequest hstream =>
    simp [WithinBounds, hmessage, hrequest, bufferSize, sv2MaxSize]
  | header hpart hbounded =>
    have hlength := hbounded.length_le
    refine ⟨hbounded.nonneg, fun _ => ?_⟩
    simp [sv2HeaderSize, bufferSize, sv2MaxSize] at hlength ⊢
    omega
  | complete hpart hbase hbounded =>
    have hlength := hbounded.length_le
    have hfield := hsize hpart
    refine ⟨hbounded.nonneg, fun _ => ?_⟩
    simp [sv2HeaderSize, bufferSize, sv2MaxSize] at hlength hfield ⊢
    omega

theorem steady_magic (hpart : c.part = .magic) (hlast : c.lastEscape = 0)
    (hx : x.length = 1) (hstream : NoDoubleEscape (x ++ stream)) : Steady (c.handleRead x, stream) := by
  obtain ⟨b, rfl⟩ := List.length_eq_one_iff.mp hx
  have hrest : NoDoubleEscape stream := hstream.right_of_append
  simp only [handleRead, hpart]
  split
  · exact .magic rfl rfl rfl rfl hrest
  next hmagic =>
    obtain rfl : b = sv2MagicByte := by simpa using hmagic
    have hnone : [sv2MagicByte].count sv2Escape = 0 := by decide
    exact .header rfl ⟨⟨(List.append_nil _).symm, by simp [hlast, hnone], by simp⟩,
      Int.natCast_nonneg _, by simp, hrest⟩

theorem steady_header (hpart : c.part = .header)
    (h : Bounded sv2HeaderSize [sv2MagicByte] w c (x ++ stream)) (hx : c.request = x.length)
    (hsize : (c.handleRead x).part = .complete → sv2HeaderSize ≤ (c.handleRead x).messageSize) :
    Steady (c.handleRead x, stream) := by
  rcases h.read hx with ⟨waiting, hcheck, hbounded, hpart', -⟩ | ⟨hcheck, hlast, hlength⟩
  · rw [handleRead_of_waiting (by simp [hpart]) hcheck]
    exact .header (hpart'.trans hpart) hbounded
  · simp only [handleRead, hpart, hcheck, removeEscapes_eq hlast] at hsize ⊢
    have hfield := hsize trivial
    have hrest : NoDoubleEscape stream := h.noDouble.right_of_append.right_of_append
    have hbase : (sv2Code.unstuff (c.append x).message).length ≤ 21 :=
      (sv2Code.length_unstuff_le _).trans hlength
    refine .complete rfl hbase ⟨⟨(List.append_nil _).symm, by simp, ?_⟩, ?_, by simp, hrest⟩
    · simp only [List.length_nil, List.count_nil]
      omega
    · dsimp only
      omega

theorem steady_complete (hpart : c.part = .complete) (hbase : base.length ≤ 21)
    (h : Bounded (c.messageSize - sv2HeaderSize) base w c (x ++ stream)) (hx : c.request = x.length) :
    Steady (c.handleRead x, stream) := by
  rcases h.read hx with ⟨waiting, hcheck, hbounded, hpart', hsize'⟩ | ⟨hcheck, -, -⟩
  · rw [handleRead_of_waiting (by simp [hpart]) hcheck]
    exact .complete (hpart'.trans hpart) hbase (hsize' ▸ hbounded)
  · simp only [handleRead, hpart, hcheck]
    exact .magic rfl rfl rfl rfl h.noDouble.right_of_append.right_of_append

theorem Steady.next (h : Steady p)
    (hsize : (next p).1.part = .complete → sv2HeaderSize ≤ (next p).1.messageSize) :
    Steady (next p) := by
  obtain ⟨c, stream⟩ := p
  by_cases hready : 0 ≤ c.request ∧ c.request ≤ stream.length
  · obtain ⟨x, rest, rfl, hx⟩ : ∃ x rest, stream = x ++ rest ∧ c.request = x.length := by
      refine ⟨stream.take c.request.toNat, stream.drop c.request.toNat, by simp, ?_⟩
      rw [List.length_take]
      omega
    rw [next_append hx] at hsize ⊢
    cases h with
    | magic hpart hmessage hlast hrequest hstream => exact steady_magic hpart hlast (by omega) hstream
    | header hpart hbounded => exact steady_header hpart hbounded hx hsize
    | complete hpart hbase hbounded => exact steady_complete hpart hbase hbounded hx
  · simpa [SV2SerialConnection.next, hready] using h

def after (reads : ℕ) (stream : Bytes) : SV2SerialConnection × Bytes := next^[reads] ({}, stream)

theorem after_succ (reads : ℕ)
    (stream : Bytes) : after (reads + 1) stream = next (after reads stream) :=
  Function.iterate_succ_apply' ..

/-- A line that goes on sending the escape character: each read of ten of them asks for ten more. -/
theorem after_escapes (k : ℕ) (rest : Bytes) :
    ∃ c, after (k + 1) (sv2MagicByte :: (List.replicate (10 * k) sv2Escape ++ rest)) = (c, rest) ∧
      c.part = .header ∧ Fetching sv2HeaderSize [sv2MagicByte] (List.replicate (10 * k) sv2Escape) c := by
  induction k generalizing rest with
  | zero =>
    exact ⟨_, @next_append {} [sv2MagicByte] rest rfl, rfl, ⟨rfl, rfl, rfl⟩⟩
  | succ k ih =>
    obtain ⟨c, hafter, hpart, hfetching⟩ := ih (List.replicate 10 sv2Escape ++ rest)
    have hstream : List.replicate (10 * (k + 1)) sv2Escape ++ rest =
        List.replicate (10 * k) sv2Escape ++ (List.replicate 10 sv2Escape ++ rest) := by
      rw [← List.append_assoc, List.replicate_append_replicate, Nat.mul_succ]
    have hrequest : c.request = (List.replicate 10 sv2Escape).length := by
      have h := hfetching.request
      rw [List.count_replicate_self, List.length_replicate] at h
      rw [List.length_replicate]
      simp only [sv2HeaderSize] at h
      omega
    obtain ⟨waiting, hcheck, hmore, -, hpart', -⟩ := hfetching.more hrequest (by decide)
    refine ⟨waiting, ?_, hpart'.trans hpart, ?_⟩
    · rw [after_succ, hstream, hafter, next_append hrequest,
        handleRead_of_waiting (by simp [hpart]) hcheck]
    · rwa [List.replicate_append_replicate, ← Nat.mul_succ] at hmore

/-- A header of ten bytes, all of them zero but for the length field. -/
def headerOf (low high : UInt8) : Bytes := [sv2MagicByte, low, high, 0, 0, 0, 0, 0, 0, 0, 0]

/-- A reader stays within bounds if no two escape characters come one after the other and every
header holds a length that a message can have. -/
theorem after_withinBounds (stream : Bytes) (hdouble : NoDoubleEscape stream)
    (hsize : ∀ reads, (after reads stream).1.part = .complete →
      sv2HeaderSize ≤ (after reads stream).1.messageSize ∧ (after reads stream).1.messageSize < sv2MaxSize)
    (reads : ℕ) : WithinBounds (after reads stream) := by
  have hsteady : Steady (after reads stream) := by
    induction reads with
    | zero => exact .magic rfl rfl rfl rfl hdouble
    | succ reads ih =>
      rw [after_succ]
      refine ih.next fun hpart => ?_
      rw [← after_succ] at hpart ⊢
      exact (hsize (reads + 1) hpart).1
  exact hsteady.withinBounds fun hpart => (hsize reads hpart).2

/-- A message with a body in which a magic byte has been escaped. -/
def escapedMessage : Bytes := headerOf 13 0 ++ [0x01, sv2Escape, 0x5E, 0x02]

theorem after_withinBounds_escaped :
    (after 4 escapedMessage).1.signalled = [headerOf 13 0 ++ [0x01, sv2MagicByte, 0x02]] ∧
      ∀ reads, WithinBounds (after reads escapedMessage) := by
  have hfixed : Function.IsFixedPt SV2SerialConnection.next (after 4 escapedMessage) := by decide
  have hsize : ∀ reads, (after reads escapedMessage).1.part = .complete →
      sv2HeaderSize ≤ (after reads escapedMessage).1.messageSize ∧
        (after reads escapedMessage).1.messageSize < sv2MaxSize
    | 0 | 1 | 2 | 3 => by decide
    | reads + 4 => by
      have hlast : after (reads + 4) escapedMessage = after 4 escapedMessage := by
        rw [after, Function.iterate_add_apply]
        exact Function.iterate_fixed hfixed reads
      rw [hlast]
      decide
  exact ⟨by decide, after_withinBounds escapedMessage (by unfold NoDoubleEscape; decide) hsize⟩

/-- A length field of zero, one that is too large, and a line that goes on sending the escape
character. -/
theorem after_not_withinBounds :
    ¬ WithinBounds (after 2 (headerOf 0 0)) ∧
    ¬ WithinBounds (after 2 (headerOf 0xB0 0x04 ++ List.replicate 1190 0)) ∧
    ¬ WithinBounds (after 112 (sv2MagicByte ::
      (List.replicate (10 * 111) sv2Escape ++ List.replicate 10 sv2Escape))) := by
  refine ⟨by unfold WithinBounds; decide +kernel, by unfold WithinBounds; decide +kernel, ?_⟩
  obtain ⟨c, hafter, -, hfetching⟩ := after_escapes 111 (List.replicate 10 sv2Escape)
  have hrequest := hfetching.request
  rw [hafter]
  rintro ⟨-, hfits⟩
  rw [hfetching.message] at hfits
  simp only [sv2HeaderSize, bufferSize, sv2MaxSize, List.length_append, List.length_singleton,
    List.length_replicate, List.count_replicate_self] at hrequest hfits
  omega

end SV2SerialConnection

end Goby.WaveGlider
