import Goby.ByteStrings
import Goby.LineReading
import Goby.RudicsPacket

/-! The mobile driver reads the modem line by line, the delimiter being a carriage return, and
parses each line as a packet. The line comes without its delimiter, but the parser drops the
last character in any case. What it drops is part of the packet, unless there is junk before
the carriage return. -/

namespace Goby

/-- `boost::crc_32_type`, a bit at a time. -/
def crc32Step (c : UInt32) : UInt32 := if c &&& 1 = 1 then (c >>> 1) ^^^ 0xEDB88320 else c >>> 1

def crc32 (bytes : Bytes) : UInt32 :=
  ~~~(bytes.foldl (fun c b => crc32Step^[8] (c ^^^ b.toUInt32)) 0xFFFFFFFF)

example : crc32 (ascii "123456789") = 0xCBF43926 := by decide +kernel

/-- What a line does in the state `OnCall`. -/
inductive OnCallReaction where
  | noCarrier
  | start
  | bye
  | received (bytes : Bytes)
  | undecodable (e : RudicsPacketException)
  deriving DecidableEq

def onCallReact (crc : Bytes → UInt32) (line : Bytes) : OnCallReaction :=
  if ascii "NO CARRIER" <:+: line then .noCarrier
  else if trimCopy line = ascii "goby" then .start
  else if trimCopy line = ascii "bye" then .bye
  else match parseRudicsPacket crc line with
    | .ok bytes => .received bytes
    | .error e => .undecodable e

def OnCallReaction.bytes? : OnCallReaction → Option Bytes
  | .received bytes => some bytes
  | _ => none

def crDelimiter : LineDelimiter := ⟨[carriageReturn], by decide⟩

/-- The payloads that the driver gets from what arrives at its modem connection. -/
def mobileReceive (crc : Bytes → UInt32) (chunks : List Bytes) : List Bytes :=
  (LineReader.receiveAll crDelimiter {} chunks).lines.filterMap fun line => (onCallReact crc line).bytes?

def IsText (line : Bytes) : Prop :=
  ascii "NO CARRIER" <:+: line ∨ trimCopy line = ascii "goby" ∨ trimCopy line = ascii "bye"

instance (line : Bytes) : Decidable (IsText line) := inferInstanceAs (Decidable (_ ∨ _))

/-- The characters, other than the delimiter, that are dropped anywhere in a packet. -/
def lineJunk : Bytes := [0x00, 0x0A, 0xFF]

theorem mem_defaultReserved_of_lineJunk {b : UInt8} (h : b ∈ lineJunk) : b ∈ defaultReserved := by
  simp only [lineJunk, List.mem_cons, List.not_mem_nil, or_false] at h
  rcases h with rfl | rfl | rfl <;> decide

/-- A packet as it arrives: the body, with junk, and its payload. -/
structure Arrival (crc : Bytes → UInt32) where
  payload : Bytes
  body : Bytes
  junked : Junked lineJunk (rudicsBody defaultReserved (withCrc crc true payload)) body

def EndsInJunk (body : Bytes) : Prop := ∃ s, ∃ b ∈ lineJunk, body = s ++ [b]

theorem Junked.mono {junk reserved s s' : Bytes} (h : Junked junk s s')
    (hsub : ∀ b ∈ junk, b ∈ reserved) : Junked reserved s s' := by
  induction h with
  | nil => exact .nil
  | keep b _ ih => exact .keep b ih
  | junk hb _ ih => exact .junk (hsub _ hb) ih

theorem Junked.mem {junk s s' : Bytes} (h : Junked junk s s') {b : UInt8} (hb : b ∈ s') :
    b ∈ s ∨ b ∈ junk := by
  induction h with
  | nil => exact .inl hb
  | keep c _ ih =>
    rcases List.mem_cons.mp hb with rfl | hb
    · exact .inl List.mem_cons_self
    · exact (ih hb).imp (List.mem_cons_of_mem _) id
  | junk hc _ ih =>
    rcases List.mem_cons.mp hb with rfl | hb
    · exact .inr hc
    · exact ih hb

theorem bytes?_onCallReact (crc : Bytes → UInt32) (line x : Bytes) :
    (onCallReact crc line).bytes? = some x ↔ ¬IsText line ∧ parseRudicsPacket crc line = .ok x := by
  unfold onCallReact IsText
  split
  next h => simp [OnCallReaction.bytes?, h]
  next h =>
    split
    next h' => simp [OnCallReaction.bytes?, h']
    next h' =>
      split
      next h'' => simp [OnCallReaction.bytes?, h'']
      next h'' => cases hp : parseRudicsPacket crc line <;> simp [OnCallReaction.bytes?, h, h', h'']

namespace Arrival

variable {crc : Bytes → UInt32} (a : Arrival crc)

theorem filter_body : (a.body.filter fun b => b ∉ defaultReserved) =
    rudicsBody defaultReserved (withCrc crc true a.payload) :=
  (a.junked.mono fun _ => mem_defaultReserved_of_lineJunk).filter fun _ => defaultReserved_separates.not_mem

theorem carriageReturn_not_mem : carriageReturn ∉ a.body := by
  intro h
  rcases a.junked.mem h with h | h
  · exact absurd (by decide) (defaultReserved_separates.not_mem h)
  · exact absurd h (by decide)

theorem body_ne_nil : a.body ≠ [] := by
  intro hnil
  have hbody := a.filter_body
  rw [hnil] at hbody
  refine defaultReserved_separates.rudicsBody_ne_nil ?_ hbody.symm
  simp [withCrc, uint32ToByteString]

/-- The parser drops the last character of the body, which only junk can spare. -/
theorem parse_iff : parseRudicsPacket crc a.body = .ok a.payload ↔ EndsInJunk a.body := by
  obtain ⟨s, last, hbody⟩ : ∃ s last, a.body = s ++ [last] :=
    ⟨_, _, (List.dropLast_append_getLast a.body_ne_nil).symm⟩
  have hfilter := a.filter_body
  have hlast : last ≠ carriageReturn := by
    rintro rfl
    exact a.carriageReturn_not_mem (by simp [hbody])
  have hparse := defaultReserved_separates.parse_eq_ok_iff crc true s last a.payload
  rw [hbody] at hfilter ⊢
  rw [hparse, ← hfilter, List.filter_append]
  constructor
  · intro heq
    by_contra hnot
    have hmem : last ∉ defaultReserved := by
      intro hmem
      refine hnot ⟨s, last, ?_, rfl⟩
      simp only [defaultReserved, lineJunk, List.mem_cons, List.not_mem_nil, or_false] at hmem ⊢
      rcases hmem with h | h | h | h
      · exact .inl h
      · exact absurd h hlast
      · exact .inr (.inl h)
      · exact .inr (.inr h)
    simp [hmem] at heq
  · rintro ⟨s', b, hb, heq⟩
    obtain ⟨-, hsame⟩ := List.append_inj' heq rfl
    have hmem : last ∈ defaultReserved := by
      rw [List.singleton_inj.mp hsame]
      exact mem_defaultReserved_of_lineJunk hb
    simp [hmem]

def asSent (crc : Bytes → UInt32) (x : Bytes) : Arrival crc where
  payload := x
  body := rudicsBody defaultReserved (withCrc crc true x)
  junked := .refl _ _

theorem asSent_not_endsInJunk (x : Bytes) : ¬EndsInJunk (asSent crc x).body := by
  rintro ⟨s, b, hb, heq⟩
  have hmem : b ∈ rudicsBody defaultReserved (withCrc crc true x) := by
    rw [show rudicsBody defaultReserved (withCrc crc true x) = s ++ [b] from heq]
    simp
  exact defaultReserved_separates.not_mem hmem (mem_defaultReserved_of_lineJunk hb)

end Arrival

theorem mobileReceive_arrivals (crc : Bytes → UInt32) (arrivals : List (Arrival crc))
    {chunks : List Bytes}
    (h : chunks.flatten = LineReader.terminated carriageReturn (arrivals.map Arrival.body)) :
    mobileReceive crc chunks = arrivals.map Arrival.payload ↔
      ∀ a ∈ arrivals, EndsInJunk a.body ∧ ¬IsText a.body := by
  have hclean : ∀ line ∈ arrivals.map Arrival.body, carriageReturn ∉ line := by
    intro line hline
    obtain ⟨a, -, rfl⟩ := List.mem_map.mp hline
    exact a.carriageReturn_not_mem
  rw [mobileReceive, LineReader.receiveAll_lines rfl hclean h, List.filterMap_map,
    List.filterMap_eq_map_iff_forall_eq_some]
  refine forall₂_congr fun a _ => ?_
  rw [Function.comp_apply, bytes?_onCallReact, a.parse_iff]
  exact and_comm

/-- Of packets that arrive with any junk and in any chunks, all are received if and only if
there is junk right before every carriage return and none is taken for a message. Of packets as
they are serialized, all are received only if there are none. -/
theorem mobile_receive_iff (crc : Bytes → UInt32) :
    (∀ (arrivals : List (Arrival crc)) (chunks : List Bytes),
      chunks.flatten = LineReader.terminated carriageReturn (arrivals.map Arrival.body) →
      (mobileReceive crc chunks = arrivals.map Arrival.payload ↔
        ∀ a ∈ arrivals, EndsInJunk a.body ∧ ¬IsText a.body)) ∧
    ∀ (xs : List Bytes) (chunks : List Bytes),
      chunks.flatten = (xs.map fun x => serializeRudicsPacket crc x).flatten →
      (mobileReceive crc chunks = xs ↔ xs = []) := by
  refine ⟨fun arrivals chunks h => mobileReceive_arrivals crc arrivals h, fun xs chunks h => ?_⟩
  have hpayloads : (xs.map (Arrival.asSent crc)).map Arrival.payload = xs := by
    rw [List.map_map]
    exact List.map_id xs
  have hbodies : chunks.flatten = LineReader.terminated carriageReturn
      ((xs.map (Arrival.asSent crc)).map Arrival.body) := by
    rw [h, LineReader.terminated, List.map_map, List.map_map]
    rfl
  have hiff := mobileReceive_arrivals crc (xs.map (Arrival.asSent crc)) hbodies
  rw [hpayloads] at hiff
  rw [hiff]
  constructor
  · intro hall
    refine List.eq_nil_iff_forall_not_mem.mpr fun x hx => ?_
    exact Arrival.asSent_not_endsInJunk x (hall _ (List.mem_map_of_mem hx)).1
  · rintro rfl a ha
    cases ha

/-- A line feed before the carriage return is dropped in its place. -/
def lineFeedArrival : Arrival crc32 where
  payload := [0x01]
  body := rudicsBody defaultReserved (withCrc crc32 true [0x01]) ++ [0x0A]
  junked := by
    generalize rudicsBody defaultReserved (withCrc crc32 true [0x01]) = s
    induction s with
    | nil => exact .junk (by decide) .nil
    | cons b s ih => exact .keep b ih

theorem mobile_receive_iff_lineFeed :
    mobileReceive crc32 [lineFeedArrival.body, [carriageReturn]] = [[0x01]] :=
  ((mobile_receive_iff crc32).1 [lineFeedArrival] [lineFeedArrival.body, [carriageReturn]]
    (by simp)).mpr (by
      intro a ha
      rw [List.mem_singleton.mp ha]
      exact ⟨⟨_, 0x0A, by decide, rfl⟩, by decide +kernel⟩)

/-- A packet that arrives as it was sent is lost. -/
theorem packet_lost :
    mobileReceive crc32 [serializeRudicsPacket crc32 [0x01]] = [] ∧
      onCallReact crc32 (rudicsBody defaultReserved (withCrc crc32 true [0x01])) =
        .undecodable ⟨"Bad CRC32"⟩ := by
  decide +kernel

end Goby
