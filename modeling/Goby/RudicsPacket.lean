import Goby.PaddedNumerals
import Goby.TransmissionMessages

/-! A packet is the payload, with a checksum unless it is left out, converted as one number to a
base that is smaller by the number of reserved characters. The digits that are reserved are
then replaced by the bytes above the base, so that reserved characters in a packet can only be
junk, and a carriage return ends it. -/

namespace Goby

def carriageReturn : UInt8 := 0x0D

structure BaseConversion where
  base10 : ℕ := 0
  msZeros : ℕ := 0
  nonZeroByte : Bool := false

/-- The loop over the source, from its most significant byte on. -/
def readSource (sourceBase : ℕ) : Bytes → BaseConversion → BaseConversion
  | [], s => s
  | byte :: rest, s => readSource sourceBase rest
      { base10 := if rest = [] then s.base10 + byte.toNat else (s.base10 + byte.toNat) * sourceBase
        msZeros := if byte = 0 ∧ s.nonZeroByte = false then s.msZeros + 1 else s.msZeros
        nonZeroByte := if byte = 0 ∧ s.nonZeroByte = false then false else true }

variable (source : Bytes)

/-- The digits of the sink are the remainders of repeated division. -/
def baseConvert (sourceBase sinkBase : ℕ) : Bytes :=
  let s := readSource sourceBase source.reverse {}
  (Nat.digits sinkBase s.base10).map UInt8.ofNat ++ List.replicate s.msZeros 0

/-- The loop over the sink, if it ends within a number of rounds. -/
def fillSink (sinkBase : ℕ) : ℕ → ℕ → Bytes → Option Bytes
  | 0, base10, sink => if base10 = 0 then some sink else none
  | rounds + 1, base10, sink =>
    if base10 = 0 then some sink
    else fillSink sinkBase rounds (base10 / sinkBase) (sink ++ [UInt8.ofNat (base10 % sinkBase)])

def baseConvertWithin (rounds : ℕ) (source : Bytes) (sourceBase sinkBase : ℕ) : Option Bytes :=
  let s := readSource sourceBase source.reverse {}
  (fillSink sinkBase rounds s.base10 []).map (· ++ List.replicate s.msZeros 0)

structure RudicsPacketException where
  what : String
  deriving DecidableEq

/-- Network byte order. -/
def uint32ToByteString (i : UInt32) : Bytes :=
  [24, 16, 8, 0].map fun shift => UInt8.ofNat (i.toNat / 2 ^ shift)

def byteStringToUint32 (s : Bytes) : UInt32 :=
  UInt32.ofNat ((s.take 4).foldl (fun n b => n * 256 + b.toNat) 0)

def replaceByte (old new : UInt8) (s : Bytes) : Bytes := s.map fun b => if b = old then new else b

def replaceBytes (pairs : List (UInt8 × UInt8)) (s : Bytes) : Bytes :=
  pairs.foldl (fun s pair => replaceByte pair.1 pair.2 s) s

def reducedBase (reserved : Bytes) : ℕ := 256 - reserved.length

def standIns (reserved : Bytes) : List (UInt8 × UInt8) :=
  reserved.zipIdx.map fun e => (e.1, UInt8.ofNat (reducedBase reserved + e.2))

def defaultReserved : Bytes := [0x00, 0x0D, 0x0A, 0xFF]

variable (crc : Bytes → UInt32) {s : Bytes}

def serializeRudicsPacket (bytes : Bytes)
    (reserved : Bytes := defaultReserved) (includeCrc : Bool := true) : Bytes :=
  let bytes := if includeCrc then bytes ++ uint32ToByteString (crc bytes) else bytes
  let rudicsPkt := baseConvert bytes 256 (reducedBase reserved)
  replaceBytes (standIns reserved) rudicsPkt ++ [carriageReturn]

/-- The last four bytes are the checksum of the others. -/
def checkCrc (bytes : Bytes) : Except RudicsPacketException Bytes :=
  if bytes.length < 4 then .error ⟨"Packet too short for CRC32"⟩
  else
    let givenCrc := byteStringToUint32 (bytes.drop (bytes.length - 4))
    let bytes := bytes.take (bytes.length - 4)
    if givenCrc ≠ crc bytes then .error ⟨"Bad CRC32"⟩ else .ok bytes

def parseRudicsPacket (rudicsPkt : Bytes)
    (reserved : Bytes := defaultReserved) (includeCrc : Bool := true) :
    Except RudicsPacketException Bytes :=
  if rudicsPkt.length < 1 then .error ⟨"Packet too short for <CR>"⟩
  else
    let rudicsPkt := rudicsPkt.take (rudicsPkt.length - 1)
    let rudicsPkt := rudicsPkt.filter fun b => b ∉ reserved
    let rudicsPkt := replaceBytes ((standIns reserved).map Prod.swap) rudicsPkt
    let bytes := baseConvert rudicsPkt (reducedBase reserved) 256
    if includeCrc then checkCrc crc bytes else .ok bytes

theorem readSource_base10 (sourceBase : ℕ) (byte : UInt8) (rest : Bytes) (s : BaseConversion) :
    (readSource sourceBase (byte :: rest) s).base10 = s.base10 * sourceBase ^ rest.length +
      Nat.ofDigits sourceBase ((byte :: rest).reverse.map UInt8.toNat) := by
  induction rest generalizing byte s with
  | nil => simp [readSource]
  | cons next rest ih =>
    have hdigits : Nat.ofDigits sourceBase ((byte :: next :: rest).reverse.map UInt8.toNat) =
        Nat.ofDigits sourceBase ((next :: rest).reverse.map UInt8.toNat) +
          sourceBase ^ (rest.length + 1) * byte.toNat := by
      rw [List.reverse_cons, List.map_append, Nat.ofDigits_append]
      simp
    rw [readSource, ih, hdigits]
    simp only [List.length_cons, reduceCtorEq, ↓reduceIte, pow_succ]
    ring

theorem readSource_msZeros (sourceBase : ℕ) (source : Bytes) (s : BaseConversion) :
    (readSource sourceBase source s).msZeros = s.msZeros +
      if s.nonZeroByte then 0 else ((source.map UInt8.toNat).takeWhile (· = 0)).length := by
  induction source generalizing s with
  | nil => simp [readSource]
  | cons byte rest ih =>
    rw [readSource, ih]
    by_cases hbyte : byte = 0
    · cases hs : s.nonZeroByte with
      | false =>
        simp [hbyte]
        omega
      | true => simp
    · have hnat : byte.toNat ≠ 0 := fun h => hbyte (UInt8.toNat_inj.mp h)
      simp [hbyte, hnat]

theorem baseConvert_eq (sourceBase sinkBase : ℕ) :
    baseConvert source sourceBase sinkBase =
      (Numeral.convert sourceBase sinkBase (source.map UInt8.toNat)).map UInt8.ofNat := by
  have hbase : (readSource sourceBase source.reverse {}).base10 =
      Nat.ofDigits sourceBase (source.map UInt8.toNat) := by
    cases hrev : source.reverse with
    | nil =>
      rw [List.reverse_eq_nil_iff.mp hrev]
      rfl
    | cons byte rest =>
      rw [readSource_base10, ← hrev, List.reverse_reverse, Nat.zero_mul, Nat.zero_add]
  have hzeros : (readSource sourceBase source.reverse {}).msZeros =
      Numeral.msZeros (source.map UInt8.toNat) := by
    rw [readSource_msZeros, Numeral.msZeros, List.map_reverse]
    simp
  simp only [baseConvert, hbase, hzeros, Numeral.convert, List.map_append, List.map_replicate]
  rfl

theorem map_toNat_ofNat {l : List ℕ} (h : ∀ d ∈ l, d < 256) :
    (l.map UInt8.ofNat).map UInt8.toNat = l := by
  rw [List.map_map]
  refine (List.map_congr_left fun d hd => ?_).trans (List.map_id l)
  exact UInt8.toNat_ofNat_of_lt (h d hd)

theorem toNat_baseConvert (sourceBase : ℕ) {sinkBase : ℕ} (hb : 1 < sinkBase)
    (hle : sinkBase ≤ 256) :
    (baseConvert source sourceBase sinkBase).map UInt8.toNat =
      Numeral.convert sourceBase sinkBase (source.map UInt8.toNat) := by
  rw [baseConvert_eq]
  exact map_toNat_ofNat fun d hd => (Numeral.convert_lt hb d hd).trans_le hle

theorem baseConvert_baseConvert {b b' : ℕ} (hb : 1 < b) (hb' : 1 < b') (hle' : b' ≤ 256)
    (hs : ∀ d ∈ s, d.toNat < b) : baseConvert (baseConvert s b b') b' b = s := by
  have hdigits : ∀ d ∈ s.map UInt8.toNat, d < b := by
    intro d hd
    obtain ⟨byte, hbyte, rfl⟩ := List.mem_map.mp hd
    exact hs byte hbyte
  rw [baseConvert_eq, toNat_baseConvert s b hb' hle', Numeral.convert_convert hb b' hdigits,
    List.map_map]
  exact (List.map_congr_left fun d _ => UInt8.ofNat_toNat).trans (List.map_id s)

theorem fillSink_eq {sinkBase rounds base10 : ℕ} (hb : 1 < sinkBase)
    (hrounds : (Nat.digits sinkBase base10).length ≤ rounds) (sink : Bytes) :
    fillSink sinkBase rounds base10 sink =
      some (sink ++ (Nat.digits sinkBase base10).map UInt8.ofNat) := by
  induction rounds generalizing base10 sink with
  | zero =>
    have hzero : base10 = 0 := Nat.digits_eq_nil_iff_eq_zero.mp (by simpa using hrounds)
    simp [fillSink, hzero]
  | succ rounds ih =>
    rw [fillSink]
    split_ifs with hzero
    · simp [hzero]
    · have hdigits := Nat.digits_def' hb (Nat.pos_of_ne_zero hzero)
      rw [hdigits, List.length_cons] at hrounds
      rw [ih (Nat.le_of_succ_le_succ hrounds), hdigits, List.map_cons, List.append_assoc,
        List.singleton_append]

def Converts (sourceBase sinkBase : ℕ) (sink : Bytes) : Prop :=
  ∃ enough, ∀ rounds, enough ≤ rounds →
    baseConvertWithin rounds source sourceBase sinkBase = some sink

theorem converts_baseConvert (sourceBase : ℕ) {sinkBase : ℕ} (hb : 1 < sinkBase) :
    Converts source sourceBase sinkBase (baseConvert source sourceBase sinkBase) := by
  refine ⟨(Nat.digits sinkBase (readSource sourceBase source.reverse {}).base10).length, ?_⟩
  intro rounds hrounds
  rw [baseConvertWithin, fillSink_eq hb hrounds, List.nil_append, Option.map_some, baseConvert]

theorem lt_of_mem_baseConvert {source : Bytes} {sourceBase sinkBase : ℕ} (hb : 1 < sinkBase)
    (hle : sinkBase ≤ 256) {d : UInt8} (hd : d ∈ baseConvert source sourceBase sinkBase) :
    d.toNat < sinkBase := by
  have hmem := List.mem_map_of_mem (f := UInt8.toNat) hd
  rw [toNat_baseConvert source sourceBase hb hle] at hmem
  exact Numeral.convert_lt hb _ hmem

/-- There and back between any two bases. That the source base is at most 256 is not needed. -/
theorem baseConvert_lossless {b c : ℕ} (hb : 2 ≤ b) (hc : 2 ≤ c) (hc' : c ≤ 256) {x : Bytes}
    (hx : ∀ d ∈ x, d.toNat < b) :
    ∃ y, Converts x b c y ∧ (∀ d ∈ y, d.toNat < c) ∧ Converts y c b x := by
  refine ⟨baseConvert x b c, converts_baseConvert x b hc, fun d hd => ?_, ?_⟩
  · exact lt_of_mem_baseConvert hc hc' hd
  · have hback := converts_baseConvert (baseConvert x b c) c hb
    rwa [baseConvert_baseConvert hb hc hc' hx] at hback

/-- The numeral of the test, from base three to base nine, with a zero in front of it. -/
theorem baseConvert_lossless_sample :
    (∀ d ∈ ([2, 1, 0, 0, 2, 2, 2, 0, 1, 1, 0] : Bytes), d.toNat < 3) ∧
      ∃ y, Converts [2, 1, 0, 0, 2, 2, 2, 0, 1, 1, 0] 3 9 y ∧ (∀ d ∈ y, d.toNat < 9) ∧
        Converts y 9 3 [2, 1, 0, 0, 2, 2, 2, 0, 1, 1, 0] :=
  ⟨by decide +kernel, baseConvert_lossless (by decide) (by decide) (by decide) (by decide +kernel)⟩

def substitute (pairs : List (UInt8 × UInt8)) (b : UInt8) : UInt8 :=
  pairs.foldl (fun b pair => if b = pair.1 then pair.2 else b) b

theorem replaceBytes_eq_map (pairs : List (UInt8 × UInt8)) (s : Bytes) :
    replaceBytes pairs s = s.map (substitute pairs) := by
  induction pairs generalizing s with
  | nil => exact (List.map_id s).symm
  | cons pair pairs ih =>
    rw [replaceBytes, List.foldl_cons, ← replaceBytes, ih, replaceByte, List.map_map]
    rfl

/-- The digits of the reduced base and the characters that are not reserved stand for each
other. -/
structure Separates (reserved : Bytes) : Prop where
  base : 1 < reducedBase reserved
  digits : ∀ d < reducedBase reserved,
    substitute (standIns reserved) (UInt8.ofNat d) ∉ reserved ∧
      substitute ((standIns reserved).map Prod.swap)
        (substitute (standIns reserved) (UInt8.ofNat d)) = UInt8.ofNat d
  characters : ∀ n < 256, UInt8.ofNat n ∉ reserved →
    (substitute ((standIns reserved).map Prod.swap) (UInt8.ofNat n)).toNat < reducedBase reserved ∧
      substitute (standIns reserved)
        (substitute ((standIns reserved).map Prod.swap) (UInt8.ofNat n)) = UInt8.ofNat n

theorem defaultReserved_separates : Separates defaultReserved :=
  ⟨by decide, by decide +kernel, by decide +kernel⟩

theorem carriageReturn_separates : Separates [carriageReturn] :=
  ⟨by decide, by decide +kernel, by decide +kernel⟩

theorem reducedBase_le (reserved : Bytes) : reducedBase reserved ≤ 256 := Nat.sub_le _ _

def rudicsBody (reserved bytes : Bytes) : Bytes :=
  replaceBytes (standIns reserved) (baseConvert bytes 256 (reducedBase reserved))

def payload (reserved body : Bytes) : Bytes :=
  baseConvert (replaceBytes ((standIns reserved).map Prod.swap) body) (reducedBase reserved) 256

section Separates

variable {reserved : Bytes} (h : Separates reserved) {bytes : Bytes}
include h

theorem Separates.mem_baseConvert {b : UInt8}
    (hb : b ∈ baseConvert bytes 256 (reducedBase reserved)) :
    ∃ d < reducedBase reserved, b = UInt8.ofNat d := by
  rw [baseConvert_eq] at hb
  obtain ⟨d, hd, rfl⟩ := List.mem_map.mp hb
  exact ⟨d, Numeral.convert_lt h.base d hd, rfl⟩

theorem Separates.not_mem {b : UInt8} (hb : b ∈ rudicsBody reserved bytes) : b ∉ reserved := by
  rw [rudicsBody, replaceBytes_eq_map] at hb
  obtain ⟨c, hc, rfl⟩ := List.mem_map.mp hb
  obtain ⟨d, hd, rfl⟩ := h.mem_baseConvert hc
  exact (h.digits d hd).1

theorem Separates.payload_rudicsBody (bytes : Bytes) :
    payload reserved (rudicsBody reserved bytes) = bytes := by
  have hback : replaceBytes ((standIns reserved).map Prod.swap) (rudicsBody reserved bytes) =
      baseConvert bytes 256 (reducedBase reserved) := by
    rw [rudicsBody, replaceBytes_eq_map, replaceBytes_eq_map, List.map_map]
    refine (List.map_congr_left fun b hb => ?_).trans (List.map_id _)
    obtain ⟨d, hd, rfl⟩ := h.mem_baseConvert hb
    exact (h.digits d hd).2
  rw [payload, hback]
  exact baseConvert_baseConvert (by decide) h.base (reducedBase_le reserved) fun d _ => d.toNat_lt

theorem Separates.rudicsBody_ne_nil (hb : bytes ≠ []) : rudicsBody reserved bytes ≠ [] := by
  intro hnil
  have hpayload := h.payload_rudicsBody bytes
  rw [hnil, payload, replaceBytes_eq_map] at hpayload
  exact hb hpayload.symm

theorem Separates.rudicsBody_payload (hs : ∀ b ∈ s, b ∉ reserved) :
    rudicsBody reserved (payload reserved s) = s := by
  have hchar : ∀ b ∈ s, (substitute ((standIns reserved).map Prod.swap) b).toNat <
      reducedBase reserved ∧ substitute (standIns reserved)
        (substitute ((standIns reserved).map Prod.swap) b) = b := by
    intro b hb
    have hnat := h.characters b.toNat b.toNat_lt
    rw [UInt8.ofNat_toNat] at hnat
    exact hnat (hs b hb)
  rw [rudicsBody, payload, baseConvert_baseConvert h.base (by decide) (by decide),
    replaceBytes_eq_map, replaceBytes_eq_map, List.map_map]
  · exact (List.map_congr_left fun b hb => (hchar b hb).2).trans (List.map_id s)
  · intro d hd
    rw [replaceBytes_eq_map] at hd
    obtain ⟨b, hb, rfl⟩ := List.mem_map.mp hd
    exact (hchar b hb).1

end Separates

theorem byteStringToUint32_uint32ToByteString (i : UInt32) :
    byteStringToUint32 (uint32ToByteString i) = i := by
  have hlt := i.toNat_lt
  refine UInt32.toNat_inj.mp ?_
  simp only [byteStringToUint32, uint32ToByteString, List.map_cons, List.map_nil, List.take,
    List.foldl_cons, List.foldl_nil, UInt8.toNat_ofNat', UInt32.toNat_ofNat']
  omega

theorem uint32ToByteString_byteStringToUint32 (hs : s.length = 4) :
    uint32ToByteString (byteStringToUint32 s) = s := by
  match s, hs with
  | [a, b, c, d], _ =>
    have ha := a.toNat_lt
    have hb := b.toNat_lt
    have hc := c.toNat_lt
    have hd := d.toNat_lt
    simp only [byteStringToUint32, uint32ToByteString, List.map_cons, List.map_nil, List.take,
      List.foldl_cons, List.foldl_nil, UInt32.toNat_ofNat', List.cons.injEq, and_true]
    refine ⟨?_, ?_, ?_, ?_⟩ <;> refine UInt8.toNat_inj.mp ?_ <;> rw [UInt8.toNat_ofNat'] <;> omega

theorem checkCrc_append (bytes : Bytes) :
    checkCrc crc (bytes ++ uint32ToByteString (crc bytes)) = .ok bytes := by
  have hlen : (uint32ToByteString (crc bytes)).length = 4 := rfl
  simp [checkCrc, hlen, byteStringToUint32_uint32ToByteString]

/-- The payload with its checksum, unless that is left out. -/
def withCrc (includeCrc : Bool) (bytes : Bytes) : Bytes :=
  if includeCrc then bytes ++ uint32ToByteString (crc bytes) else bytes

theorem serializeRudicsPacket_eq (bytes reserved : Bytes) (includeCrc : Bool) :
    serializeRudicsPacket crc bytes reserved includeCrc =
      rudicsBody reserved (withCrc crc includeCrc bytes) ++ [carriageReturn] := rfl

inductive Junked (reserved : Bytes) : Bytes → Bytes → Prop
  | nil : Junked reserved [] []
  | keep (b : UInt8) {s s' : Bytes} (h : Junked reserved s s') : Junked reserved (b :: s) (b :: s')
  | junk {b : UInt8} (hb : b ∈ reserved) {s s' : Bytes} (h : Junked reserved s s') :
    Junked reserved s (b :: s')

theorem Junked.refl (reserved s : Bytes) : Junked reserved s s := by
  induction s with
  | nil => exact .nil
  | cons b s ih => exact .keep b ih

theorem Junked.filter {reserved s s' : Bytes} (h : Junked reserved s s')
    (hs : ∀ b ∈ s, b ∉ reserved) : (s'.filter fun b => b ∉ reserved) = s := by
  induction h with
  | nil => rfl
  | keep b _ ih =>
    rw [List.filter_cons_of_pos (by simpa using hs b List.mem_cons_self),
      ih fun c hc => hs c (List.mem_cons_of_mem _ hc)]
  | junk hb _ ih => rw [List.filter_cons_of_neg (by simpa using hb), ih hs]

theorem checkCrc_eq_ok_iff (bytes x : Bytes) :
    checkCrc crc bytes = .ok x ↔ bytes = x ++ uint32ToByteString (crc x) := by
  constructor
  · intro h
    unfold checkCrc at h
    split at h
    · cases h
    next hlen =>
      simp only at h
      split at h
      · cases h
      next hcrc =>
        obtain rfl := Except.ok.inj h
        have hfour : (bytes.drop (bytes.length - 4)).length = 4 := by
          rw [List.length_drop]
          omega
        rw [← not_ne_iff.mp hcrc, uint32ToByteString_byteStringToUint32 hfour, List.take_append_drop]
  · rintro rfl
    exact checkCrc_append crc x

/-- A packet is parsed to a payload if and only if it is the body for that payload but for junk;
the last character is not looked at. -/
theorem Separates.parse_eq_ok_iff {reserved : Bytes} (h : Separates reserved) (crc : Bytes → UInt32)
    (includeCrc : Bool) (s : Bytes) (last : UInt8) (x : Bytes) :
    parseRudicsPacket crc (s ++ [last]) reserved includeCrc = .ok x ↔
      (s.filter fun b => b ∉ reserved) = rudicsBody reserved (withCrc crc includeCrc x) := by
  have htake : (s ++ [last]).take ((s ++ [last]).length - 1) = s := by simp
  have hclean : ∀ b ∈ s.filter fun b => b ∉ reserved, b ∉ reserved := by
    intro b hb
    simpa using (List.mem_filter.mp hb).2
  have hparse : parseRudicsPacket crc (s ++ [last]) reserved includeCrc = .ok x ↔
      payload reserved (s.filter fun b => b ∉ reserved) = withCrc crc includeCrc x := by
    rw [parseRudicsPacket, if_neg (by simp)]
    simp only [htake]
    cases includeCrc with
    | false => exact ⟨Except.ok.inj, fun heq => congrArg Except.ok heq⟩
    | true => exact checkCrc_eq_ok_iff crc _ x
  rw [hparse]
  constructor
  · intro heq
    rw [← heq, h.rudicsBody_payload hclean]
  · intro heq
    rw [heq, h.payload_rudicsBody]

theorem Separates.parse_junked {reserved : Bytes} (h : Separates reserved) (crc : Bytes → UInt32)
    (includeCrc : Bool) (x : Bytes) {body : Bytes}
    (hbody : Junked reserved (rudicsBody reserved (withCrc crc includeCrc x)) body) (last : UInt8) :
    parseRudicsPacket crc (body ++ [last]) reserved includeCrc = .ok x :=
  (h.parse_eq_ok_iff crc includeCrc body last x).mpr (hbody.filter fun _ => h.not_mem)

/-- The packets of the two drivers: with the defaults, and as the Benthos driver frames them. -/
inductive RudicsFraming where
  | iridium | benthos
  deriving DecidableEq

def RudicsFraming.reserved : RudicsFraming → Bytes
  | .iridium => defaultReserved
  | .benthos => [carriageReturn]

def RudicsFraming.includeCrc : RudicsFraming → Bool
  | .iridium => true
  | .benthos => false

theorem RudicsFraming.separates (f : RudicsFraming) : Separates f.reserved := by
  cases f with
  | iridium => exact defaultReserved_separates
  | benthos => exact carriageReturn_separates

/-- A packet has no reserved characters before its carriage return, and is parsed to what was
serialized, with any junk inserted before that. -/
theorem rudics_round_trip (f : RudicsFraming) (crc : Bytes → UInt32) (x : Bytes) :
    ∃ body, serializeRudicsPacket crc x f.reserved f.includeCrc = body ++ [carriageReturn] ∧
      (∀ b ∈ body, b ∉ f.reserved) ∧
      parseRudicsPacket crc (body ++ [carriageReturn]) f.reserved f.includeCrc = .ok x ∧
      ∀ body', Junked f.reserved body body' →
        parseRudicsPacket crc (body' ++ [carriageReturn]) f.reserved f.includeCrc = .ok x := by
  refine ⟨_, serializeRudicsPacket_eq crc x f.reserved f.includeCrc,
    fun b => f.separates.not_mem, ?_, fun body' hbody => ?_⟩
  · exact f.separates.parse_junked crc f.includeCrc x (.refl _ _) carriageReturn
  · exact f.separates.parse_junked crc f.includeCrc x hbody carriageReturn

example : serializeRudicsPacket (fun _ => 0) [13, 0] [carriageReturn] false = [255, 0, 13] := by
  decide +kernel

end Goby
