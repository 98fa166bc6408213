import Goby.BenthosEvents
import Goby.BenthosFraming
import Goby.LexicalCasts

/-! The state `ReceiveData` is made from the line that announces a packet with its size and first
bytes. Lines are more bytes until the size is reached. Then the addresses and the statistics are
read, and the end of the packet hands over the message, which is parsed if the CRC passed. An
exception ends the packet without a message.

Whatever way the bytes are broken into lines, the message is received as it was sent, except for
its destination: what is read is the address that was dialed, which for a broadcast is the one of
the modem and not `BROADCAST_ID`. -/

namespace Goby

inductive CrcState where
  | pass | fail
  deriving DecidableEq

/-- `ReceiveStatistics`. As an accessor does, the CRC passes where none was set. -/
structure ReceiveStatistics where
  crc : CrcState := .pass
  multipathDelay : Option ℚ := none
  snr : Option ℚ := none
  relativeSpeed : Option ℚ := none
  autoGainControl : Option ℚ := none
  correctedChannelError : Option ℤ := none
  deriving DecidableEq

/-- The state's members, with the statistics beside the message whose extension they are. -/
structure ReceiveData where
  rxMsg : DriverTransmission := {}
  rxStats : ReceiveStatistics := {}
  reportedSize : ℕ
  encodedBytes : Bytes
  deriving DecidableEq

/-- `boost::erase_all` of blanks. -/
def eraseBlanks (s : Bytes) : Bytes := s.filter (· ≠ 0x20)

/-- `boost::split` of a trimmed string at blanks, any number of them taken as one. -/
def splitBlanks (s : Bytes) : List Bytes := (s.splitOn 0x20).filter (· ≠ [])

namespace ReceiveData

def receiveStart (first : Bytes) : Reception ReceiveData :=
  let first := eraseBlanks first
  if first.length < 11 then .done none
  else
    match lexicalCastUnsigned (trimZeros ((first.drop 5).take 4)) with
    | none => .done none
    | some size => .more { reportedSize := size, encodedBytes := hexDecode (first.drop 11) }

/-- An address after a label of some length, where `000` is zero. -/
def readId (token : Bytes) (start : ℕ) : Option ℤ :=
  if token.length < start then none
  else
    let idStr := trimZeros (token.drop start)
    (lexicalCastUnsigned (if idStr = [] then ascii "0" else idStr)).map fun (id : ℕ) => toInt id

def readAddresses (text : Bytes) (msg : DriverTransmission) : Option DriverTransmission :=
  match splitBlanks text with
  | [source, destination] => do
    let src ← readId source 7
    let dest ← readId destination 12
    pure { msg with
      src := src
      dest := some dest }
  | _ => none

inductive StatField where
  | crc | mpd | agc | snr | spd | ccerr
  deriving DecidableEq

def statMap : List (Bytes × StatField) :=
  [(ascii "CRC", .crc), (ascii "MPD", .mpd), (ascii "SNR", .snr), (ascii "AGC", .agc),
    (ascii "SPD", .spd), (ascii "CCERR", .ccerr)]

/-- The value without white space, sign and leading zeros. -/
def statValue (val : Bytes) : Bytes :=
  let valStr := (trimCopy val).dropWhile fun b => b = 0x2B ∨ b = 0x30
  if valStr = [] then ascii "0" else valStr

/-- The delay is in milliseconds and the speed in knots. -/
def setStat (stats : ReceiveStatistics) (field : StatField) (val : ℚ) : ReceiveStatistics :=
  match field with
  | .crc => stats
  | .mpd => { stats with multipathDelay := some (val / 1000) }
  | .snr => { stats with snr := some val }
  | .agc => { stats with autoGainControl := some val }
  | .spd => { stats with relativeSpeed := some (val * (1852 / 3600)) }
  | .ccerr => { stats with correctedChannelError := some (truncate val) }

section

variable (codec : BenthosHeaderCodec) (lexicalCastFloat : Bytes → Option ℚ)

/-- One of the statistics. What has no colon or an unknown key is skipped. -/
def readStat (stats : ReceiveStatistics) (token : Bytes) : Option ReceiveStatistics :=
  let colPos := token.findIdx (· = 0x3A)
  if colPos = token.length then some stats
  else
    match statMap.lookup (token.take colPos) with
    | none => some stats
    | some .crc =>
      some { stats with
        crc := if statValue (token.drop (colPos + 1)) = ascii "Pass" then .pass else .fail }
    | some field => (lexicalCastFloat (statValue (token.drop (colPos + 1)))).map (setStat stats field)

def receiveLine (r : ReceiveData) (line : Bytes) : Reception ReceiveData :=
  let text := trimCopy line
  if text = ascii "<EOP>" then
    if r.rxStats.crc = .pass then
      .done ((parseBenthosModemMessage codec r.encodedBytes r.rxMsg.toModemTransmission).map fun msg =>
        { r.rxMsg with toModemTransmission := msg })
    else .done (some r.rxMsg)
  else if r.encodedBytes.length < r.reportedSize then
    .more { r with encodedBytes := r.encodedBytes ++ hexDecode (eraseBlanks text) }
  else if ascii "Source" <+: text then
    match readAddresses text r.rxMsg with
    | some msg => .more { r with rxMsg := msg }
    | none => .done none
  else if ascii "CRC" <+: text then
    match (splitBlanks text).foldlM (readStat lexicalCastFloat) r.rxStats with
    | some stats => .more { r with rxStats := stats }
    | none => .done none
  else .more r

end

@[simp] theorem eraseBlanks_append (s s' : Bytes) :
    eraseBlanks (s ++ s') = eraseBlanks s ++ eraseBlanks s' := List.filter_append s s'

theorem eraseBlanks_of_not_mem {s : Bytes} (h : 0x20 ∉ s) : eraseBlanks s = s := by
  refine List.filter_eq_self.mpr fun b hb => decide_eq_true ?_
  rintro rfl
  exact h hb

theorem blank_not_mem_zeroPadded (width n : ℕ) : 0x20 ∉ zeroPadded width n := by
  intro h
  exact absurd (isDigit_zeroPadded width n _ h) (by decide)

theorem trimCopy_eq_nil {line : Bytes}
    (h : eraseBlanks (trimCopy line) = []) : trimCopy line = [] := by
  by_contra hne
  have hy : (line.dropWhile isSpace).reverse.dropWhile isSpace ≠ [] :=
    fun hnil => hne (congrArg List.reverse hnil)
  have hspace := List.head_dropWhile_not isSpace hy
  have hmem : ((line.dropWhile isSpace).reverse.dropWhile isSpace).head hy ∈ trimCopy line :=
    List.mem_reverse.mpr (List.head_mem hy)
  have hblank := List.filter_eq_nil_iff.mp h _ hmem
  rw [not_not.mp fun hb => hblank (decide_eq_true hb)] at hspace
  exact absurd hspace (by decide)

variable {token : Bytes}

theorem ne_blank_of_not_mem (h : 0x20 ∉ token) : ∀ b ∈ token, (b == 0x20) = false := by
  intro b hb
  refine beq_eq_false_iff_ne.mpr ?_
  rintro rfl
  exact h hb

theorem splitOn_blank (h : 0x20 ∉ token) (rest : Bytes) :
    (token ++ 0x20 :: rest).splitOn 0x20 = token :: rest.splitOn 0x20 :=
  List.splitOnP_append_cons_of_forall_mem (ne_blank_of_not_mem h) 0x20 (beq_self_eq_true _) rest

theorem splitBlanks_append (hne : token ≠ []) (h : 0x20 ∉ token) (rest : Bytes) :
    splitBlanks (token ++ 0x20 :: rest) = token :: splitBlanks rest := by
  rw [splitBlanks, splitOn_blank h, List.filter_cons, if_pos (decide_eq_true hne)]
  rfl

theorem splitBlanks_token (hne : token ≠ []) (h : 0x20 ∉ token) : splitBlanks token = [token] := by
  have hsplit : token.splitOn 0x20 = [token] := List.splitOnP_eq_singleton (ne_blank_of_not_mem h)
  rw [splitBlanks, hsplit, List.filter_cons, if_pos (decide_eq_true hne)]
  rfl

theorem splitBlanks_cons (rest : Bytes) : splitBlanks (0x20 :: rest) = splitBlanks rest := by
  have hsplit : (0x20 :: rest).splitOn (0x20 : UInt8) = [] :: rest.splitOn 0x20 :=
    splitOn_blank List.not_mem_nil rest
  rw [splitBlanks, hsplit]
  rfl

theorem splitBlanks_replicate (n : ℕ) (rest : Bytes) :
    splitBlanks (List.replicate n 0x20 ++ rest) = splitBlanks rest := by
  induction n with
  | zero => rfl
  | succ n ih => rw [List.replicate_succ, List.cons_append, splitBlanks_cons, ih]

end ReceiveData

def HexText (bytes text : Bytes) : Prop := ∃ upperCase, eraseBlanks text = hexEncode bytes upperCase

theorem HexText.ne_endOfPacket {piece text : Bytes}
    (h : HexText piece text) : text ≠ ascii "<EOP>" := by
  obtain ⟨upperCase, hhex⟩ := h
  rintro rfl
  have hlength := congrArg List.length hhex
  have hfive : (eraseBlanks (ascii "<EOP>")).length = 5 := by decide +kernel
  rw [hfive, length_hexEncode] at hlength
  omega

def announcement (size : ℕ) : Bytes := ascii "DATA(" ++ zeroPadded 4 size ++ ascii "):"

def addressToken (label : String) (id : ℕ) : Bytes := ascii label ++ zeroPadded 3 id

/-- A statistic other than the CRC, such as `MPD:03.2`, with a value that is a number. -/
def Statistic (lexicalCastFloat : Bytes → Option ℚ) (token : Bytes) : Prop :=
  ∃ key ∈ ["MPD", "SNR", "AGC", "SPD", "CCERR"], ∃ val, token = ascii key ++ 0x3A :: val ∧
    (lexicalCastFloat (ReceiveData.statValue val)).isSome

/-- The lines for a packet received from one address and meant for another. White space around
a line does not matter. -/
structure PrintedPacket (lexicalCastFloat : Bytes → Option ℚ) (bytes : Bytes) (src dest : ℕ) where
  first : Bytes
  data : List Bytes
  addresses : Bytes
  statistics : Bytes
  last : Bytes
  prints_data : ∃ head body pieces, bytes = head ++ pieces.flatten ∧
    trimCopy first = announcement bytes.length ++ body ∧ HexText head body ∧
    List.Forall₂ (fun piece line => HexText piece (trimCopy line)) pieces data
  prints_addresses : ∃ blanks, trimCopy addresses =
    addressToken "Source:" src ++ List.replicate (blanks + 1) 0x20 ++ addressToken "Destination:" dest
  prints_statistics : ∃ rest, trimCopy statistics = ascii "CRC:Pass" ++ rest ∧
    (rest = [] ∨ ∃ rest', rest = 0x20 :: rest') ∧
    ∀ token ∈ splitBlanks rest, Statistic lexicalCastFloat token
  prints_last : trimCopy last = ascii "<EOP>"

namespace ReceiveData

theorem length_announcement (size : ℕ) : (announcement size).length = 11 := by
  simp only [announcement, List.length_append, length_zeroPadded]
  rfl

theorem blank_not_mem_announcement (size : ℕ) : 0x20 ∉ announcement size := by
  have hlabel : 0x20 ∉ ascii "DATA(" := by decide +kernel
  have hclose : 0x20 ∉ ascii "):" := by decide +kernel
  simp only [announcement, List.mem_append, not_or]
  exact ⟨⟨hlabel, blank_not_mem_zeroPadded 4 size⟩, hclose⟩

theorem announcement_size (size : ℕ) (rest : Bytes) :
    ((announcement size ++ rest).drop 5).take 4 = zeroPadded 4 size := by
  have hdrop : (announcement size ++ rest).drop 5 = zeroPadded 4 size ++ (ascii "):" ++ rest) := by
    rw [announcement, List.append_assoc, List.append_assoc]
    exact List.drop_left' rfl
  rw [hdrop]
  exact List.take_left' (length_zeroPadded 4 size)

theorem receiveStart_announcement {size : ℕ} (hpos : 0 < size) (hsize : size < 10000)
    {head body : Bytes} (h : HexText head body) :
    receiveStart (announcement size ++ body) =
      .more { reportedSize := size, encodedBytes := head } := by
  obtain ⟨upperCase, hhex⟩ := h
  have herase : eraseBlanks (announcement size ++ body) = announcement size ++ hexEncode head upperCase := by
    rw [eraseBlanks_append, eraseBlanks_of_not_mem (blank_not_mem_announcement size), hhex]
  have hlength : ¬ (announcement size ++ hexEncode head upperCase).length < 11 := by
    rw [List.length_append, length_announcement]
    omega
  have hcast : lexicalCastUnsigned (trimZeros (zeroPadded 4 size)) = some size :=
    lexicalCastUnsigned_padded hsize (by omega) hpos
  have hdrop : (announcement size ++ hexEncode head upperCase).drop 11 = hexEncode head upperCase :=
    List.drop_left' (length_announcement size)
  simp only [receiveStart, herase, if_neg hlength, announcement_size, hcast, hdrop, hexDecode_hexEncode]

section Lines

variable {codec : BenthosHeaderCodec} {lexicalCastFloat : Bytes → Option ℚ} {r : ReceiveData}
  {line : Bytes}

/-- A line of bytes is appended. When all bytes were read it is empty, and has no effect. -/
theorem receiveLine_data {piece : Bytes} (h : HexText piece (trimCopy line))
    (hlength : r.encodedBytes.length + piece.length ≤ r.reportedSize) :
    receiveLine codec lexicalCastFloat r line =
      .more { r with encodedBytes := r.encodedBytes ++ piece } := by
  have hne := h.ne_endOfPacket
  obtain ⟨upperCase, hhex⟩ := h
  by_cases hmore : r.encodedBytes.length < r.reportedSize
  · simp only [receiveLine, if_neg hne, if_pos hmore, hhex, hexDecode_hexEncode]
  · have hpiece : piece = [] := List.eq_nil_of_length_eq_zero (by omega)
    subst hpiece
    have hnil : trimCopy line = [] := trimCopy_eq_nil hhex
    have hsource : ¬ ascii "Source" <+: ([] : Bytes) := by decide +kernel
    have hcrc : ¬ ascii "CRC" <+: ([] : Bytes) := by decide +kernel
    rw [hnil] at hne
    simp only [receiveLine, hnil, if_neg hne, if_neg hmore, if_neg hsource, if_neg hcrc,
      List.append_nil]

theorem blank_not_mem_addressToken {label : String} (h : 0x20 ∉ ascii label) (id : ℕ) :
    0x20 ∉ addressToken label id := by
  simp only [addressToken, List.mem_append, not_or]
  exact ⟨h, blank_not_mem_zeroPadded 3 id⟩

theorem castId_zeroPadded {id : ℕ} (hid : id < 1000) :
    lexicalCastUnsigned (if trimZeros (zeroPadded 3 id) = [] then ascii "0"
      else trimZeros (zeroPadded 3 id)) = some id := by
  rcases Nat.eq_zero_or_pos id with rfl | hpos
  · decide +kernel
  · have hcast : lexicalCastUnsigned (trimZeros (zeroPadded 3 id)) = some id :=
      lexicalCastUnsigned_padded hid (by omega) hpos
    have hne : trimZeros (zeroPadded 3 id) ≠ [] := by
      intro hnil
      rw [hnil] at hcast
      exact absurd hcast nofun
    rw [if_neg hne, hcast]

theorem readId_addressToken (label : String) {id : ℕ} (hid : id < 1000) :
    readId (addressToken label id) (ascii label).length = some (id : ℤ) := by
  have hlength : ¬ (addressToken label id).length < (ascii label).length := by
    rw [addressToken, List.length_append]
    omega
  have hdrop : (addressToken label id).drop (ascii label).length = zeroPadded 3 id := List.drop_left
  have hint : toInt id = id := by
    rw [toInt, Int.bmod_eq_of_le (by omega) (by omega)]
  simp only [readId, if_neg hlength, hdrop, castId_zeroPadded hid, Option.map_some, hint]

theorem splitBlanks_addresses (src dest blanks : ℕ) :
    splitBlanks (addressToken "Source:" src ++ List.replicate (blanks + 1) 0x20 ++
      addressToken "Destination:" dest) =
      [addressToken "Source:" src, addressToken "Destination:" dest] := by
  have hsource : 0x20 ∉ addressToken "Source:" src :=
    blank_not_mem_addressToken (by decide +kernel) src
  have hdest : 0x20 ∉ addressToken "Destination:" dest :=
    blank_not_mem_addressToken (by decide +kernel) dest
  have hne : ∀ (label : String) (id : ℕ), addressToken label id ≠ [] := by
    intro label id hnil
    have := congrArg List.length hnil
    rw [addressToken, List.length_append, length_zeroPadded] at this
    simp at this
  rw [List.append_assoc, List.replicate_succ, List.cons_append,
    splitBlanks_append (hne _ _) hsource, splitBlanks_replicate, splitBlanks_token (hne _ _) hdest]

theorem prefix_addresses (src : ℕ) (rest : Bytes) :
    ascii "Source" <+: addressToken "Source:" src ++ rest := by
  have hlabel : ascii "Source" <+: ascii "Source:" := by decide +kernel
  rw [addressToken, List.append_assoc]
  exact hlabel.trans (List.prefix_append ..)

theorem receiveLine_addresses {src dest blanks : ℕ} (hsrc : src < 1000)
    (hdest : dest < 1000) (hall : r.reportedSize ≤ r.encodedBytes.length)
    (h : trimCopy line = addressToken "Source:" src ++ List.replicate (blanks + 1) 0x20 ++
      addressToken "Destination:" dest) :
    receiveLine codec lexicalCastFloat r line = .more { r with
      rxMsg := { r.rxMsg with
        src := src
        dest := some (dest : ℤ) } } := by
  have hprefix : ascii "Source" <+: trimCopy line := by
    rw [h, List.append_assoc]
    exact prefix_addresses src _
  have hne : trimCopy line ≠ ascii "<EOP>" := by
    intro heq
    rw [heq] at hprefix
    exact absurd hprefix (by decide +kernel)
  have hread : readAddresses (trimCopy line) r.rxMsg = some { r.rxMsg with
      src := src
      dest := some (dest : ℤ) } := by
    rw [readAddresses, h, splitBlanks_addresses]
    have hs : readId (addressToken "Source:" src) 7 = some (src : ℤ) :=
      readId_addressToken "Source:" hsrc
    have hd : readId (addressToken "Destination:" dest) 12 = some (dest : ℤ) :=
      readId_addressToken "Destination:" hdest
    simp only [hs, hd]
    rfl
  simp only [receiveLine, if_neg hne, if_neg (Nat.not_lt.mpr hall), if_pos hprefix, hread]

theorem readStat_pass (stats : ReceiveStatistics) :
    readStat lexicalCastFloat stats (ascii "CRC:Pass") = some { stats with crc := .pass } := by
  have hcolon : (ascii "CRC:Pass").findIdx (· = 0x3A) = 3 := by decide +kernel
  have hlength : 3 ≠ (ascii "CRC:Pass").length := by decide +kernel
  have hkey : statMap.lookup ((ascii "CRC:Pass").take 3) = some .crc := by decide +kernel
  have hvalue : statValue ((ascii "CRC:Pass").drop (3 + 1)) = ascii "Pass" := by decide +kernel
  simp only [readStat, hcolon, if_neg hlength, hkey, hvalue, if_pos]

theorem findIdx_colon {key : Bytes} (h : 0x3A ∉ key) (val : Bytes) :
    (key ++ 0x3A :: val).findIdx (· = 0x3A) = key.length := by
  induction key with
  | nil => rfl
  | cons b key ih =>
    obtain ⟨hb, hkey⟩ := List.ne_and_not_mem_of_not_mem_cons h
    rw [List.cons_append, List.findIdx_cons, decide_eq_false (Ne.symm hb), ih hkey]
    rfl

theorem readStat_statistic {token : Bytes} (h : Statistic lexicalCastFloat token)
    (stats : ReceiveStatistics) :
    ∃ stats', readStat lexicalCastFloat stats token = some stats' ∧ stats'.crc = stats.crc := by
  obtain ⟨key, hkey, val, rfl, hval⟩ := h
  obtain ⟨x, hx⟩ := Option.isSome_iff_exists.mp hval
  have hkeys : ∀ key ∈ ["MPD", "SNR", "AGC", "SPD", "CCERR"], 0x3A ∉ ascii key ∧
      (statMap.lookup (ascii key)).any (· ≠ .crc) = true := by decide +kernel
  obtain ⟨hcolon, hlookup⟩ := hkeys key hkey
  obtain ⟨field, hfield, hne⟩ := (Option.any_eq_true _ _).mp hlookup
  have hlength : (ascii key).length ≠ (ascii key ++ 0x3A :: val).length := by
    rw [List.length_append, List.length_cons]
    omega
  have hdrop : (ascii key ++ 0x3A :: val).drop ((ascii key).length + 1) = val := by
    rw [← List.singleton_append, ← List.append_assoc]
    exact List.drop_left' (by simp)
  refine ⟨setStat stats field x, ?_, ?_⟩
  · simp only [readStat, findIdx_colon hcolon, if_neg hlength, List.take_left, hfield, hdrop, hx]
    cases field with
    | crc => exact absurd hne (by decide)
    | _ => rfl
  · cases field <;> rfl

theorem readStats_statistics {tokens : List Bytes}
    (h : ∀ token ∈ tokens, Statistic lexicalCastFloat token) (stats : ReceiveStatistics) :
    ∃ stats', tokens.foldlM (readStat lexicalCastFloat) stats = some stats' ∧
      stats'.crc = stats.crc := by
  induction tokens generalizing stats with
  | nil => exact ⟨stats, rfl, rfl⟩
  | cons token tokens ih =>
    obtain ⟨stats', hread, hcrc⟩ := readStat_statistic (h token List.mem_cons_self) stats
    obtain ⟨stats'', hrest, hcrc'⟩ := ih (fun t ht => h t (List.mem_cons_of_mem _ ht)) stats'
    refine ⟨stats'', ?_, hcrc'.trans hcrc⟩
    rw [List.foldlM_cons, hread]
    exact hrest

theorem splitBlanks_pass {rest : Bytes} (h : rest = [] ∨ ∃ rest', rest = 0x20 :: rest') :
    splitBlanks (ascii "CRC:Pass" ++ rest) = ascii "CRC:Pass" :: splitBlanks rest := by
  have hne : ascii "CRC:Pass" ≠ [] := by decide +kernel
  have hblank : 0x20 ∉ ascii "CRC:Pass" := by decide +kernel
  rcases h with rfl | ⟨rest', rfl⟩
  · rw [List.append_nil, splitBlanks_token hne hblank]
    rfl
  · rw [splitBlanks_append hne hblank, splitBlanks_cons]

theorem receiveLine_statistics {rest : Bytes} (hall : r.reportedSize ≤ r.encodedBytes.length)
    (h : trimCopy line = ascii "CRC:Pass" ++ rest)
    (hblank : rest = [] ∨ ∃ rest', rest = 0x20 :: rest')
    (hstats : ∀ token ∈ splitBlanks rest, Statistic lexicalCastFloat token) :
    ∃ stats, stats.crc = .pass ∧
      receiveLine codec lexicalCastFloat r line = .more { r with rxStats := stats } := by
  obtain ⟨stats, hread, hcrc⟩ := readStats_statistics hstats { r.rxStats with crc := .pass }
  refine ⟨stats, hcrc, ?_⟩
  have hlabel : ascii "CRC" <+: ascii "CRC:Pass" := by decide +kernel
  have hprefix : ascii "CRC" <+: trimCopy line := h ▸ hlabel.trans (List.prefix_append ..)
  have hne : trimCopy line ≠ ascii "<EOP>" := by
    intro heq
    rw [heq] at hprefix
    exact absurd hprefix (by decide +kernel)
  have hsource : ¬ ascii "Source" <+: trimCopy line := by
    intro hsource
    have heq := List.prefix_of_prefix_length_le hprefix hsource (by decide +kernel)
    exact absurd heq (by decide +kernel)
  have htokens : (splitBlanks (trimCopy line)).foldlM (readStat lexicalCastFloat) r.rxStats =
      some stats := by
    rw [h, splitBlanks_pass hblank, List.foldlM_cons, readStat_pass]
    exact hread
  simp only [receiveLine, if_neg hne, if_neg (Nat.not_lt.mpr hall), if_neg hsource, if_pos hprefix,
    htokens]

theorem receiveLine_last {msg : ModemTransmission} (hcrc : r.rxStats.crc = .pass)
    (hparse : parseBenthosModemMessage codec r.encodedBytes r.rxMsg.toModemTransmission = some msg)
    (h : trimCopy line = ascii "<EOP>") :
    receiveLine codec lexicalCastFloat r line =
      .done (some { r.rxMsg with toModemTransmission := msg }) := by
  simp only [receiveLine, h, hcrc, hparse, if_true, Option.map_some]

end Lines

section Packet

variable (codec : BenthosHeaderCodec) (lexicalCastFloat : Bytes → Option ℚ)

def receiveLines : ReceiveData → List Bytes → Option ReceiveData
  | r, [] => some r
  | r, line :: lines =>
    match receiveLine codec lexicalCastFloat r line with
    | .more r' => receiveLines r' lines
    | .done _ => none

variable {codec lexicalCastFloat} {r r' : ReceiveData}

theorem receiveLines_cons {line : Bytes} (h : receiveLine codec lexicalCastFloat r line = .more r')
    (lines : List Bytes) : receiveLines codec lexicalCastFloat r (line :: lines) =
      receiveLines codec lexicalCastFloat r' lines := by
  rw [receiveLines, h]

/-- However the bytes are broken into lines, they are put together again. -/
theorem receiveLines_data {pieces lines : List Bytes}
    (h : List.Forall₂ (fun piece line => HexText piece (trimCopy line)) pieces lines)
    (hlength : r.encodedBytes.length + pieces.flatten.length ≤ r.reportedSize) (rest : List Bytes) :
    receiveLines codec lexicalCastFloat r (lines ++ rest) =
      receiveLines codec lexicalCastFloat
        { r with encodedBytes := r.encodedBytes ++ pieces.flatten } rest := by
  induction h generalizing r with
  | nil => simp
  | cons hline _ ih =>
    rw [List.flatten_cons, List.length_append] at hlength
    rw [List.cons_append, receiveLines_cons (receiveLine_data hline (by omega)), ih ?_,
      List.flatten_cons, List.append_assoc]
    simp only [List.length_append]
    omega

end Packet

end ReceiveData

def ReceiveData.addressed (bytes : Bytes) (src dest : ℕ) : ReceiveData where
  rxMsg := { src := src, dest := some (dest : ℤ) }
  reportedSize := bytes.length
  encodedBytes := bytes

theorem PrintedPacket.receiveLines {lexicalCastFloat : Bytes → Option ℚ} {bytes : Bytes}
    {src dest : ℕ} (p : PrintedPacket lexicalCastFloat bytes src dest) (codec : BenthosHeaderCodec)
    (hsize : 1 ≤ bytes.length ∧ bytes.length ≤ 9999) (hsrc : src < 1000) (hdest : dest < 1000) :
    ∃ r stats, ReceiveData.receiveStart (trimCopy p.first) = .more r ∧ stats.crc = .pass ∧
      ReceiveData.receiveLines codec lexicalCastFloat r (p.data ++ [p.addresses, p.statistics]) =
        some { ReceiveData.addressed bytes src dest with rxStats := stats } := by
  obtain ⟨head, body, pieces, hbytes, hfirst, hhead, hdata⟩ := p.prints_data
  obtain ⟨blanks, haddresses⟩ := p.prints_addresses
  obtain ⟨rest, hstatistics, hblank, hstats⟩ := p.prints_statistics
  have hstart : ReceiveData.receiveStart (trimCopy p.first) =
      .more { reportedSize := bytes.length, encodedBytes := head } := by
    rw [hfirst]
    exact ReceiveData.receiveStart_announcement hsize.1 (by omega) hhead
  have hlength : head.length + pieces.flatten.length = bytes.length := by
    rw [hbytes, List.length_append]
  have hpass : ∃ stats : ReceiveStatistics, stats.crc = .pass ∧
      ReceiveData.receiveLine codec lexicalCastFloat (.addressed bytes src dest) p.statistics =
        .more { ReceiveData.addressed bytes src dest with rxStats := stats } :=
    ReceiveData.receiveLine_statistics le_rfl hstatistics hblank hstats
  obtain ⟨stats, hcrc, hread⟩ := hpass
  refine ⟨_, stats, hstart, hcrc, ?_⟩
  rw [ReceiveData.receiveLines_data hdata hlength.le]
  simp only [← hbytes]
  rw [ReceiveData.receiveLines_cons
      (ReceiveData.receiveLine_addresses hsrc hdest le_rfl haddresses)]
  exact ReceiveData.receiveLines_cons hread []

end Goby
