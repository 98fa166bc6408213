import Goby.NmeaSentences
import Mathlib.Data.List.TakeWhile

/-! `message` joins the fields of a sentence and appends a checksum; the constructor reads a string
back. For the checksum the characters are summed up to the first asterisk, whereas the constructor
finds the checksum behind the asterisk that is third from the end, and reads it with a stream
extraction. -/

namespace Goby

def dollar : UInt8 := 0x24
def bang : UInt8 := 0x21
def star : UInt8 := 0x2A

def isHexDigit (c : UInt8) : Bool := (48 ≤ c ∧ c ≤ 57) ∨ (65 ≤ c ∧ c ≤ 70) ∨ (97 ≤ c ∧ c ≤ 102)

def hexValue (digits : Bytes) : ℕ := digits.foldl (fun n c => 16 * n + (hexNibble c).toNat) 0

def dropHexHeader : Bytes → Bytes
  | c :: d :: rest => if c = 48 ∧ (d = 0x78 ∨ d = 0x58) then rest else c :: d :: rest
  | s => s

/-- `hex_string2number` to an `unsigned int`: blanks and a sign in front are accepted, and so is
anything behind the digits. A negative number wraps around. -/
def hexString2Number (s : Bytes) : Option ℕ :=
  let s := s.dropWhile isSpace
  let negative := s.head? = some 0x2D
  let s := if negative ∨ s.head? = some 0x2B then s.tail else s
  let digits := (dropHexHeader s).takeWhile isHexDigit
  if digits = [] ∨ 2 ^ 32 ≤ hexValue digits then none
  else if negative then some ((2 ^ 32 - hexValue digits) % 2 ^ 32)
  else some (hexValue digits)

inductive NmeaError where
  /-- `bad_nmea_sentence` -/
  | badSentence (text : Bytes)
  /-- `std::length_error`, from a sentence without fields -/
  | lengthError
  deriving DecidableEq

inductive ChecksumStrategy where
  | ignore | validate | require
  deriving DecidableEq

/-- The characters with which a sentence begins. -/
def startsSentence (c : UInt8) : Bool := c = dollar ∨ c = bang

namespace NmeaSentence

def checksum (s : Bytes) : Except NmeaError UInt8 :=
  if s = [] then .error (.badSentence (ascii "NMEASentence::checksum: no message provided."))
  else match s.findIdx? startsSentence with
    | none => .error (.badSentence (ascii "NMEASentence::checksum: no $ or ! found."))
    | some first =>
      let last := (s.findIdx? fun c => c = star).getD s.length
      .ok (((s.take last).drop (first + 1)).foldl (· ^^^ ·) 0)

/-- The number behind the asterisk that is third from the end, if it can be read, and the string
without them. -/
def stripChecksum (s : Bytes) : Option ℕ × Bytes :=
  if s.length > 3 ∧ s[s.length - 3]? = some star then
    (hexString2Number (s.drop (s.length - 2)), s.take (s.length - 3))
  else (none, s)

def checkChecksum (csStrat : ChecksumStrategy) (found : Option ℕ) (s : Bytes) : Except NmeaError Unit :=
  match found with
  | none =>
    if csStrat = .require then
      .error (.badSentence (ascii "NMEASentence: no checksum: '" ++ s ++ ascii "'."))
    else .ok ()
  | some cs =>
    if csStrat = .ignore then .ok ()
    else do
      let calcCs ← checksum s
      if calcCs.toNat ≠ cs then
        .error (.badSentence (ascii "NMEASentence: bad checksum: '" ++ s ++ ascii "'."))
      else .ok ()

def construct (enforceTalkerLength : Bool) (s : Bytes) (csStrat : ChecksumStrategy) :
    Except NmeaError (List Bytes) :=
  let s := trimCopy s
  match s with
  | [] => .error (.badSentence (ascii "NMEASentence: no message provided."))
  | c :: _ =>
    if ¬ startsSentence c then
      .error (.badSentence (ascii "NMEASentence: no $ or !: '" ++ s ++ ascii "'."))
    else do
      let (found, s) := stripChecksum s
      checkChecksum csStrat found s
      let fields := s.splitOn comma
      if enforceTalkerLength ∧ (fields.headD []).length ≠ 6 then
        .error (.badSentence (ascii "NMEASentence: bad talker length '" ++ s ++ ascii "'."))
      else .ok fields

/-- The fields, each with a comma, and without the last comma. -/
def messageNoCs (fields : List Bytes) : Except NmeaError Bytes :=
  if fields = [] then .error .lengthError
  else .ok (fields.flatMap fun field => field ++ [comma]).dropLast

def message (fields : List Bytes) : Except NmeaError Bytes := do
  let bare ← messageNoCs fields
  let csum ← checksum bare
  pure (bare ++ star :: hexByte true csum)

def sum (s : Bytes) : UInt8 := ((s.takeWhile fun c => c ≠ star).drop 1).foldl (· ^^^ ·) 0

theorem take_findIdx?_star (s : Bytes) :
    s.take ((s.findIdx? fun c => c = star).getD s.length) = s.takeWhile fun c => c ≠ star := by
  induction s with
  | nil => rfl
  | cons c rest ih =>
    by_cases hc : c = star
    · simp [List.findIdx?_cons, hc]
    · cases hfind : rest.findIdx? fun c => c = star <;> simp [List.findIdx?_cons, hc, hfind] at ih ⊢ <;>
        exact ih

variable {c : UInt8} {fields : List Bytes} {csStrat : ChecksumStrategy} {x y : UInt8}

theorem checksum_eq (hc : startsSentence c = true) (rest : Bytes) :
    checksum (c :: rest) = .ok (sum (c :: rest)) := by
  have hfirst : (c :: rest).findIdx? startsSentence = some 0 := by simp [List.findIdx?_cons, hc]
  simp only [checksum, reduceCtorEq, if_false, hfirst, take_findIdx?_star, sum]

theorem sum_eq_of_star_notMem {s : Bytes} (h : star ∉ s) : sum s = (s.drop 1).foldl (· ^^^ ·) 0 := by
  have hall : s.takeWhile (fun c => c ≠ star) = s := by
    refine List.takeWhile_eq_self_iff.mpr fun c hc => ?_
    have hne : c ≠ star := fun he => h (he ▸ hc)
    simpa using hne
  rw [sum, hall]

theorem stripChecksum_append {body : Bytes} (hbody : body ≠ []) (x y : UInt8) :
    stripChecksum (body ++ [star, x, y]) = (hexString2Number [x, y], body) := by
  have hlength : (body ++ [star, x, y]).length = body.length + 3 := by simp
  have hpos : 0 < body.length := List.length_pos_iff.mpr hbody
  have hstar : (body ++ [star, x, y])[body.length]? = some star := by simp
  have hdigits : (body ++ [star, x, y]).drop (body.length + 1) = [x, y] := by
    rw [← List.drop_drop, List.drop_left]
    rfl
  rw [stripChecksum, hlength, Nat.add_sub_cancel, if_pos ⟨by omega, hstar⟩, List.take_left,
    show body.length + 3 - 2 = body.length + 1 by omega, hdigits]

/-- What the constructor asks of a checksum that it has found or not. -/
def ChecksumAccepted (csStrat : ChecksumStrategy) (found : Option ℕ) (s : Bytes) : Prop :=
  match found with
  | none => csStrat ≠ .require
  | some cs => csStrat = .ignore ∨ (sum s).toNat = cs

theorem checkChecksum_eq_ok (hc : startsSentence c = true) {rest : Bytes}
    {found : Option ℕ} :
    checkChecksum csStrat found (c :: rest) = .ok () ↔ ChecksumAccepted csStrat found (c :: rest) := by
  cases found with
  | none => cases csStrat <;> simp [checkChecksum, ChecksumAccepted]
  | some cs =>
    simp only [checkChecksum, checksum_eq hc, ChecksumAccepted, bind, Except.bind]
    cases csStrat <;> simp

/-- Which strings that end in an asterisk and two characters are accepted. -/
theorem construct_eq_ok {enforce : Bool} {s body : Bytes}
    (htrim : trimCopy s = body ++ [star, x, y]) :
    construct enforce s csStrat = .ok fields ↔
      (∃ c rest, body = c :: rest ∧ startsSentence c = true) ∧
      ChecksumAccepted csStrat (hexString2Number [x, y]) body ∧
      fields = body.splitOn comma ∧ (enforce = true → (fields.headD []).length = 6) := by
  cases body with
  | nil => simp [construct, htrim, show startsSentence star = false by decide]
  | cons c rest =>
    by_cases hc : startsSentence c = true
    · have hstrip := stripChecksum_append (List.cons_ne_nil c rest) x y
      rw [List.cons_append] at hstrip htrim
      simp only [construct, htrim, hc, hstrip, not_true, if_false]
      rw [← checkChecksum_eq_ok hc]
      cases hcheck : checkChecksum csStrat (hexString2Number [x, y]) (c :: rest) with
      | error e => simp [bind, Except.bind]
      | ok u =>
        simp only [bind, Except.bind, true_and, List.cons.injEq]
        split <;> rename_i hlength <;> constructor
        · simp
        · rintro ⟨_, rfl, h⟩
          exact absurd (h hlength.1) hlength.2
        · rintro h
          obtain rfl : (c :: rest).splitOn comma = fields := by simpa using h
          exact ⟨⟨c, rest, ⟨rfl, rfl⟩, hc⟩, rfl, fun he => by simpa [he] using hlength⟩
        · rintro ⟨_, rfl, _⟩
          rfl
    · simp [construct, htrim, hc]

theorem trimCopy_eq_self {s : Bytes} {c d : UInt8} (hhead : s.head? = some c) (hc : isSpace c = false)
    (hlast : s.getLast? = some d) (hd : isSpace d = false) : trimCopy s = s := by
  have hfront : s.dropWhile isSpace = s := by
    obtain ⟨rest, rfl⟩ := List.head?_eq_some_iff.mp hhead
    simp [hc]
  obtain ⟨front, rfl⟩ := List.getLast?_eq_some_iff.mp hlast
  rw [trimCopy, hfront]
  simp [hd]

theorem messageNoCs_eq (h : fields ≠ []) : messageNoCs fields = .ok ([comma].intercalate fields) := by
  have hjoin : ∀ fields : List Bytes, fields ≠ [] →
      (fields.flatMap fun field => field ++ [comma]) = [comma].intercalate fields ++ [comma] := by
    intro fields
    induction fields with
    | nil => simp
    | cons field rest ih =>
      intro _
      cases rest with
      | nil => simp
      | cons next rest =>
        rw [List.flatMap_cons, ih (by simp)]
        simp
  rw [messageNoCs, if_neg h, hjoin fields h, List.dropLast_concat]

theorem hexString2Number_hexByte (b : UInt8) : hexString2Number (hexByte true b) = some b.toNat :=
  forall_byte (by decide +kernel) b

theorem isSpace_hexByte (b : UInt8) : ∃ x y, hexByte true b = [x, y] ∧ isSpace y = false := by
  have hspace : isSpace (hexDigit true (b &&& 0x0F)) = false := forall_byte (by decide +kernel) b
  exact ⟨_, _, rfl, hspace⟩

theorem isSpace_of_startsSentence (h : startsSentence c = true) : isSpace c = false := by
  rcases (by simpa [startsSentence] using h : c = dollar ∨ c = bang) with rfl | rfl <;> rfl

/-- A string that begins a sentence, with its checksum, is read as the string split at its
commas. -/
theorem construct_checksum (hc : startsSentence c = true) (rest : Bytes) (enforce : Bool)
    (hlength : (((c :: rest).splitOn comma).headD []).length = 6) :
    construct enforce (c :: rest ++ star :: hexByte true (sum (c :: rest))) .require =
      .ok ((c :: rest).splitOn comma) := by
  obtain ⟨x, y, hdigits, hy⟩ := isSpace_hexByte (sum (c :: rest))
  have htrim : trimCopy (c :: rest ++ star :: hexByte true (sum (c :: rest))) =
      c :: rest ++ [star, x, y] := by
    rw [hdigits]
    have hlast : (c :: rest ++ [star, x, y]).getLast? = some y := by
      rw [show c :: rest ++ [star, x, y] = c :: rest ++ [star, x] ++ [y] by simp, List.getLast?_concat]
    exact trimCopy_eq_self rfl (isSpace_of_startsSentence hc) hlast hy
  rw [construct_eq_ok htrim, ← hdigits, hexString2Number_hexByte]
  exact ⟨⟨c, rest, rfl, hc⟩, .inr rfl, rfl, fun _ => hlength⟩

theorem splitOn_intercalate_eq_flatMap (h : fields ≠ []) :
    ([comma].intercalate fields).splitOn comma = fields.flatMap (List.splitOn comma) := by
  induction fields with
  | nil => exact absurd rfl h
  | cons field rest ih =>
    cases rest with
    | nil => simp
    | cons next rest =>
      have hjoin : [comma].intercalate (field :: next :: rest) =
          field ++ comma :: [comma].intercalate (next :: rest) := by simp
      rw [hjoin, List.splitOn_eq_splitOnP, List.splitOnP_append_cons _ _ (by simp),
        ← List.splitOn_eq_splitOnP, ← List.splitOn_eq_splitOnP, ih (by simp)]
      simp only [List.flatMap_cons]

theorem reparsed_fields (nmea : NmeaSentence) :
    nmea.reparsed.fields = nmea.fields.flatMap (List.splitOn comma) := by
  simp [fields, reparsed, List.splitOn_eq_singleton nmea.front_comma]

/-- What is read back from the message of a sentence: its fields, split at the commas they hold. -/
theorem construct_message_reparsed (nmea : NmeaSentence) (enforce : Bool)
    (hfront : nmea.front.head? = some c) (hc : startsSentence c = true) :
    ∃ msg, message nmea.fields = .ok msg ∧ construct enforce msg .require = .ok nmea.reparsed.fields := by
  have hne : nmea.fields ≠ [] := List.cons_ne_nil _ _
  obtain ⟨tail, htail⟩ := List.head?_eq_some_iff.mp hfront
  obtain ⟨bare, hbare⟩ : ∃ bare, [comma].intercalate nmea.fields = c :: bare := by
    cases hrest : nmea.rest <;> simp [fields, hrest, htail]
  have hsplit : (c :: bare).splitOn comma = nmea.reparsed.fields := by
    rw [← hbare, splitOn_intercalate_eq_flatMap hne, reparsed_fields]
  have hlength : (((c :: bare).splitOn comma).headD []).length = 6 := by
    rw [hsplit]
    exact nmea.front_length
  refine ⟨c :: bare ++ star :: hexByte true (sum (c :: bare)), ?_, ?_⟩
  · simp [message, messageNoCs_eq hne, hbare, checksum_eq hc, bind, Except.bind, pure, Except.pure]
  · rw [construct_checksum hc bare enforce hlength, hsplit]

/-- Fields that are empty, end in a blank, or hold asterisks. -/
def starredSentence : NmeaSentence where
  front := ascii "$GP*LL"
  rest := [[], ascii "4916.45 ", ascii "*7F"]
  front_length := by decide
  front_comma := by decide

/-- A sentence comes back from its message if no field holds a comma. -/
theorem construct_message (nmea : NmeaSentence) (enforce : Bool)
    (hstart : ∃ c, nmea.front.head? = some c ∧ startsSentence c = true)
    (hcomma : ∀ field ∈ nmea.rest, comma ∉ field) :
    ∃ msg, message nmea.fields = .ok msg ∧ construct enforce msg .require = .ok nmea.fields := by
  obtain ⟨c, hfront, hc⟩ := hstart
  have hsplit : nmea.rest.flatMap (List.splitOn comma) = nmea.rest := by
    rw [List.flatMap_congr fun field hfield => List.splitOn_eq_singleton (hcomma field hfield)]
    simp
  have hreparsed : nmea.reparsed = nmea := by simp [reparsed, hsplit]
  simpa only [hreparsed] using construct_message_reparsed nmea enforce hfront hc

theorem construct_message_starred :
    ∃ msg, message starredSentence.fields = .ok msg ∧
      construct true msg .require = .ok starredSentence.fields :=
  construct_message starredSentence true ⟨dollar, rfl, rfl⟩ (by decide)

theorem isHexDigit_other (h : isHexDigit c = true) :
    isSpace c = false ∧ (c ≠ 0x2D ∧ c ≠ 0x2B ∧ c ≠ 0x78 ∧ c ≠ 0x58) ∧ (hexNibble c).toNat < 16 := by
  revert h
  exact forall_byte (by decide +kernel) c

theorem hexString2Number_digits (hx : isHexDigit x = true) (hy : isHexDigit y = true) :
    hexString2Number [x, y] = some (16 * (hexNibble x).toNat + (hexNibble y).toNat) := by
  obtain ⟨hspace, ⟨hminus, hplus, _, _⟩, hx16⟩ := isHexDigit_other hx
  obtain ⟨_, ⟨_, _, hsmall, hcapital⟩, hy16⟩ := isHexDigit_other hy
  have hvalue : hexValue [x, y] = 16 * (hexNibble x).toNat + (hexNibble y).toNat := by simp [hexValue]
  have hdigits : (dropHexHeader [x, y]).takeWhile isHexDigit = [x, y] := by
    simp [dropHexHeader, hsmall, hcapital, hx, hy]
  have hbound : ¬ 2 ^ 32 ≤ hexValue [x, y] := by omega
  simp [hexString2Number, hspace, hminus, hplus, hdigits, hvalue] at hbound ⊢
  omega

/-- The two characters are hexadecimal digits, and their value is the exclusive-or of what stands
behind the first character. -/
def ChecksumRight (body : Bytes) (x y : UInt8) : Prop :=
  isHexDigit x = true ∧ isHexDigit y = true ∧
    16 * (hexNibble x).toNat + (hexNibble y).toNat = ((body.drop 1).foldl (· ^^^ ·) 0).toNat

/-- The string begins as a sentence does and, if this is enforced, has a talker of six characters. -/
def Begins (enforce : Bool) (body : Bytes) : Prop :=
  (∃ c rest, body = c :: rest ∧ startsSentence c = true) ∧
    (enforce = true → ((body.splitOn comma).headD []).length = 6)

/-- The extraction fails where a checksum is required; or it gives another number than the sum up
to the first asterisk; or it is given two digits, and what follows the first asterisk cancels out. -/
def Distinguished (csStrat : ChecksumStrategy) (body : Bytes) (x y : UInt8) : Prop :=
  match hexString2Number [x, y] with
  | none => csStrat = .require
  | some cs => (sum body).toNat = cs →
      (isHexDigit x = true ∧ isHexDigit y = true) ∧ sum body = (body.drop 1).foldl (· ^^^ ·) 0

theorem distinguished_iff {body : Bytes}
    (hstrat : csStrat ≠ .ignore) : Distinguished csStrat body x y ↔
      (ChecksumAccepted csStrat (hexString2Number [x, y]) body → ChecksumRight body x y) := by
  cases hnumber : hexString2Number [x, y] with
  | none =>
    have hwrong : ¬ ChecksumRight body x y := fun hright => by
      simp [hexString2Number_digits hright.1 hright.2.1] at hnumber
    simp only [Distinguished, hnumber, ChecksumAccepted, hwrong, imp_false, not_not]
  | some cs =>
    simp only [Distinguished, hnumber, ChecksumAccepted, hstrat, false_or]
    refine forall_congr' fun hsum => ?_
    constructor
    · rintro ⟨⟨hx, hy⟩, hall⟩
      rw [hexString2Number_digits hx hy] at hnumber
      exact ⟨hx, hy, by rw [Option.some.inj hnumber, ← hsum, hall]⟩
    · rintro ⟨hx, hy, hvalue⟩
      rw [hexString2Number_digits hx hy] at hnumber
      exact ⟨⟨hx, hy⟩, UInt8.toNat_inj.mp (by rw [hsum, ← hvalue, Option.some.inj hnumber])⟩

/-- Only a right checksum is accepted, if and only if it can be distinguished or the string is
refused for another reason. -/
theorem construct_checked_iff {enforce : Bool} {s body : Bytes} {x y : UInt8}
    {csStrat : ChecksumStrategy} (htrim : trimCopy s = body ++ [star, x, y]) (hstrat : csStrat ≠ .ignore) :
    (∀ fields, construct enforce s csStrat = .ok fields → ChecksumRight body x y) ↔
      (Begins enforce body → Distinguished csStrat body x y) := by
  rw [distinguished_iff hstrat]
  constructor
  · rintro h ⟨hstarts, htalker⟩ haccepted
    exact h _ ((construct_eq_ok htrim).mpr ⟨hstarts, haccepted, rfl, htalker⟩)
  · intro h fields haccept
    obtain ⟨hstarts, haccepted, rfl, htalker⟩ := (construct_eq_ok htrim).mp haccept
    exact h ⟨hstarts, htalker⟩ haccepted

theorem construct_checked_iff_sample :
    construct true (ascii " $GPGLL,,A*11 ") .validate = .ok [ascii "$GPGLL", [], ascii "A"] ∧
      ChecksumRight (ascii "$GPGLL,,A") 0x31 0x31 :=
  have haccept : construct true (ascii " $GPGLL,,A*11 ") .validate =
      .ok [ascii "$GPGLL", [], ascii "A"] := by decide
  ⟨haccept, (construct_checked_iff (by decide) (by decide)).mpr
    (fun _ _ => ⟨by decide, sum_eq_of_star_notMem (by decide)⟩) _ haccept⟩

/-- Three wrong checksums that are accepted: one that cannot be read, where none is required; a
digit and a letter that is none; and one that leaves out what follows another asterisk. -/
theorem construct_accepts_wrong :
    construct true (ascii "$GPGLL,,A*zz") .validate = .ok [ascii "$GPGLL", [], ascii "A"] ∧
      ¬ ChecksumRight (ascii "$GPGLL,,A") 0x7A 0x7A ∧
    construct true (ascii "$GPGLL,|*0g") .require = .ok [ascii "$GPGLL", ascii "|"] ∧
      ¬ ChecksumRight (ascii "$GPGLL,|") 0x30 0x67 ∧
    construct true (ascii "$GPGLL,*A*7C") .require = .ok [ascii "$GPGLL", ascii "*A"] ∧
      ¬ ChecksumRight (ascii "$GPGLL,*A") 0x37 0x43 := by
  refine ⟨by decide, ?_, by decide, ?_, by decide, ?_⟩ <;> unfold ChecksumRight <;> decide

end NmeaSentence

end Goby
