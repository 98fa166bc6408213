import Goby.ByteStrings

/-! `boost::lexical_cast` takes an optional sign and decimal digits. To an unsigned type it also
converts a negative number, by negating it in that type. What devices print are numbers padded
with zeros to a fixed width. -/

namespace Goby

def isDigit (b : UInt8) : Bool := 0x30 ≤ b ∧ b ≤ 0x39

def digitsValue (digits : Bytes) : ℕ := digits.foldl (fun n b => 10 * n + (b.toNat - 0x30)) 0

variable (s : Bytes)

def splitSign : Bool × Bytes :=
  match s with
  | b :: s' => if b = 0x2D then (true, s') else if b = 0x2B then (false, s') else (false, s)
  | [] => (false, [])

def lexicalCastSigned (width : ℕ) (s : Bytes) : Option ℤ :=
  let (negative, digits) := splitSign s
  let value : ℤ := if negative then -digitsValue digits else digitsValue digits
  if digits ≠ [] ∧ digits.all isDigit ∧ -2 ^ (width - 1) ≤ value ∧ value < 2 ^ (width - 1) then some value
  else none

def lexicalCastUnsignedOf (width : ℕ) (s : Bytes) : Option ℤ :=
  let (negative, digits) := splitSign s
  let value : ℤ := digitsValue digits
  if digits ≠ [] ∧ digits.all isDigit ∧ value < 2 ^ width then
    some (if negative then (-value) % 2 ^ width else value)
  else none

def lexicalCastInt : Option ℤ := lexicalCastSigned 32 s

def lexicalCastUnsigned : Option ℕ := (lexicalCastUnsignedOf 32 s).map Int.toNat

/-- `goby::util::as<int>`: the largest value where the string is not a number. -/
def asInt : ℤ := (lexicalCastInt s).getD (2 ^ 31 - 1)

example : asInt (ascii "-12") = -12 ∧ asInt (ascii "3x") = 2147483647 := by decide +kernel

def zeroPadded : ℕ → ℕ → Bytes
  | 0, _ => []
  | width + 1, n => zeroPadded width (n / 10) ++ [UInt8.ofNat (0x30 + n % 10)]

/-- `boost::trim_left_if` of zeros. -/
def trimZeros : Bytes := s.dropWhile (· = 0x30)

@[simp] theorem length_zeroPadded (width n : ℕ) : (zeroPadded width n).length = width := by
  induction width generalizing n with
  | zero => rfl
  | succ width ih => simp [zeroPadded, ih]

theorem toNat_digit (n : ℕ) : (UInt8.ofNat (0x30 + n % 10)).toNat = 0x30 + n % 10 := by
  rw [UInt8.toNat_ofNat']
  omega

theorem isDigit_iff {b : UInt8} : isDigit b = true ↔ 0x30 ≤ b.toNat ∧ b.toNat ≤ 0x39 := by
  simp [isDigit, UInt8.le_iff_toNat_le]

theorem isDigit_zeroPadded (width n : ℕ) : ∀ b ∈ zeroPadded width n, isDigit b = true := by
  induction width generalizing n with
  | zero => simp [zeroPadded]
  | succ width ih =>
    intro b hb
    rcases List.mem_append.mp hb with hb | hb
    · exact ih _ b hb
    · rw [List.mem_singleton.mp hb, isDigit_iff, toNat_digit]
      omega

theorem digitsValue_zeroPadded {width n : ℕ} (h : n < 10 ^ width) :
    digitsValue (zeroPadded width n) = n := by
  induction width generalizing n with
  | zero =>
    rw [pow_zero] at h
    rw [Nat.lt_one_iff.mp h]
    rfl
  | succ width ih =>
    have hdiv : n / 10 < 10 ^ width := by
      rw [pow_succ] at h
      omega
    have hvalue := ih hdiv
    rw [digitsValue] at hvalue
    rw [zeroPadded, digitsValue, List.foldl_append, hvalue]
    simp only [List.foldl_cons, List.foldl_nil, toNat_digit]
    omega

theorem digitsValue_trimZeros : digitsValue (trimZeros s) = digitsValue s := by
  induction s with
  | nil => rfl
  | cons b s ih =>
    by_cases hb : b = 0x30
    · subst hb
      exact ih
    · rw [trimZeros, List.dropWhile_cons, if_neg (by simpa using hb)]

theorem splitSign_digits {s : Bytes}
    (hdigits : ∀ b ∈ s, isDigit b = true) : splitSign s = (false, s) := by
  cases s with
  | nil => rfl
  | cons b s =>
    have hb := isDigit_iff.mp (hdigits b List.mem_cons_self)
    have hminus : b ≠ 0x2D := by
      rintro rfl
      simp at hb
    have hplus : b ≠ 0x2B := by
      rintro rfl
      simp at hb
    rw [splitSign, if_neg hminus, if_neg hplus]

theorem lexicalCastUnsigned_digits {s : Bytes} (hne : s ≠ []) (hdigits : ∀ b ∈ s, isDigit b = true)
    (hlt : digitsValue s < 2 ^ 32) : lexicalCastUnsigned s = some (digitsValue s) := by
  simp only [lexicalCastUnsigned, lexicalCastUnsignedOf, splitSign_digits hdigits]
  rw [if_pos ⟨hne, List.all_eq_true.mpr hdigits, by exact_mod_cast hlt⟩]
  rfl

theorem lexicalCastUnsigned_padded {width n : ℕ} (h : n < 10 ^ width) (hlt : n < 2 ^ 32)
    (hpos : 0 < n) : lexicalCastUnsigned (trimZeros (zeroPadded width n)) = some n := by
  have hvalue : digitsValue (trimZeros (zeroPadded width n)) = n := by
    rw [digitsValue_trimZeros, digitsValue_zeroPadded h]
  have hne : trimZeros (zeroPadded width n) ≠ [] := by
    intro hnil
    rw [hnil] at hvalue
    exact hpos.ne hvalue
  have hdigits : ∀ b ∈ trimZeros (zeroPadded width n), isDigit b = true :=
    fun b hb => isDigit_zeroPadded width n b ((List.dropWhile_suffix _).subset hb)
  rw [lexicalCastUnsigned_digits hne hdigits (hvalue.trans_lt hlt), hvalue]

def numeral (n : ℕ) : Bytes := (Nat.toDigits 10 n).map fun c => UInt8.ofNat c.toNat

def signedNumeral (z : ℤ) : Bytes := if z < 0 then 0x2D :: numeral z.natAbs else numeral z.natAbs

theorem numeral_ne_nil (n : ℕ) : numeral n ≠ [] := by
  simp [numeral, Nat.toDigits_ne_nil]

theorem toNat_of_isDigit {c : Char} (hc : c.isDigit = true) :
    0x30 ≤ c.toNat ∧ c.toNat ≤ 0x39 ∧ (UInt8.ofNat c.toNat).toNat = c.toNat := by
  have hrange : 0x30 ≤ c.toNat ∧ c.toNat ≤ 0x39 := by
    simpa [Char.isDigit, UInt32.le_iff_toNat_le] using hc
  refine ⟨hrange.1, hrange.2, ?_⟩
  rw [UInt8.toNat_ofNat']
  omega

theorem isDigit_numeral (n : ℕ) : ∀ b ∈ numeral n, isDigit b = true := by
  intro b hb
  obtain ⟨c, hc, rfl⟩ := List.mem_map.mp hb
  have hdigit := toNat_of_isDigit (Nat.isDigit_of_mem_toDigits (by decide) (by decide) hc)
  rw [isDigit_iff, hdigit.2.2]
  exact ⟨hdigit.1, hdigit.2.1⟩

theorem digitsValue_numeral (n : ℕ) : digitsValue (numeral n) = n := by
  have hfold : ∀ (l : List Char) (k : ℕ), (∀ c ∈ l, c.isDigit = true) →
      (l.map fun c => UInt8.ofNat c.toNat).foldl (fun n b => 10 * n + (b.toNat - 0x30)) k =
        Nat.ofDigitChars 10 l k := by
    intro l
    induction l with
    | nil => exact fun _ _ => rfl
    | cons c l ih =>
      intro k hl
      have hc := (toNat_of_isDigit (hl c List.mem_cons_self)).2.2
      rw [List.map_cons, List.foldl_cons, hc, Nat.ofDigitChars_cons]
      exact ih _ fun d hd => hl d (List.mem_cons_of_mem c hd)
  rw [digitsValue, numeral, hfold _ 0 fun c hc => Nat.isDigit_of_mem_toDigits (by decide) (by decide) hc]
  exact Nat.ofDigitChars_toDigits (by decide) (by decide)

theorem numeral_injective : Function.Injective numeral := by
  intro n n' h
  rw [← digitsValue_numeral n, h, digitsValue_numeral]

theorem lexicalCastSigned_signedNumeral {width : ℕ} {z : ℤ} (hlo : -2 ^ (width - 1) ≤ z)
    (hhi : z < 2 ^ (width - 1)) : lexicalCastSigned width (signedNumeral z) = some z := by
  have hall := List.all_eq_true.mpr (isDigit_numeral z.natAbs)
  unfold lexicalCastSigned signedNumeral
  split_ifs with hneg
  · have habs : -(z.natAbs : ℤ) = z := by omega
    have hsign : splitSign (0x2D :: numeral z.natAbs) = (true, numeral z.natAbs) := rfl
    simp only [hsign, if_true, digitsValue_numeral, habs]
    rw [if_pos ⟨numeral_ne_nil _, hall, hlo, hhi⟩]
  · have habs : (z.natAbs : ℤ) = z := by omega
    simp only [splitSign_digits (isDigit_numeral _), Bool.false_eq_true, if_false, digitsValue_numeral, habs]
    rw [if_pos ⟨numeral_ne_nil _, hall, hlo, hhi⟩]

theorem lexicalCastUnsignedOf_signedNumeral {width : ℕ} {z : ℤ} (hlo : 0 ≤ z) (hhi : z < 2 ^ width) :
    lexicalCastUnsignedOf width (signedNumeral z) = some z := by
  have hall := List.all_eq_true.mpr (isDigit_numeral z.natAbs)
  unfold lexicalCastUnsignedOf signedNumeral
  rw [if_neg (by omega)]
  simp only [splitSign_digits (isDigit_numeral _), Bool.false_eq_true, if_false, digitsValue_numeral,
    Int.natAbs_of_nonneg hlo]
  rw [if_pos ⟨numeral_ne_nil _, hall, hhi⟩]

theorem lexicalCastInt_numeral {n : ℕ}
    (h : n < 2 ^ 31) : lexicalCastInt (numeral n) = some (n : ℤ) := by
  have hcast : signedNumeral (n : ℤ) = numeral n := by simp [signedNumeral]
  rw [lexicalCastInt, ← hcast]
  exact lexicalCastSigned_signedNumeral (by omega) (by omega)

end Goby
