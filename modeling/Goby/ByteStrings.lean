import Goby.TransmissionMessages

/-! A `std::string` is the list of its bytes. Here are the functions on strings that several
components share: literals, the Boost string algorithms, and the hexadecimal encoding of
`binary.h`, whose decoder takes the first digit of an odd number of them for a byte. -/

namespace Goby

def ascii (s : String) : Bytes := s.toList.map fun c => UInt8.ofNat c.toNat

def isSpace (b : UInt8) : Bool := b = 0x20 ∨ (0x09 ≤ b ∧ b ≤ 0x0D)

variable (s : Bytes)

def trimCopy : Bytes := ((s.dropWhile isSpace).reverse.dropWhile isSpace).reverse

def toLower (b : UInt8) : UInt8 := if 0x41 ≤ b ∧ b ≤ 0x5A then b + 0x20 else b

def toUpper (b : UInt8) : UInt8 := if 0x61 ≤ b ∧ b ≤ 0x7A then b - 0x20 else b

def iequals (s s' : Bytes) : Bool := s.map toLower = s'.map toLower

variable (upperCase : Bool)

def hexDigit (n : UInt8) : UInt8 :=
  if n ≤ 9 then n + 48 else n + if upperCase then 55 else 87

def hexByte (b : UInt8) : Bytes :=
  [hexDigit upperCase (b >>> 4 &&& 0x0F), hexDigit upperCase (b &&& 0x0F)]

def hexEncode : Bytes := s.flatMap (hexByte upperCase)

/-- The value of a digit; any other character counts as zero. -/
def hexNibble (c : UInt8) : UInt8 :=
  if 48 ≤ c ∧ c ≤ 57 then (c - 48) &&& 0x0F
  else if 65 ≤ c ∧ c ≤ 70 then (c - 55) &&& 0x0F
  else if 97 ≤ c ∧ c ≤ 102 then (c - 87) &&& 0x0F
  else 0

def hexPairs : Bytes → Bytes
  | c :: d :: rest => (hexNibble c <<< 4 ||| hexNibble d) :: hexPairs rest
  | _ => []

def hexDecode : Bytes :=
  match s with
  | [] => []
  | c :: rest => if s.length % 2 = 1 then hexNibble c :: hexPairs rest else hexPairs s

/-- A property of bytes can be checked by evaluation. -/
@[elab_as_elim]
theorem forall_byte {P : UInt8 → Prop} (h : ∀ n : Fin 256, P (UInt8.ofNat n)) (b : UInt8) : P b := by
  simpa using h ⟨b.toNat, b.toNat_lt⟩

theorem hexPairs_hexByte (b : UInt8) (rest : Bytes) :
    hexPairs (hexByte upperCase b ++ rest) = b :: hexPairs rest := by
  have hb : hexNibble (hexDigit upperCase (b >>> 4 &&& 0x0F)) <<< 4 |||
      hexNibble (hexDigit upperCase (b &&& 0x0F)) = b := by
    cases upperCase <;> exact forall_byte (by decide +kernel) b
  simp [hexByte, hexPairs, hb]

theorem length_hexEncode : (hexEncode s upperCase).length = 2 * s.length := by
  induction s with
  | nil => rfl
  | cons b rest ih =>
    simp only [hexEncode, List.flatMap_cons, List.length_append, List.length_cons, hexByte] at ih ⊢
    simp only [ih, List.length_nil]
    omega

theorem hexPairs_hexEncode : hexPairs (hexEncode s upperCase) = s := by
  induction s with
  | nil => rfl
  | cons b rest ih =>
    rw [hexEncode, List.flatMap_cons, hexPairs_hexByte]
    exact congrArg (b :: ·) ih

/-- Whatever the case of the digits, decoding undoes encoding. -/
theorem hexDecode_hexEncode : hexDecode (hexEncode s upperCase) = s := by
  have heven : (hexEncode s upperCase).length % 2 ≠ 1 := by
    rw [length_hexEncode]
    omega
  have hpairs := hexPairs_hexEncode s upperCase
  unfold hexDecode
  split
  next h =>
    rw [h] at hpairs
    exact hpairs
  · rw [if_neg heven]
    exact hpairs

end Goby
