import Mathlib.Data.Int.ConditionallyCompleteOrder
import Mathlib.Data.Nat.Digits.Defs
import Mathlib.Data.Set.Function
import Mathlib.Tactic.Linarith
import Mathlib.Tactic.Ring

/-! A source and a destination are sent as one number, which the arithmetic coder is told to
expect below `(total_addresses_ - 1)^2`. The numbering leaves out the broadcast address as
a source and the pairs of equal addresses; `to_src_dest_pair` undoes it with the division
of C, which rounds toward zero. Modem addresses are the host parts of the IPv4 addresses of
one subnet, but for the broadcast address, which is zero for the modem and all ones for IPv4. -/

namespace Goby.IpGateway

def totalAddresses (cidrNetmaskPrefix : ℕ) : ℤ := 2 ^ (32 - cidrNetmaskPrefix) - 1

def toSrcDestPair (total srcdest : ℤ) : ℤ × ℤ :=
  let src := (srcdest - 1).tmod (total - 2) + 1
  let dest := (srcdest - 1).tdiv (total - 2)
  (if dest ≤ src then src + 1 else src, dest)

def fromSrcDestPair (total : ℤ) (srcDest : ℤ × ℤ) : ℤ :=
  if srcDest.1 = srcDest.2 ∨ srcDest.1 = 0 then -1
  else srcDest.2 * (total - 2) + srcDest.1 - if srcDest.2 < srcDest.1 then 1 else 0

/-- The values that `init_dccl` gives a frequency to. -/
def declaredAddresses (total : ℤ) : Set ℤ := Set.Ico 0 ((total - 1) * (total - 1))

def srcDestPairs (total : ℤ) : Set (ℤ × ℤ) :=
  {p | 1 ≤ p.1 ∧ p.1 < total ∧ 0 ≤ p.2 ∧ p.2 < total ∧ p.1 ≠ p.2}

/-- The `assert` in the loops of the constructor. -/
def ConstructorAsserts (total : ℤ) : Prop :=
  ∀ d ∈ Set.Ico 0 total, ∀ s ∈ Set.Ico 0 total, s ≠ 0 → s ≠ d →
    toSrcDestPair total (fromSrcDestPair total (s, d)) = (s, d)

section Pairs

variable {total : ℤ} {s d : ℤ}

theorem mem_srcDestPairs :
    (s, d) ∈ srcDestPairs total ↔ 1 ≤ s ∧ s < total ∧ 0 ≤ d ∧ d < total ∧ s ≠ d := Iff.rfl

theorem fromSrcDestPair_of_lt (hs : 1 ≤ s) (h : s < d) :
    fromSrcDestPair total (s, d) = d * (total - 2) + s := by
  have hne : ¬ (s = d ∨ s = 0) := by omega
  simp only [fromSrcDestPair, if_neg hne, if_neg (show ¬ d < s by omega)]
  omega

theorem fromSrcDestPair_of_gt (hs : 1 ≤ s) (h : d < s) :
    fromSrcDestPair total (s, d) = d * (total - 2) + s - 1 := by
  have hne : ¬ (s = d ∨ s = 0) := by omega
  simp only [fromSrcDestPair, if_neg hne, if_pos h]

theorem toSrcDestPair_row {d r : ℤ} (hd : 0 ≤ d) (hr : 0 ≤ r) (hlt : r < total - 2) :
    toSrcDestPair total (d * (total - 2) + r + 1) = (if d ≤ r + 1 then r + 2 else r + 1, d) := by
  have hrow : d * (total - 2) + r + 1 - 1 = r + d * (total - 2) := by ring
  have hnonneg : 0 ≤ r + d * (total - 2) := by
    have := mul_nonneg hd (show (0 : ℤ) ≤ total - 2 by omega)
    omega
  have hmod : (r + d * (total - 2)).tmod (total - 2) = r := by
    rw [Int.tmod_eq_emod_of_nonneg hnonneg, Int.add_mul_emod_self_right, Int.emod_eq_of_lt hr hlt]
  have hdiv : (r + d * (total - 2)).tdiv (total - 2) = d := by
    rw [Int.tdiv_eq_ediv_of_nonneg hnonneg, Int.add_mul_ediv_right _ _ (by omega),
      Int.ediv_eq_zero_of_lt hr hlt, zero_add]
  simp only [toSrcDestPair, hrow, hmod, hdiv]
  split <;> congr 1
  ring

/-- Every declared number but zero stands at one place of one row. -/
theorem exists_row {S : ℤ} (htotal : 3 ≤ total) (hS : S ∈ declaredAddresses total) (hpos : S ≠ 0) :
    ∃ d r, 0 ≤ d ∧ d < total ∧ 0 ≤ r ∧ r < total - 2 ∧ S = d * (total - 2) + r + 1 := by
  obtain ⟨hnonneg, hlt⟩ := hS
  have hM : 0 < total - 2 := by omega
  refine ⟨(S - 1) / (total - 2), (S - 1) % (total - 2), ?_, ?_, Int.emod_nonneg _ (by omega),
    Int.emod_lt_of_pos _ hM, ?_⟩
  · apply Int.ediv_nonneg
    · omega
    · omega
  · rw [Int.ediv_lt_iff_lt_mul hM]
    have hsq : total * (total - 2) = (total - 1) * (total - 1) - 1 := by ring
    omega
  · have := Int.mul_ediv_add_emod (S - 1) (total - 2)
    rw [mul_comm] at this
    omega

theorem fromSrcDestPair_toSrcDestPair {S : ℤ} (htotal : 3 ≤ total) (hS : S ∈ declaredAddresses total)
    (hpos : S ≠ 0) :
    toSrcDestPair total S ∈ srcDestPairs total ∧
      fromSrcDestPair total (toSrcDestPair total S) = S := by
  obtain ⟨d, r, hd, hdlt, hr, hrlt, rfl⟩ := exists_row htotal hS hpos
  rw [toSrcDestPair_row hd hr hrlt]
  by_cases hle : d ≤ r + 1
  · rw [if_pos hle, fromSrcDestPair_of_gt (by omega) (by omega), mem_srcDestPairs]
    constructor
    · omega
    · omega
  · rw [if_neg hle, fromSrcDestPair_of_lt (by omega) (by omega), mem_srcDestPairs]
    constructor
    · omega
    · omega

theorem toSrcDestPair_fromSrcDestPair (h : (s, d) ∈ srcDestPairs total) (hne : (s, d) ≠ (1, 0)) :
    toSrcDestPair total (fromSrcDestPair total (s, d)) = (s, d) := by
  obtain ⟨hs, hslt, hd, hdlt, hsd⟩ := mem_srcDestPairs.mp h
  rcases lt_or_gt_of_ne hsd with hlt | hgt
  · have hplace : d * (total - 2) + s = d * (total - 2) + (s - 1) + 1 := by ring
    rw [fromSrcDestPair_of_lt hs hlt, hplace, toSrcDestPair_row hd (by omega) (by omega),
      if_neg (by omega), sub_add_cancel]
  · -- the only pair of a larger source at the place before its row is left out
    have hs2 : 2 ≤ s := by
      by_contra hs1
      apply hne
      rw [Prod.mk.injEq]
      omega
    have hplace : d * (total - 2) + s - 1 = d * (total - 2) + (s - 2) + 1 := by ring
    rw [fromSrcDestPair_of_gt hs hgt, hplace, toSrcDestPair_row hd (by omega) (by omega),
      if_pos (by omega), sub_add_cancel]

theorem fromSrcDestPair_mem (htotal : 3 ≤ total) (h : (s, d) ∈ srcDestPairs total) :
    fromSrcDestPair total (s, d) ∈ declaredAddresses total := by
  obtain ⟨hs, hslt, hd, hdlt, hsd⟩ := mem_srcDestPairs.mp h
  have hlow : 0 ≤ d * (total - 2) := mul_nonneg hd (by omega)
  have hsq : (total - 1) * (total - 1) = (total - 1) * (total - 2) + (total - 1) := by ring
  have hrow : d * (total - 2) ≤ (total - 1) * (total - 2) :=
    mul_le_mul_of_nonneg_right (by omega) (by omega)
  rcases lt_or_gt_of_ne hsd with hlt | hgt
  · rw [fromSrcDestPair_of_lt hs hlt]
    constructor
    · omega
    · omega
  · rw [fromSrcDestPair_of_gt hs hgt]
    constructor
    · omega
    · omega

theorem fromSrcDestPair_one_zero : fromSrcDestPair total (1, 0) = 0 := by
  rw [fromSrcDestPair_of_gt le_rfl one_pos]
  ring

/-- Zero stands before the first row. What the division by one makes of the place before a
row is the end of the row before it. -/
theorem toSrcDestPair_zero (htotal : 3 ≤ total) :
    toSrcDestPair total 0 = if total = 3 then (2, -1) else (1, 0) := by
  by_cases h : total = 3
  · subst h
    rfl
  · have hmod : (-1 : ℤ).tmod (total - 2) = -1 := by
      rw [Int.neg_tmod, Int.tmod_eq_emod_of_nonneg (by omega), Int.emod_eq_of_lt (by omega) (by omega)]
    have hdiv : (-1 : ℤ).tdiv (total - 2) = 0 := by
      rw [Int.neg_tdiv, Int.tdiv_eq_ediv_of_nonneg (by omega), Int.ediv_eq_zero_of_lt (by omega) (by omega)]
      rfl
    rw [if_neg h]
    simp only [toSrcDestPair, zero_sub, hmod, hdiv]
    rfl

theorem one_zero_mem_srcDestPairs (htotal : 3 ≤ total) : (1, 0) ∈ srcDestPairs total := by
  rw [mem_srcDestPairs]
  omega

/-- The inverse of the numbering: as the source computes it but for the number zero. -/
def pairOf (total S : ℤ) : ℤ × ℤ := if S = 0 then (1, 0) else toSrcDestPair total S

section

variable (htotal : 3 ≤ total)
include htotal

theorem pairOf_invOn :
    Set.InvOn (pairOf total) (fromSrcDestPair total) (srcDestPairs total) (declaredAddresses total) := by
  constructor
  · rintro ⟨s, d⟩ h
    by_cases hone : (s, d) = (1, 0)
    · rw [hone, fromSrcDestPair_one_zero, pairOf, if_pos rfl]
    · have hinv := toSrcDestPair_fromSrcDestPair h hone
      have hne : fromSrcDestPair total (s, d) ≠ 0 := by
        intro hzero
        rw [hzero, toSrcDestPair_zero htotal] at hinv
        split at hinv
        · obtain ⟨-, hd⟩ := Prod.mk.inj hinv
          have := (mem_srcDestPairs.mp h).2.2.1
          omega
        · exact hone hinv.symm
      rw [pairOf, if_neg hne, hinv]
  · intro S hS
    by_cases hzero : S = 0
    · rw [hzero, pairOf, if_pos rfl, fromSrcDestPair_one_zero]
    · rw [pairOf, if_neg hzero]
      exact (fromSrcDestPair_toSrcDestPair htotal hS hzero).2

theorem pairOf_mapsTo :
    Set.MapsTo (pairOf total) (declaredAddresses total) (srcDestPairs total) := by
  intro S hS
  rw [pairOf]
  split
  · exact one_zero_mem_srcDestPairs htotal
  · exact (fromSrcDestPair_toSrcDestPair htotal hS (by assumption)).1

/-- The source's inverse is right exactly where it is right at zero. -/
theorem toSrcDestPair_eq_pairOf_iff :
    (∀ S, toSrcDestPair total S = pairOf total S) ↔ total ≠ 3 := by
  constructor
  · rintro h rfl
    exact absurd (h 0) (by decide)
  · intro hne S
    by_cases hzero : S = 0
    · rw [hzero, toSrcDestPair_zero htotal, if_neg hne, pairOf, if_pos rfl]
    · rw [pairOf, if_neg hzero]

/-- The assertion of the constructor fails for the smallest network only. -/
theorem constructorAsserts_iff : ConstructorAsserts total ↔ total ≠ 3 := by
  constructor
  · rintro h rfl
    exact absurd (h 0 (by decide) 1 (by decide) (by decide) (by decide)) (by decide)
  · intro hne d hd s hs hs0 hsd
    have hmem : (s, d) ∈ srcDestPairs total := by
      have := hs.1
      exact mem_srcDestPairs.mpr ⟨by omega, hs.2, hd.1, hd.2, hsd⟩
    rw [(toSrcDestPair_eq_pairOf_iff htotal).mpr hne]
    exact (pairOf_invOn htotal).1 hmem

end

end Pairs

/-- The numbering of the pairs is a bijection onto the declared numbers, and
`to_src_dest_pair` is its inverse in every network but the smallest, of three addresses. -/
theorem fromSrcDestPair_bijOn (total : ℤ) (htotal : 3 ≤ total) :
    Set.BijOn (fromSrcDestPair total) (srcDestPairs total) (declaredAddresses total) ∧
      (Set.InvOn (toSrcDestPair total) (fromSrcDestPair total) (srcDestPairs total)
        (declaredAddresses total) ↔ total ≠ 3) := by
  refine ⟨(pairOf_invOn htotal).bijOn (fun p hp => fromSrcDestPair_mem htotal hp)
    (pairOf_mapsTo htotal), ?_, ?_⟩
  · rintro hinv rfl
    exact absurd (hinv.1 (one_zero_mem_srcDestPairs htotal)) (by decide)
  · intro hne
    rw [funext ((toSrcDestPair_eq_pairOf_iff htotal).mpr hne)]
    exact pairOf_invOn htotal

/-- A network of seven addresses. -/
theorem fromSrcDestPair_bijOn_seven :
    totalAddresses 29 = 7 ∧
      Set.InvOn (toSrcDestPair 7) (fromSrcDestPair 7) (srcDestPairs 7) (declaredAddresses 7) :=
  ⟨rfl, (fromSrcDestPair_bijOn 7 (by decide)).2.mpr (by decide)⟩

/-- In the network of prefix 30 the pair of source 1 and the broadcast address is sent as
zero and taken for the pair `(2, -1)`. -/
theorem toSrcDestPair_smallest_network :
    (1, 0) ∈ srcDestPairs (totalAddresses 30) ∧
      fromSrcDestPair (totalAddresses 30) (1, 0) = 0 ∧
      toSrcDestPair (totalAddresses 30) 0 = (2, -1) ∧
      ¬ ConstructorAsserts (totalAddresses 30) := by
  refine ⟨one_zero_mem_srcDestPairs (by decide), rfl, rfl, fun h => ?_⟩
  exact (constructorAsserts_iff (by decide)).mp h rfl

/-- `inet_aton` and `inet_ntoa`, with the addresses in host byte order. -/
structure InetText where
  aton : String → UInt32
  ntoa : UInt32 → String
  aton_ntoa : ∀ a, aton (ntoa a) = a

def netmask (cidrNetmaskPrefix : ℕ) : UInt32 :=
  0xFFFFFFFF - (((1 : Int32) <<< Int32.ofNat (32 - cidrNetmaskPrefix)) - 1).toUInt32

def ipv4ToGobyAddress (inet : InetText) (netmask : UInt32) (ipv4Address : String) : Int32 :=
  let remoteAddress := inet.aton ipv4Address
  let modemId := (remoteAddress &&& ~~~netmask).toInt32
  if modemId.toUInt32 + netmask = 0xFFFFFFFF then 0 else modemId

def gobyAddressToIpv4 (inet : InetText) (netmask localAddress : UInt32) (modemId : Int32) : String :=
  let address :=
    if modemId = 0 then (localAddress &&& netmask) + ~~~netmask
    else (localAddress &&& netmask) + modemId.toUInt32
  inet.ntoa address

def broadcastAddress (netmask localAddress : UInt32) : UInt32 := (localAddress &&& netmask) ||| ~~~netmask

section Masks

variable {mask n h : UInt32}

theorem add_eq_or_of_masked (hh : h &&& mask = 0) : (n &&& mask) + h = (n &&& mask) ||| h := by
  apply UInt32.toBitVec_inj.mp
  have hbits := congrArg UInt32.toBitVec hh
  simp only [UInt32.toBitVec_and, UInt32.toBitVec_ofNat] at hbits
  simp only [UInt32.toBitVec_add, UInt32.toBitVec_or, UInt32.toBitVec_and]
  apply BitVec.add_eq_or_of_and_eq_zero
  rw [BitVec.and_assoc, BitVec.and_comm mask.toBitVec, hbits, BitVec.and_zero]

theorem not_and_mask : ~~~mask &&& mask = 0 := by
  rw [UInt32.and_comm, UInt32.and_not_self]

theorem and_not_and_mask (a : UInt32) : (a &&& ~~~mask) &&& mask = 0 := by
  rw [UInt32.and_assoc, not_and_mask, UInt32.and_zero]

theorem host_add (hh : h &&& mask = 0) : ((n &&& mask) + h) &&& ~~~mask = h := by
  rw [add_eq_or_of_masked hh]
  apply UInt32.toBitVec_inj.mp
  have hbits := congrArg UInt32.toBitVec hh
  simp only [UInt32.toBitVec_and, UInt32.toBitVec_ofNat] at hbits
  simp only [UInt32.toBitVec_and, UInt32.toBitVec_or, UInt32.toBitVec_not]
  ext i hi
  have hbit := congrArg (fun x : BitVec 32 => x[i]) hbits
  simp only [BitVec.getElem_and, BitVec.getElem_zero] at hbit
  simp only [BitVec.getElem_and, BitVec.getElem_or, BitVec.getElem_not]
  cases hm : mask.toBitVec[i]
  · simp
  · rw [hm, Bool.and_true] at hbit
    simp [hbit]

theorem network_add_host (mask a : UInt32) : (a &&& mask) + (a &&& ~~~mask) = a := by
  rw [add_eq_or_of_masked (and_not_and_mask a)]
  apply UInt32.toBitVec_inj.mp
  simp only [UInt32.toBitVec_and, UInt32.toBitVec_or, UInt32.toBitVec_not]
  ext i hi
  simp only [BitVec.getElem_and, BitVec.getElem_or, BitVec.getElem_not]
  cases a.toBitVec[i] <;> cases mask.toBitVec[i] <;> rfl

theorem broadcastAddress_eq_add (mask localAddress : UInt32) :
    broadcastAddress mask localAddress = (localAddress &&& mask) + ~~~mask :=
  (add_eq_or_of_masked not_and_mask).symm

/-- The test for the broadcast address is met by the host of all ones alone. -/
theorem add_mask_eq_iff : h + mask = 0xFFFFFFFF ↔ h = ~~~mask := by
  have hones : ~~~mask + mask = 0xFFFFFFFF := by
    apply UInt32.toBitVec_inj.mp
    rw [UInt32.toBitVec_add, UInt32.toBitVec_not, BitVec.add_comm, BitVec.add_not_self]
    rfl
  constructor
  · intro heq
    rw [← hones] at heq
    exact (UInt32.add_left_inj mask).mp heq
  · rintro rfl
    exact hones

end Masks

theorem toNat_not_netmask {cidr : ℕ} (hlo : 2 ≤ cidr) :
    (~~~netmask cidr).toNat = 2 ^ (32 - cidr) - 1 := by
  have hall : ∀ k : Fin 31,
      (~~~((0xFFFFFFFF : UInt32) - (((1 : Int32) <<< Int32.ofNat k) - 1).toUInt32)).toNat = 2 ^ k.val - 1 := by
    decide
  exact hall ⟨32 - cidr, by omega⟩

/-- Hosts of the subnet have no bit of the mask. -/
theorem and_netmask_eq_zero {cidr : ℕ} (hlo : 2 ≤ cidr) {h : UInt32}
    (hlt : h.toNat < 2 ^ (32 - cidr)) :
    h &&& netmask cidr = 0 := by
  have hhost : h &&& ~~~netmask cidr = h := by
    apply UInt32.toNat_inj.mp
    rw [UInt32.toNat_and, toNat_not_netmask hlo, Nat.and_two_pow_sub_one_eq_mod, Nat.mod_eq_of_lt hlt]
  rw [← hhost]
  exact and_not_and_mask h

section Translation

variable (inet : InetText) (mask localAddress : UInt32)

/-- What an address becomes: its host part, or zero for the host of all ones. -/
theorem ipv4ToGobyAddress_ntoa (a : UInt32) :
    ipv4ToGobyAddress inet mask (inet.ntoa a) =
      if a &&& ~~~mask = ~~~mask then 0 else (a &&& ~~~mask).toInt32 := by
  simp only [ipv4ToGobyAddress, inet.aton_ntoa, UInt32.toUInt32_toInt32, add_mask_eq_iff]

theorem gobyAddressToIpv4_zero :
    gobyAddressToIpv4 inet mask localAddress 0 = inet.ntoa (broadcastAddress mask localAddress) := by
  rw [broadcastAddress_eq_add]
  rfl

theorem gobyAddressToIpv4_of_ne_zero {id : Int32} (hid : id ≠ 0) :
    gobyAddressToIpv4 inet mask localAddress id = inet.ntoa ((localAddress &&& mask) + id.toUInt32) := by
  simp only [gobyAddressToIpv4, if_neg hid]

theorem ipv4ToGobyAddress_broadcastAddress :
    ipv4ToGobyAddress inet mask (inet.ntoa (broadcastAddress mask localAddress)) = 0 := by
  rw [ipv4ToGobyAddress_ntoa, broadcastAddress_eq_add, host_add not_and_mask, if_pos rfl]

/-- A host with some bits of the host part, but not all of them. -/
theorem ipv4ToGobyAddress_gobyAddressToIpv4 {id : Int32} (hid : id ≠ 0)
    (hhost : id.toUInt32 &&& mask = 0) (hall : id.toUInt32 ≠ ~~~mask) :
    ipv4ToGobyAddress inet mask (gobyAddressToIpv4 inet mask localAddress id) = id := by
  rw [gobyAddressToIpv4_of_ne_zero _ _ _ hid, ipv4ToGobyAddress_ntoa, host_add hhost, if_neg hall,
    Int32.toInt32_toUInt32]

theorem toInt32_ne_zero {h : UInt32} (hne : h ≠ 0) : h.toInt32 ≠ 0 := by
  intro hzero
  apply hne
  rw [← UInt32.toUInt32_toInt32 h, hzero]
  rfl

theorem gobyAddressToIpv4_ipv4ToGobyAddress {a : UInt32} (hnet : a &&& mask = localAddress &&& mask)
    (hhost : a ≠ localAddress &&& mask) :
    gobyAddressToIpv4 inet mask localAddress (ipv4ToGobyAddress inet mask (inet.ntoa a)) = inet.ntoa a := by
  have hne : a &&& ~~~mask ≠ 0 := by
    intro hzero
    apply hhost
    calc
      a = (a &&& mask) + (a &&& ~~~mask) := (network_add_host mask a).symm
      _ = localAddress &&& mask := by rw [hzero, hnet, UInt32.add_zero]
  rw [ipv4ToGobyAddress_ntoa]
  split
  case isTrue hall =>
    have hparts := network_add_host mask a
    rw [hall] at hparts
    rw [gobyAddressToIpv4_zero, broadcastAddress_eq_add, ← hnet, hparts]
  case isFalse hall =>
    rw [gobyAddressToIpv4_of_ne_zero _ _ _ (toInt32_ne_zero hne), UInt32.toUInt32_toInt32, ← hnet,
      network_add_host]

/-- Of the addresses of the subnet with a host, the broadcast address alone becomes zero. -/
theorem ipv4ToGobyAddress_eq_zero_iff {a : UInt32} (hnet : a &&& mask = localAddress &&& mask)
    (hhost : a ≠ localAddress &&& mask) :
    ipv4ToGobyAddress inet mask (inet.ntoa a) = 0 ↔ a = broadcastAddress mask localAddress := by
  constructor
  · intro hzero
    have hback := gobyAddressToIpv4_ipv4ToGobyAddress inet mask localAddress hnet hhost
    rw [hzero, gobyAddressToIpv4_zero] at hback
    rw [← inet.aton_ntoa a, ← hback, inet.aton_ntoa]
  · rintro rfl
    exact ipv4ToGobyAddress_broadcastAddress inet mask localAddress

end Translation

/-- Both translations undo each other, for every local address and every prefix that leaves
at least two bits to the network. The address of the subnet itself, with no host bit set,
is not one of a modem. -/
theorem gobyAddress_ipv4_inverse (inet : InetText) (localAddress : UInt32) (cidr : ℕ) (hlo : 2 ≤ cidr) :
    (∀ id : Int32, 0 ≤ id.toInt → id.toInt ≤ 2 ^ (32 - cidr) - 2 →
      ipv4ToGobyAddress inet (netmask cidr) (gobyAddressToIpv4 inet (netmask cidr) localAddress id) = id) ∧
    (∀ a : UInt32, a &&& netmask cidr = localAddress &&& netmask cidr →
      a ≠ localAddress &&& netmask cidr →
      gobyAddressToIpv4 inet (netmask cidr) localAddress
        (ipv4ToGobyAddress inet (netmask cidr) (inet.ntoa a)) = inet.ntoa a ∧
      (ipv4ToGobyAddress inet (netmask cidr) (inet.ntoa a) = 0 ↔
        a = broadcastAddress (netmask cidr) localAddress)) ∧
    gobyAddressToIpv4 inet (netmask cidr) localAddress 0 =
      inet.ntoa (broadcastAddress (netmask cidr) localAddress) := by
  refine ⟨?_, ?_, gobyAddressToIpv4_zero inet _ _⟩
  · intro id hnonneg hle
    by_cases hid : id = 0
    · rw [hid, gobyAddressToIpv4_zero, ipv4ToGobyAddress_broadcastAddress]
    · have hnat : (id.toUInt32.toNat : ℤ) = id.toInt := by
        rw [Int32.toNat_toUInt32_of_le (Int32.le_iff_toInt_le.mpr hnonneg)]
        exact Int.toNat_of_nonneg hnonneg
      have hlt : id.toUInt32.toNat < 2 ^ (32 - cidr) - 1 := by
        zify
        rw [Nat.cast_sub Nat.one_le_two_pow]
        push_cast
        omega
      refine ipv4ToGobyAddress_gobyAddressToIpv4 inet _ _ hid (and_netmask_eq_zero hlo (by omega)) ?_
      intro hall
      rw [hall, toNat_not_netmask hlo] at hlt
      omega
  · intro a hnet hhost
    exact ⟨gobyAddressToIpv4_ipv4ToGobyAddress inet _ _ hnet hhost,
      ipv4ToGobyAddress_eq_zero_iff inet _ _ hnet hhost⟩

def dottedDecimal : InetText where
  aton s := UInt32.ofNat
    (Nat.ofDigits 256 ((s.toList.splitOn '.').reverse.map fun octet => Nat.ofDigitChars 10 octet 0))
  ntoa a := String.ofList (['.'].intercalate ([a.toNat / 16777216, a.toNat / 65536 % 256,
    a.toNat / 256 % 256, a.toNat % 256].map (Nat.toDigits 10)))
  aton_ntoa a := by
    have hdot (n : ℕ) : '.' ∉ Nat.toDigits 10 n := fun h =>
      absurd (Nat.isDigit_of_mem_toDigits (by decide) (by decide) h) (by decide)
    have hoctet (n : ℕ) : Nat.ofDigitChars 10 (Nat.toDigits 10 n) 0 = n :=
      Nat.ofDigitChars_toDigits (by decide) (by decide)
    have hlt : a.toNat < 4294967296 := a.toNat_lt
    rw [String.toList_ofList, List.splitOn_intercalate '.' (by simp [hdot]) (by simp)]
    simp only [List.map_cons, List.map_nil, List.reverse_cons, List.reverse_nil, List.nil_append,
      List.cons_append, hoctet, Nat.ofDigits_cons, Nat.ofDigits_nil]
    refine (congrArg UInt32.ofNat ?_).trans (UInt32.ofNat_toNat ..)
    omega

/-- The addresses of the network 192.168.1.0/24: the one of modem 7, and the broadcast
address. -/
theorem gobyAddress_ipv4_inverse_sample :
    netmask 24 = 0xFFFFFF00 ∧ dottedDecimal.ntoa 0xC0A801FF = "192.168.1.255" ∧
      ipv4ToGobyAddress dottedDecimal (netmask 24)
        (gobyAddressToIpv4 dottedDecimal (netmask 24) 0xC0A80105 7) = 7 ∧
      ipv4ToGobyAddress dottedDecimal (netmask 24) (dottedDecimal.ntoa 0xC0A801FF) = 0 := by
  have h := gobyAddress_ipv4_inverse dottedDecimal 0xC0A80105 24 (by decide)
  refine ⟨by decide, by decide, h.1 7 (by decide) (by decide), ?_⟩
  exact (h.2.1 0xC0A801FF (by decide) (by decide)).2.mpr (by decide)

end Goby.IpGateway
