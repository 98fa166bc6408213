import Goby.NumberedFragments
import Goby.TransmissionMessages
import Mathlib.Data.List.Forall2
import Mathlib.Logic.Function.Basic

/-! Datagrams of a `mosh` session are cut by a `Packetizer` into packets that fit one
acoustic message, and put together again on the other side. The packets carry no
number of the datagram they belong to, so the receiving `Packetizer` can tell packets
of two datagrams apart only by what arrives between them. -/

namespace Goby.MoshRelay

structure MoshPacket where
  src : ℤ
  dest : ℤ
  fragNum : ℕ
  fragLen : ℕ
  isLastFrag : Bool
  fragment : Bytes
deriving DecidableEq, Repr

structure MoshRelayConfig where
  srcModemId : ℕ
  destModemId : ℕ
deriving DecidableEq, Repr

/-- `max_length` of the field `fragment`, the value of `MOSH_FRAGMENT_SIZE`. What follows
is stated for any size of fragment. -/
def moshFragmentSize : ℕ := 59

/-- The `set` of a packetizer, ordered by fragment number alone. -/
abbrev Packetizer := FragmentStore MoshPacket.fragNum

/-- `resize`: cut off, or filled up with zeros. -/
def resize (n : ℕ) (bytes : Bytes) : Bytes := bytes.take n ++ List.replicate (n - bytes.length) 0

/-- `std::copy` to the start of `out`. -/
def copyTo (bytes out : Bytes) : Bytes := bytes ++ out.drop bytes.length

/-- The loop of the constructor from fragment `i` on. One packet object is used for all
of them, so behind a short fragment stand bytes of the one before. -/
def packetsFrom (size : ℕ) (src dest : ℤ) (input : Bytes) (n : ℕ) : ℕ → ℕ → Bytes → List MoshPacket
  | 0, _, _ => []
  | k + 1, i, frag =>
    let fragLen := min size (input.length - i * size)
    let bytes := (input.drop (i * size)).take fragLen
    let fragment := copyTo bytes (resize size frag)
    { src := src
      dest := dest
      fragNum := i
      fragLen := fragLen
      isLastFrag := i + 1 = n
      fragment := fragment } :: packetsFrom size src dest input n k (i + 1) fragment

def packetCount (size length : ℕ) : ℕ := (length + size - 1) / size

def packetizer (size : ℕ) (src dest : ℤ) (input : Bytes) : Packetizer :=
  (packetsFrom size src dest input (packetCount size input.length) (packetCount size input.length)
    0 []).foldl FragmentStore.insert .empty

/-- `add_fragment`: the store after it, and whether the datagram is judged complete. -/
def addFragment (p : Packetizer) (frag : MoshPacket) : Packetizer × Bool :=
  let stored := p.insert frag
  if frag.isLastFrag ∧ stored.size ≠ frag.fragNum + 1 then (.empty, false)
  else (stored, frag.isLastFrag)

def reassemble (size : ℕ) (p : Packetizer) : Bytes :=
  match p.last? with
  | none => []
  | some last =>
    let out := List.replicate (size * p.size) 0
    let copied := copyTo (p.entries.flatMap fun f => f.fragment.take f.fragLen) out
    resize (copied.length - (size - last.fragLen)) copied

/-- The packets published for a datagram, in the order of the set. -/
def handleUdpReceive (size : ℕ) (cfg : MoshRelayConfig) (datagram : Bytes) : List MoshPacket :=
  (packetizer size cfg.srcModemId cfg.destModemId datagram).entries

/-- `handle_goby_receive`: the packetizers by source, and the datagram sent on. -/
def handleGobyReceive (size : ℕ) (cfg : MoshRelayConfig) (packets : ℤ → Packetizer) (packet : MoshPacket) :
    (ℤ → Packetizer) × Option Bytes :=
  if packet.dest = cfg.srcModemId ∧ packet.src = cfg.destModemId then
    match addFragment (packets packet.src) packet with
    | (stored, true) => (Function.update packets packet.src .empty, some (reassemble size stored))
    | (stored, false) => (Function.update packets packet.src stored, none)
  else (packets, none)

def receiveAll (size : ℕ) (cfg : MoshRelayConfig) :
    (ℤ → Packetizer) → List MoshPacket → (ℤ → Packetizer) × List Bytes
  | packets, [] => (packets, [])
  | packets, p :: ps =>
    let (next, sent) := handleGobyReceive size cfg packets p
    let (final, more) := receiveAll size cfg next ps
    (final, sent.toList ++ more)

section

variable {size : ℕ} {datagram : Bytes} {cfg : MoshRelayConfig}

def fragmentBytes (size : ℕ) (input : Bytes) : ℕ → Bytes
  | 0 => copyTo (piece size input 0) (resize size [])
  | i + 1 =>
    copyTo (piece size input (i + 1)) (resize size (fragmentBytes size input i))

def packetOf (size : ℕ) (cfg : MoshRelayConfig) (input : Bytes) (i : ℕ) : MoshPacket where
  src := cfg.srcModemId
  dest := cfg.destModemId
  fragNum := i
  fragLen := min size (input.length - i * size)
  isLastFrag := i + 1 = packetCount size input.length
  fragment := fragmentBytes size input i

theorem take_copyTo (bytes out : Bytes) : (copyTo bytes out).take bytes.length = bytes := by
  simp [copyTo]

theorem packetOf_carries (cfg : MoshRelayConfig) (input : Bytes) (i : ℕ) :
    (packetOf size cfg input i).fragment.take (packetOf size cfg input i).fragLen =
      piece size input i := by
  have hlen : (packetOf size cfg input i).fragLen = (piece size input i).length :=
    (length_piece ..).symm
  rw [hlen]
  cases i with
  | zero => exact take_copyTo ..
  | succ i => exact take_copyTo ..

theorem take_fragLen (input : Bytes) (i : ℕ) :
    (input.drop (i * size)).take (min size (input.length - i * size)) = piece size input i := by
  rw [← List.length_drop, ← List.take_take, List.take_length]
  rfl

theorem packetsFrom_succ (cfg : MoshRelayConfig) (input : Bytes) (k i : ℕ) :
    packetsFrom size cfg.srcModemId cfg.destModemId input (packetCount size input.length) k (i + 1)
        (fragmentBytes size input i) =
      (List.range' (i + 1) k).map (packetOf size cfg input) := by
  induction k generalizing i with
  | zero => rfl
  | succ k ih =>
    rw [List.range'_succ, List.map_cons, ← ih (i + 1)]
    simp only [packetsFrom, take_fragLen]
    rfl

theorem packetsFrom_eq (cfg : MoshRelayConfig) (input : Bytes) (k : ℕ) :
    packetsFrom size cfg.srcModemId cfg.destModemId input (packetCount size input.length) k 0 [] =
      (List.range k).map (packetOf size cfg input) := by
  cases k with
  | zero => rfl
  | succ k =>
    rw [List.range_eq_range', List.range'_succ, List.map_cons, ← packetsFrom_succ]
    simp only [packetsFrom, take_fragLen]
    rfl

theorem handleUdpReceive_eq (cfg : MoshRelayConfig) (datagram : Bytes) :
    handleUdpReceive size cfg datagram =
      (List.range (packetCount size datagram.length)).map (packetOf size cfg datagram) := by
  rw [handleUdpReceive, packetizer, packetsFrom_eq, FragmentStore.foldl_insert_entries]
  · simp
  · exact List.pairwise_map.mpr List.pairwise_lt_range
  · simp

theorem mem_handleUdpReceive {p : MoshPacket}
    (h : p ∈ handleUdpReceive size cfg datagram) :
    ∃ i < packetCount size datagram.length, p = packetOf size cfg datagram i := by
  rw [handleUdpReceive_eq] at h
  obtain ⟨i, hi, rfl⟩ := List.mem_map.mp h
  exact ⟨i, List.mem_range.mp hi, rfl⟩

theorem packetCount_le_iff (hpos : 0 < size) (length n : ℕ) :
    packetCount size length ≤ n ↔ length ≤ n * size := by
  rw [packetCount, Nat.div_le_iff_le_mul_add_pred hpos, Nat.mul_comm size n]
  omega

theorem le_packetCount_mul (hpos : 0 < size) (length : ℕ) : length ≤ packetCount size length * size :=
  (packetCount_le_iff hpos length _).mp le_rfl

theorem packetCount_pred_mul (hpos : 0 < size) {length m : ℕ} (h : packetCount size length = m + 1) :
    m * size < length := by
  by_contra hle
  have := (packetCount_le_iff hpos length m).mpr (Nat.not_lt.mp hle)
  omega

theorem resize_copyTo (bytes out : Bytes) : resize bytes.length (copyTo bytes out) = bytes := by
  have hlen : bytes.length - (copyTo bytes out).length = 0 := by simp [copyTo]
  rw [resize, hlen, take_copyTo, List.replicate_zero, List.append_nil]

theorem reassemble_eq (hpos : 0 < size) {p : Packetizer} {m : ℕ}
    (hcount : packetCount size datagram.length = m + 1)
    (hp : p.Holds (packetOf size cfg datagram) (packetCount size datagram.length))
    (hsize : p.size = packetCount size datagram.length) : reassemble size p = datagram := by
  have hentries := hp.entries_eq hsize
  have hlast : p.last? = some (packetOf size cfg datagram m) := by
    apply FragmentStore.last?_append_singleton
    rw [hentries, hcount, List.range_succ, List.map_append, List.map_singleton]
  have hcopied : p.entries.flatMap (fun f => f.fragment.take f.fragLen) = datagram := by
    rw [hentries, List.flatMap_map]
    simp only [packetOf_carries]
    exact flatMap_piece_eq (le_packetCount_mul hpos _)
  have hlen : (copyTo datagram (List.replicate (size * p.size) 0)).length -
      (size - (packetOf size cfg datagram m).fragLen) = datagram.length := by
    have hm := packetCount_pred_mul hpos hcount
    have hmax := le_packetCount_mul hpos datagram.length
    simp only [copyTo, packetOf, List.length_append, List.length_drop, List.length_replicate]
    rw [hcount, Nat.succ_mul] at hmax
    rw [hsize, hcount, Nat.mul_comm, Nat.succ_mul]
    omega
  simp only [reassemble, hlast, hcopied, hlen]
  exact resize_copyTo ..

/-- A packet added to packets of its own datagram: it completes the datagram, or it
is kept with them, or it shows that one is missing and all are dropped. -/
theorem addFragment_packetOf (hpos : 0 < size) {p : Packetizer} {i : ℕ}
    (h : p.Holds (packetOf size cfg datagram) (packetCount size datagram.length))
    (hi : i < packetCount size datagram.length) :
    ∃ stored complete, addFragment p (packetOf size cfg datagram i) = (stored, complete) ∧
      (complete = true ∧ reassemble size stored = datagram ∨
        complete = false ∧ stored.Holds (packetOf size cfg datagram) (packetCount size datagram.length) ∧
          (i + 1 = packetCount size datagram.length → stored = .empty)) := by
  have hstored : (p.insert (packetOf size cfg datagram i)).Holds (packetOf size cfg datagram)
      (packetCount size datagram.length) := FragmentStore.Holds.insert h hi rfl
  have hflag : (packetOf size cfg datagram i).isLastFrag = true ↔ i + 1 = packetCount size datagram.length :=
    decide_eq_true_iff ..
  by_cases hlast : (packetOf size cfg datagram i).isLastFrag = true
  · have hcount := hflag.mp hlast
    by_cases hsize : (p.insert (packetOf size cfg datagram i)).size = i + 1
    · refine ⟨_, _, if_neg fun hmissed => hmissed.2 hsize, .inl ?_⟩
      exact ⟨hlast, reassemble_eq hpos hcount.symm hstored (hsize.trans hcount)⟩
    · refine ⟨_, _, if_pos ⟨hlast, hsize⟩, .inr ?_⟩
      exact ⟨rfl, FragmentStore.holds_empty, fun _ => rfl⟩
  · refine ⟨_, _, if_neg fun hmissed => hlast hmissed.1, .inr ?_⟩
    exact ⟨Bool.eq_false_iff.mpr hlast, hstored, fun hcount => absurd (hflag.mpr hcount) hlast⟩

def MoshRelayConfig.peer (cfg : MoshRelayConfig) : MoshRelayConfig :=
  ⟨cfg.destModemId, cfg.srcModemId⟩

section Receiving

variable {cfg : MoshRelayConfig} {datagram : Bytes} {packets : ℤ → Packetizer}
  {ps : List MoshPacket}

def HoldsOnly (size : ℕ) (cfg : MoshRelayConfig) (datagram : Bytes) (packets : ℤ → Packetizer) : Prop :=
  (packets cfg.srcModemId).Holds (packetOf size cfg datagram) (packetCount size datagram.length)

theorem holdsOnly_of_empty (h : packets cfg.srcModemId = .empty) : HoldsOnly size cfg datagram packets := by
  rw [HoldsOnly, h]
  exact FragmentStore.holds_empty

/-- The peer takes every packet of a datagram to be for it. -/
theorem handleGobyReceive_packetOf (size : ℕ) (cfg : MoshRelayConfig) (datagram : Bytes)
    (packets : ℤ → Packetizer) (i : ℕ) :
    handleGobyReceive size cfg.peer packets (packetOf size cfg datagram i) =
      match addFragment (packets cfg.srcModemId) (packetOf size cfg datagram i) with
      | (stored, true) => (Function.update packets cfg.srcModemId .empty, some (reassemble size stored))
      | (stored, false) => (Function.update packets cfg.srcModemId stored, none) :=
  if_pos ⟨rfl, rfl⟩

/-- One packet of the datagram whose packets alone are stored: what is sent on is the
datagram, and after its last packet nothing is left. -/
theorem HoldsOnly.handleGobyReceive (hpos : 0 < size) (h : HoldsOnly size cfg datagram packets)
    {i : ℕ} (hi : i < packetCount size datagram.length) :
    let r := MoshRelay.handleGobyReceive size cfg.peer packets (packetOf size cfg datagram i)
    HoldsOnly size cfg datagram r.1 ∧ (∀ out ∈ r.2, out = datagram) ∧
      (i + 1 = packetCount size datagram.length → r.1 cfg.srcModemId = .empty) := by
  intro r
  have hr : r = _ := handleGobyReceive_packetOf size cfg datagram packets i
  obtain ⟨stored, complete, hadd, ⟨rfl, hout⟩ | ⟨rfl, hstored, hempty⟩⟩ := addFragment_packetOf hpos h hi
  · rw [hr, hadd]
    refine ⟨holdsOnly_of_empty (by simp), ?_, fun _ => by simp⟩
    rintro out ⟨⟩
    exact hout
  · rw [hr, hadd]
    refine ⟨?_, nofun, fun hcount => ?_⟩
    · simpa [HoldsOnly] using hstored
    · simpa using hempty hcount

/-- The last packet to arrive is the last one of its datagram, or none arrived. -/
def LastArrived (ps : List MoshPacket) : Prop := ∀ p ∈ ps.getLast?, p.isLastFrag = true

instance (ps : List MoshPacket) : Decidable (LastArrived ps) :=
  inferInstanceAs (Decidable (∀ p ∈ ps.getLast?, p.isLastFrag = true))

theorem receiveAll_cons (cfg : MoshRelayConfig) (packets : ℤ → Packetizer) (p : MoshPacket)
    (ps : List MoshPacket) :
    receiveAll size cfg packets (p :: ps) =
      ((receiveAll size cfg (handleGobyReceive size cfg packets p).1 ps).1,
        (handleGobyReceive size cfg packets p).2.toList ++
          (receiveAll size cfg (handleGobyReceive size cfg packets p).1 ps).2) := rfl

theorem receiveAll_append (cfg : MoshRelayConfig) (packets : ℤ → Packetizer)
    (ps qs : List MoshPacket) :
    receiveAll size cfg packets (ps ++ qs) =
      ((receiveAll size cfg (receiveAll size cfg packets ps).1 qs).1,
        (receiveAll size cfg packets ps).2 ++
          (receiveAll size cfg (receiveAll size cfg packets ps).1 qs).2) := by
  induction ps generalizing packets with
  | nil => rfl
  | cons p ps ih => simp only [List.cons_append, receiveAll_cons, ih, List.append_assoc]

theorem HoldsOnly.receiveAll (hpos : 0 < size) (h : HoldsOnly size cfg datagram packets)
    (hps : ps ⊆ handleUdpReceive size cfg datagram) :
    (∀ out ∈ (MoshRelay.receiveAll size cfg.peer packets ps).2, out = datagram) ∧
      (ps ≠ [] → LastArrived ps →
        (MoshRelay.receiveAll size cfg.peer packets ps).1 cfg.srcModemId = .empty) := by
  induction ps generalizing packets with
  | nil => exact ⟨nofun, nofun⟩
  | cons p ps ih =>
    obtain ⟨i, hi, rfl⟩ := mem_handleUdpReceive (hps (List.mem_cons_self ..))
    obtain ⟨hnext, hout, hlast⟩ := h.handleGobyReceive hpos hi
    obtain ⟨hsent, hempty⟩ := ih hnext fun q hq => hps (List.mem_cons_of_mem _ hq)
    rw [receiveAll_cons]
    refine ⟨?_, ?_⟩
    · intro out ho
      rcases List.mem_append.mp ho with ho | ho
      · exact hout out (Option.mem_toList.mp ho)
      · exact hsent out ho
    · intro _ harr
      cases ps with
      | nil =>
        apply hlast
        exact of_decide_eq_true (harr _ rfl)
      | cons q ps => exact hempty (List.cons_ne_nil q ps) harr

theorem LastArrived.receiveAll (hpos : 0 < size) (harr : LastArrived ps)
    (hempty : packets cfg.srcModemId = .empty) (hps : ps ⊆ handleUdpReceive size cfg datagram) :
    (MoshRelay.receiveAll size cfg.peer packets ps).1 cfg.srcModemId = .empty := by
  by_cases hnil : ps = []
  · rw [hnil]
    exact hempty
  · exact ((holdsOnly_of_empty hempty).receiveAll hpos hps).2 hnil harr

end Receiving

end

/-- No datagram loses its last packet after another of its packets has arrived, unless
nothing at all arrives after that. -/
def LastPacketsArrive : List (List MoshPacket) → Prop
  | [] => True
  | ps :: delivered => (delivered.flatten ≠ [] → LastArrived ps) ∧ LastPacketsArrive delivered

/-- Where no datagram is broken off in the middle, what the peer sends on are
datagrams that came in, for any datagrams and any loss of packets. -/
theorem relayed_mem_datagrams (size : ℕ) (hpos : 0 < size) (cfg : MoshRelayConfig) (packets : ℤ → Packetizer)
    (datagrams : List Bytes) (delivered : List (List MoshPacket))
    (hempty : packets cfg.srcModemId = .empty)
    (hlost : List.Forall₂ (fun d ps => ps.Sublist (handleUdpReceive size cfg d)) datagrams delivered)
    (harr : LastPacketsArrive delivered) :
    ∀ out ∈ (receiveAll size cfg.peer packets delivered.flatten).2, out ∈ datagrams := by
  induction hlost generalizing packets with
  | nil => nofun
  | @cons d ps datagrams delivered hsub _ ih =>
    obtain ⟨hps, hrest⟩ := harr
    rw [List.flatten_cons, receiveAll_append]
    intro out ho
    rcases List.mem_append.mp ho with ho | ho
    · rw [((holdsOnly_of_empty hempty).receiveAll hpos hsub.subset).1 out ho]
      exact List.mem_cons_self ..
    · by_cases hnil : delivered.flatten = []
      · rw [hnil] at ho
        exact absurd ho (List.not_mem_nil)
      · exact List.mem_cons_of_mem d
          (ih _ ((hps hnil).receiveAll hpos hempty hsub.subset) hrest out ho)

def sampleConfig : MoshRelayConfig := ⟨1, 2⟩

def firstDatagram : Bytes := List.replicate 60 1

def secondDatagram : Bytes := List.replicate 60 2

def sampleDelivered : List (List MoshPacket) :=
  [(handleUdpReceive moshFragmentSize sampleConfig firstDatagram).drop 1,
    handleUdpReceive moshFragmentSize sampleConfig secondDatagram]

/-- The first packet of the first datagram is lost: the second datagram is relayed. -/
theorem relayed_mem_datagrams_sample :
    (receiveAll moshFragmentSize sampleConfig.peer (fun _ => .empty) sampleDelivered.flatten).2 =
        [secondDatagram] ∧
      ∀ out ∈ (receiveAll moshFragmentSize sampleConfig.peer (fun _ => .empty) sampleDelivered.flatten).2,
        out ∈ [firstDatagram, secondDatagram] := by
  refine ⟨by decide +kernel, ?_⟩
  apply relayed_mem_datagrams moshFragmentSize (by decide) sampleConfig (fun _ => .empty)
    [firstDatagram, secondDatagram] sampleDelivered
  · rfl
  · exact .cons (List.drop_sublist 1 _) (.cons (List.Sublist.refl _) .nil)
  · refine ⟨fun _ => ?_, nofun, trivial⟩
    decide +kernel

/-- The last packet of the first datagram is lost instead: the second datagram is sent
on with the first 59 bytes of the first. -/
theorem relayed_mixed_datagram :
    List.Forall₂ (fun d ps => ps.Sublist (handleUdpReceive moshFragmentSize sampleConfig d))
      [firstDatagram, secondDatagram]
      [(handleUdpReceive moshFragmentSize sampleConfig firstDatagram).take 1,
        handleUdpReceive moshFragmentSize sampleConfig secondDatagram] ∧
    (receiveAll moshFragmentSize sampleConfig.peer (fun _ => .empty)
        ((handleUdpReceive moshFragmentSize sampleConfig firstDatagram).take 1 ++
          handleUdpReceive moshFragmentSize sampleConfig secondDatagram)).2 = [List.replicate 59 1 ++ [2]] ∧
      List.replicate 59 1 ++ [2] ∉ [firstDatagram, secondDatagram] := by
  refine ⟨.cons (List.take_sublist 1 _) (.cons (List.Sublist.refl _) .nil), ?_, ?_⟩
  · decide +kernel
  · decide +kernel

/-- For each packet that arrives, what `add_fragment` returns and the datagram sent on. -/
def receiveEach (size : ℕ) (cfg : MoshRelayConfig) :
    (ℤ → Packetizer) → List MoshPacket → (ℤ → Packetizer) × List (Bool × Option Bytes)
  | packets, [] => (packets, [])
  | packets, p :: ps =>
    let (next, sent) := handleGobyReceive size cfg packets p
    let (final, more) := receiveEach size cfg next ps
    (final, ((addFragment (packets p.src) p).2, sent) :: more)

theorem receiveEach_cons (size : ℕ) (cfg : MoshRelayConfig) (packets : ℤ → Packetizer)
    (p : MoshPacket) (ps : List MoshPacket) :
    receiveEach size cfg packets (p :: ps) =
      ((receiveEach size cfg (handleGobyReceive size cfg packets p).1 ps).1,
        ((addFragment (packets p.src) p).2, (handleGobyReceive size cfg packets p).2) ::
          (receiveEach size cfg (handleGobyReceive size cfg packets p).1 ps).2) := rfl

theorem receiveEach_append (size : ℕ) (cfg : MoshRelayConfig) (packets : ℤ → Packetizer)
    (ps qs : List MoshPacket) :
    receiveEach size cfg packets (ps ++ qs) =
      ((receiveEach size cfg (receiveEach size cfg packets ps).1 qs).1,
        (receiveEach size cfg packets ps).2 ++
          (receiveEach size cfg (receiveEach size cfg packets ps).1 qs).2) := by
  induction ps generalizing packets with
  | nil => rfl
  | cons p ps ih => simp only [List.cons_append, receiveEach_cons, ih]

section Lossless

variable {size : ℕ} {cfg : MoshRelayConfig} {datagram : Bytes} {packets : ℤ → Packetizer}
  {p : Packetizer} {i : ℕ}

def StoredUpTo (size : ℕ) (cfg : MoshRelayConfig) (datagram : Bytes) (i : ℕ) (p : Packetizer) : Prop :=
  p.entries = (List.range i).map (packetOf size cfg datagram)

theorem StoredUpTo.holds (h : StoredUpTo size cfg datagram i p)
    (hi : i ≤ packetCount size datagram.length) :
    p.Holds (packetOf size cfg datagram) (packetCount size datagram.length) := by
  intro a ha
  rw [h] at ha
  obtain ⟨j, hj, rfl⟩ := List.mem_map.mp ha
  exact ⟨(List.mem_range.mp hj).trans_le hi, rfl⟩

theorem StoredUpTo.size_eq (h : StoredUpTo size cfg datagram i p) : p.size = i := by
  rw [FragmentStore.size, h, List.length_map, List.length_range]

theorem StoredUpTo.insert (h : StoredUpTo size cfg datagram i p) :
    StoredUpTo size cfg datagram (i + 1) (p.insert (packetOf size cfg datagram i)) := by
  rw [StoredUpTo, List.range_succ, List.map_append, List.map_singleton, ← h]
  apply FragmentStore.insertEntry_of_lt
  intro a ha
  rw [h] at ha
  obtain ⟨j, hj, rfl⟩ := List.mem_map.mp ha
  exact List.mem_range.mp hj

/-- The next packet is stored with those before it, and completes the datagram if it is
the last one. -/
theorem StoredUpTo.addFragment (h : StoredUpTo size cfg datagram i p) :
    MoshRelay.addFragment p (packetOf size cfg datagram i) =
      (p.insert (packetOf size cfg datagram i), decide (i + 1 = packetCount size datagram.length)) := by
  rw [MoshRelay.addFragment, if_neg fun hmissed => hmissed.2 h.insert.size_eq]
  rfl

theorem StoredUpTo.handleGobyReceive (hpos : 0 < size)
    (h : StoredUpTo size cfg datagram i (packets cfg.srcModemId))
    (hi : i < packetCount size datagram.length) :
    MoshRelay.handleGobyReceive size cfg.peer packets (packetOf size cfg datagram i) =
      if i + 1 = packetCount size datagram.length then
        (Function.update packets cfg.srcModemId .empty, some datagram)
      else
        (Function.update packets cfg.srcModemId
          ((packets cfg.srcModemId).insert (packetOf size cfg datagram i)), none) := by
  rw [handleGobyReceive_packetOf, h.addFragment]
  by_cases hlast : i + 1 = packetCount size datagram.length
  · rw [if_pos hlast, decide_eq_true hlast]
    exact congrArg (fun sent => (Function.update packets cfg.srcModemId .empty, some sent))
      (reassemble_eq hpos hlast.symm (h.insert.holds hi) (h.insert.size_eq.trans hlast))
  · rw [if_neg hlast, decide_eq_false hlast]

theorem StoredUpTo.receiveEach (hpos : 0 < size) {k : ℕ}
    (h : StoredUpTo size cfg datagram i (packets cfg.srcModemId))
    (hcount : packetCount size datagram.length = i + (k + 1)) :
    ∃ packets', MoshRelay.receiveEach size cfg.peer packets
        ((List.range' i (k + 1)).map (packetOf size cfg datagram)) =
          (packets', List.replicate k (false, none) ++ [(true, some datagram)]) ∧
      packets' cfg.srcModemId = .empty := by
  have hstep := h.handleGobyReceive hpos (by omega)
  have hadd := congrArg Prod.snd h.addFragment
  induction k generalizing i packets with
  | zero =>
    have hlast : i + 1 = packetCount size datagram.length := by omega
    rw [if_pos hlast] at hstep
    rw [decide_eq_true hlast] at hadd
    refine ⟨Function.update packets cfg.srcModemId .empty, ?_, Function.update_self ..⟩
    rw [List.range'_one, List.map_singleton, receiveEach_cons, hstep]
    exact congrArg (fun returned => (_, [(returned, some datagram)])) hadd
  | succ k ih =>
    have hlast : i + 1 ≠ packetCount size datagram.length := by omega
    rw [if_neg hlast] at hstep
    rw [decide_eq_false hlast] at hadd
    have hnext : StoredUpTo size cfg datagram (i + 1) (Function.update packets cfg.srcModemId
        ((packets cfg.srcModemId).insert (packetOf size cfg datagram i)) cfg.srcModemId) := by
      rw [Function.update_self]
      exact h.insert
    obtain ⟨packets', hrest, hempty⟩ := ih hnext (by omega) (hnext.handleGobyReceive hpos (by omega))
      (congrArg Prod.snd hnext.addFragment)
    refine ⟨packets', ?_, hempty⟩
    rw [List.range'_succ, List.map_cons, receiveEach_cons, hstep, hrest]
    exact congrArg (fun returned => (_, (returned, none) :: _)) hadd

theorem receiveEach_datagram (hpos : 0 < size) (hempty : packets cfg.srcModemId = .empty)
    (hne : datagram ≠ []) :
    ∃ packets', receiveEach size cfg.peer packets (handleUdpReceive size cfg datagram) = (packets',
        List.replicate (packetCount size datagram.length - 1) (false, none) ++ [(true, some datagram)]) ∧
      packets' cfg.srcModemId = .empty := by
  have hcount : 1 ≤ packetCount size datagram.length := by
    by_contra hzero
    have := (packetCount_le_iff hpos datagram.length 0).mp (by omega)
    rw [Nat.zero_mul, Nat.le_zero, List.length_eq_zero_iff] at this
    exact hne this
  obtain ⟨k, hk⟩ := Nat.exists_eq_add_of_le' hcount
  have hstart : StoredUpTo size cfg datagram 0 (packets cfg.srcModemId) := by
    rw [hempty]
    rfl
  rw [handleUdpReceive_eq, hk, List.range_eq_range']
  exact hstart.receiveEach hpos (by omega)

end Lossless

/-- Without losses `add_fragment` returns true for the last packet of each datagram alone,
and the datagram is then sent on as it came in. -/
theorem receiveEach_lossless (size : ℕ) (hpos : 0 < size) (cfg : MoshRelayConfig)
    (packets : ℤ → Packetizer) (hempty : packets cfg.srcModemId = .empty) (datagrams : List Bytes)
    (hne : ∀ d ∈ datagrams, d ≠ []) :
    (receiveEach size cfg.peer packets (datagrams.flatMap (handleUdpReceive size cfg))).2 =
      datagrams.flatMap fun d =>
        List.replicate (packetCount size d.length - 1) (false, none) ++ [(true, some d)] := by
  induction datagrams generalizing packets with
  | nil => rfl
  | cons d datagrams ih =>
    obtain ⟨packets', hsent, hnext⟩ := receiveEach_datagram hpos hempty (hne d (List.mem_cons_self ..))
    rw [List.flatMap_cons, receiveEach_append, hsent, ih packets' hnext fun e he => hne e (List.mem_cons_of_mem d he)]
    rfl

/-- Two datagrams of two packets each. -/
theorem receiveEach_lossless_sample :
    (receiveEach moshFragmentSize sampleConfig.peer (fun _ => .empty)
        ([firstDatagram, secondDatagram].flatMap (handleUdpReceive moshFragmentSize sampleConfig))).2 =
      [(false, none), (true, some firstDatagram), (false, none), (true, some secondDatagram)] :=
  receiveEach_lossless moshFragmentSize (by decide) sampleConfig (fun _ => .empty) rfl
    [firstDatagram, secondDatagram] (by decide)

end Goby.MoshRelay
