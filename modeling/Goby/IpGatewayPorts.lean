import Goby.Bimaps
import Goby.CallRuns
import Mathlib.Data.List.Range
import Mathlib.Tactic.Linarith

/-! The gateway sends the number of a port instead of the port. The ports of the configuration
are known on both sides; the numbers after them are given to other source ports as these
come up, by the sender and by the receiver each for itself. A number not in use stands for
its own negative. -/

namespace Goby.IpGateway

structure Config where
  totalPorts : ℕ := 1
  staticUdpPort : List ℕ := []
  enough : staticUdpPort.length ≤ totalPorts

structure UdpHeader where
  sourcePort : ℕ
  destPort : ℕ
deriving DecidableEq, Repr

structure Gateway where
  portMap : Bimap ℕ ℤ
  dynamicPortIndex : ℕ

def initialPort (cfg : Config) (i : ℕ) : ℤ :=
  if h : i < cfg.staticUdpPort.length then (cfg.staticUdpPort[i] : ℕ) else -(i : ℤ)

def initialPorts (cfg : Config) : List (ℕ × ℤ) :=
  (List.range cfg.totalPorts).map fun i => (i, initialPort cfg i)

def start (cfg : Config) : Gateway where
  portMap := (∅ : Bimap ℕ ℤ).insertAll (initialPorts cfg)
  dynamicPortIndex := cfg.staticUdpPort.length

def nextIndex (cfg : Config) (i : ℕ) : ℕ :=
  if cfg.totalPorts ≤ i + 1 then cfg.staticUdpPort.length else i + 1

/-- `handle_udp_packet`: the gateway after it and the field `srcdest_port` of the header
sent, if one is. There is no result where the number for a new port is not in the map. -/
def handleUdpPacket (cfg : Config) (g : Gateway) (udp : UdpHeader) :
    Option (Gateway × Option (List ℕ)) :=
  match g.portMap.right? udp.destPort with
  | none => some (g, none)
  | some destPort =>
    match g.portMap.right? udp.sourcePort with
    | some srcPort => some (g, some [srcPort, destPort])
    | none =>
      if cfg.totalPorts = cfg.staticUdpPort.length then some (g, none)
      else match g.portMap.left? g.dynamicPortIndex with
        | none => none
        | some _ =>
          some (⟨g.portMap.replaceLeft g.dynamicPortIndex udp.sourcePort,
              nextIndex cfg g.dynamicPortIndex⟩,
            -- the number is added here, and `src_port` is still zero when it is added below
            some ([g.dynamicPortIndex] ++ [0, destPort]))

/-- The source port of a number; one without a port gets the port `unused` of the system. -/
def sourcePortOf (g : Gateway) (src unused : ℕ) : Option (Gateway × ℤ) :=
  match g.portMap.left? src with
  | none => none
  | some port =>
    if port < 0 then some ({ g with portMap := g.portMap.replaceLeft src unused }, (unused : ℤ))
    else some (g, port)

/-- The port half of `handle_modem_receive`: the datagram written, if one is. A number that
is not in the map has no result. -/
def handleModemReceive (g : Gateway) (srcdestPort : List ℕ) (unused : ℕ) :
    Option (Gateway × Option UdpHeader) :=
  match srcdestPort with
  | [src, dest] =>
    match sourcePortOf g src unused with
    | none => none
    | some (g', sourcePort) =>
      match g'.portMap.left? dest with
      | none => none
      | some destPort =>
        if destPort < 0 then some (g', none) else some (g', some ⟨sourcePort.toNat, destPort.toNat⟩)
  | _ => some (g, none)

inductive Call where
  | udpPacket (udp : UdpHeader)
  | modemReceive (srcdestPort : List ℕ) (unused : ℕ)

def perform (cfg : Config) (c : Call) (g : Gateway) : Option Gateway :=
  match c with
  | .udpPacket udp => (handleUdpPacket cfg g udp).map Prod.fst
  | .modemReceive srcdestPort unused => (handleModemReceive g srcdestPort unused).map Prod.fst

def step (cfg : Config) (c : Call) (g : Gateway) : Gateway := (perform cfg c g).getD g

def defined (cfg : Config) (g : Gateway) (c : Call) : Bool := (perform cfg c g).isSome

variable {cfg : Config} {i : ℕ} {port : ℤ}

theorem mem_initialPorts (h : (i, port) ∈ initialPorts cfg) :
    i < cfg.totalPorts ∧ port = initialPort cfg i := by
  obtain ⟨j, hj, heq⟩ := List.mem_map.mp h
  obtain ⟨rfl, rfl⟩ := Prod.mk.inj heq
  exact ⟨List.mem_range.mp hj, rfl⟩

theorem initialPort_of_lt (h : i < cfg.staticUdpPort.length) : 0 ≤ initialPort cfg i := by
  rw [initialPort, dif_pos h]
  exact Int.natCast_nonneg _

theorem initialPort_of_le (h : cfg.staticUdpPort.length ≤ i) :
    initialPort cfg i = -(i : ℤ) := dif_neg (Nat.not_lt.mpr h)

theorem exists_mem_start (hi : i < cfg.totalPorts) :
    ∃ j, (j, initialPort cfg i) ∈ (start cfg).portMap.pairs := by
  have hmem : (i, initialPort cfg i) ∈ initialPorts cfg :=
    List.mem_map.mpr ⟨i, List.mem_range.mpr hi, rfl⟩
  apply Bimap.exists_mem_pairs_insertAll _ _ hmem
  · have hkeys : (initialPorts cfg).map Prod.fst = List.range cfg.totalPorts := by
      rw [initialPorts, List.map_map]
      exact List.map_id' _
    rw [hkeys]
    exact List.nodup_range
  · intro p _
    rfl

theorem mem_initialPorts_of_mem_start {p : ℕ × ℤ}
    (h : p ∈ (start cfg).portMap.pairs) : p ∈ initialPorts cfg := by
  rcases Bimap.mem_pairs_insertAll h with h | h
  · cases h
  · exact h

theorem left?_start (h : (start cfg).portMap.left? i = some port) :
    i < cfg.totalPorts ∧ port = initialPort cfg i :=
  mem_initialPorts (mem_initialPorts_of_mem_start (Bimap.left?_eq_some_iff.mp h))

theorem exists_static_number {port : ℕ} (h : port ∈ cfg.staticUdpPort) :
    ∃ i < cfg.staticUdpPort.length, (start cfg).portMap.left? i = some (port : ℤ) := by
  obtain ⟨i, hi, rfl⟩ := List.mem_iff_getElem.mp h
  have hport : initialPort cfg i = (cfg.staticUdpPort[i] : ℕ) := dif_pos hi
  obtain ⟨j, hj⟩ := exists_mem_start (hi.trans_le cfg.enough)
  rw [hport] at hj
  have hleft := Bimap.left?_eq_some_iff.mpr hj
  refine ⟨j, ?_, hleft⟩
  by_contra hge
  have hneg := (left?_start hleft).2
  rw [initialPort_of_le (Nat.not_lt.mp hge)] at hneg
  omega

theorem isSome_left?_start (hge : cfg.staticUdpPort.length ≤ i)
    (hlt : i < cfg.totalPorts) : ((start cfg).portMap.left? i).isSome := by
  obtain ⟨j, hj⟩ := exists_mem_start hlt
  rw [initialPort_of_le hge] at hj
  have hneg := (mem_initialPorts (mem_initialPorts_of_mem_start hj)).2
  have hij : j = i := by
    rcases Nat.lt_or_ge j cfg.staticUdpPort.length with hlt' | hge'
    · have := initialPort_of_lt hlt'
      omega
    · rw [initialPort_of_le hge'] at hneg
      omega
  rw [Bimap.left?_eq_some_iff.mpr (hij ▸ hj)]
  rfl

/-- The static part of the map is as it was, and the numbers in use are those of the start. -/
structure Kept (cfg : Config) (g : Gateway) : Prop where
  static : ∀ i < cfg.staticUdpPort.length, g.portMap.left? i = (start cfg).portMap.left? i
  numbers : ∀ i, (g.portMap.left? i).isSome ↔ ((start cfg).portMap.left? i).isSome
  dynamic : cfg.staticUdpPort.length ≤ g.dynamicPortIndex
  index : cfg.totalPorts ≠ cfg.staticUdpPort.length → g.dynamicPortIndex < cfg.totalPorts

theorem kept_start (cfg : Config) : Kept cfg (start cfg) := by
  refine ⟨fun _ _ => rfl, fun _ => Iff.rfl, le_rfl, ?_⟩
  intro hne
  exact lt_of_le_of_ne cfg.enough (Ne.symm hne)

variable {cfg : Config} {g g' : Gateway}

theorem Kept.nonneg (h : Kept cfg g) (hi : i < cfg.staticUdpPort.length)
    (hport : g.portMap.left? i = some port) : 0 ≤ port := by
  rw [h.static i hi] at hport
  rw [(left?_start hport).2]
  exact initialPort_of_lt hi

theorem Kept.replace (h : Kept cfg g) {i n : ℕ} (hi : cfg.staticUdpPort.length ≤ i)
    (hn : cfg.staticUdpPort.length ≤ n)
    (hlt : cfg.totalPorts ≠ cfg.staticUdpPort.length → n < cfg.totalPorts) :
    Kept cfg ⟨g.portMap.replaceLeft i port, n⟩ := by
  refine ⟨?_, ?_, hn, hlt⟩
  · intro j hj
    rw [Bimap.left?_replaceLeft_of_ne (by omega), h.static j hj]
  · intro j
    rw [Bimap.isSome_left?_replaceLeft, h.numbers j]

theorem le_nextIndex (cfg : Config) (h : cfg.staticUdpPort.length ≤ i) :
    cfg.staticUdpPort.length ≤ nextIndex cfg i := by
  unfold nextIndex
  split_ifs <;> omega

theorem nextIndex_lt (cfg : Config) (i : ℕ) (h : cfg.totalPorts ≠ cfg.staticUdpPort.length) :
    nextIndex cfg i < cfg.totalPorts := by
  have hroom := lt_of_le_of_ne cfg.enough (Ne.symm h)
  unfold nextIndex
  split_ifs <;> omega

theorem Kept.handleUdpPacket (h : Kept cfg g) (udp : UdpHeader) {r : Option (List ℕ)}
    (hr : IpGateway.handleUdpPacket cfg g udp = some (g', r)) : Kept cfg g' := by
  unfold IpGateway.handleUdpPacket at hr
  split at hr
  · cases hr
    exact h
  · split at hr
    · cases hr
      exact h
    · split at hr
      · cases hr
        exact h
      · split at hr
        · cases hr
        · cases hr
          exact h.replace h.dynamic (le_nextIndex cfg h.dynamic) (nextIndex_lt cfg _)

/-- Only a number whose port is negative, and so not a static one, gets another port. -/
theorem Kept.sourcePortOf (h : Kept cfg g) {src unused : ℕ}
    (hr : IpGateway.sourcePortOf g src unused = some (g', port)) :
    Kept cfg g' ∧ ∀ dest p, 0 ≤ p → g.portMap.left? dest = some p → g'.portMap.left? dest = some p := by
  unfold IpGateway.sourcePortOf at hr
  split at hr
  · cases hr
  · next port' hport =>
    split_ifs at hr with hneg
    · cases hr
      have hge : cfg.staticUdpPort.length ≤ src := by
        by_contra hlt
        have := h.nonneg (Nat.not_le.mp hlt) hport
        omega
      refine ⟨h.replace hge h.dynamic h.index, ?_⟩
      intro dest p hp hdest
      rw [Bimap.left?_replaceLeft_of_ne _, hdest]
      rintro rfl
      rw [hport] at hdest
      have := Option.some.inj hdest
      omega
    · cases hr
      exact ⟨h, fun _ _ _ hdest => hdest⟩

theorem Kept.handleModemReceive (h : Kept cfg g) {srcdestPort : List ℕ} {unused : ℕ}
    {r : Option UdpHeader} (hr : IpGateway.handleModemReceive g srcdestPort unused = some (g', r)) :
    Kept cfg g' := by
  unfold IpGateway.handleModemReceive at hr
  split at hr
  · split at hr
    · cases hr
    · next hsource =>
      have hkept := (h.sourcePortOf hsource).1
      split at hr
      · cases hr
      · split_ifs at hr
        · cases hr
          exact hkept
        · cases hr
          exact hkept
  · cases hr
    exact h

theorem Kept.step (c : Call) (h : Kept cfg g) : Kept cfg (IpGateway.step cfg c g) := by
  unfold IpGateway.step
  cases hc : perform cfg c g with
  | none => exact h
  | some g' =>
    rw [Option.getD_some]
    cases c with
    | udpPacket udp =>
      obtain ⟨⟨_, r⟩, hr, rfl⟩ := Option.map_eq_some_iff.mp hc
      exact h.handleUdpPacket udp hr
    | modemReceive srcdestPort unused =>
      obtain ⟨⟨_, r⟩, hr, rfl⟩ := Option.map_eq_some_iff.mp hc
      exact h.handleModemReceive hr

theorem Kept.isSome_handleUdpPacket (h : Kept cfg g) (udp : UdpHeader) :
    (IpGateway.handleUdpPacket cfg g udp).isSome := by
  unfold IpGateway.handleUdpPacket
  split
  · rfl
  · split
    · rfl
    · split
      · rfl
      · next hfull =>
        have hindex := (h.numbers _).mpr (isSome_left?_start h.dynamic (h.index hfull))
        split
        · next hnone => simp [hnone] at hindex
        · rfl

/-- The other side writes to the port of a number that is a static one. -/
theorem Kept.exists_written (h : Kept cfg g) {s d port : ℕ} (hs : (g.portMap.left? s).isSome)
    (hd : g.portMap.left? d = some (port : ℤ)) (unused : ℕ) :
    ∃ g' source, IpGateway.handleModemReceive g [s, d] unused = some (g', some ⟨source, port⟩) := by
  obtain ⟨p, hp⟩ := Option.isSome_iff_exists.mp hs
  obtain ⟨g₁, source, hsource⟩ : ∃ g₁ source, IpGateway.sourcePortOf g s unused = some (g₁, source) := by
    unfold IpGateway.sourcePortOf
    rw [hp]
    dsimp only
    split_ifs
    · exact ⟨_, _, rfl⟩
    · exact ⟨_, _, rfl⟩
  have hdest := (h.sourcePortOf hsource).2 d port (Int.natCast_nonneg port) hd
  refine ⟨g₁, source.toNat, ?_⟩
  simp only [IpGateway.handleModemReceive, hsource, hdest]
  rw [if_neg (by omega), Int.toNat_natCast]

theorem length_header_iff {udp : UdpHeader} {header : List ℕ}
    (hr : handleUdpPacket cfg g udp = some (g', some header)) :
    header.length = 2 ↔ (g.portMap.right? (udp.sourcePort : ℤ)).isSome := by
  unfold handleUdpPacket at hr
  split at hr
  · cases hr
  · split at hr
    · next hsrc =>
      obtain rfl := Option.some.inj (Prod.mk.inj (Option.some.inj hr)).2
      simp [hsrc]
    · next hsrc =>
      split at hr
      · cases hr
      · split at hr
        · cases hr
        · obtain rfl := Option.some.inj (Prod.mk.inj (Option.some.inj hr)).2
          simp [hsrc]

/-- After any packets and receptions on both sides: the static part of the map is untouched,
every packet has a result, and one between mapped ports is sent under their two numbers, from
which the other side finds the destination port again if that is a static one. The header of an
accepted packet has two numbers only if its source port is mapped already. -/
theorem ports_translated (cfg : Config) (g peer : Gateway)
    (h : Reached (step cfg) (defined cfg · ·) (start cfg) g)
    (hpeer : Reached (step cfg) (defined cfg · ·) (start cfg) peer) :
    (∀ i < cfg.staticUdpPort.length, g.portMap.left? i = (start cfg).portMap.left? i) ∧
    (∀ udp, (handleUdpPacket cfg g udp).isSome) ∧
    (∀ udp : UdpHeader, (g.portMap.right? (udp.destPort : ℤ)).isSome →
      (g.portMap.right? (udp.sourcePort : ℤ)).isSome →
      ∃ s d, handleUdpPacket cfg g udp = some (g, some [s, d]) ∧
        g.portMap.left? s = some (udp.sourcePort : ℤ) ∧ g.portMap.left? d = some (udp.destPort : ℤ) ∧
        (udp.destPort ∈ cfg.staticUdpPort → ∀ unused, ∃ peer' source,
          handleModemReceive peer [s, d] unused = some (peer', some ⟨source, udp.destPort⟩))) ∧
    ∀ (udp : UdpHeader) (g' : Gateway) (header : List ℕ),
      handleUdpPacket cfg g udp = some (g', some header) →
        (header.length = 2 ↔ (g.portMap.right? (udp.sourcePort : ℤ)).isSome) := by
  have hkept : Kept cfg g := h.invariant (kept_start cfg) fun _ c hs _ => hs.step c
  have hkept' : Kept cfg peer := hpeer.invariant (kept_start cfg) fun _ c hs _ => hs.step c
  refine ⟨hkept.static, hkept.isSome_handleUdpPacket, ?_, fun _ _ _ hr => length_header_iff hr⟩
  intro udp hdest hsrc
  obtain ⟨d, hd⟩ := Option.isSome_iff_exists.mp hdest
  obtain ⟨s, hs⟩ := Option.isSome_iff_exists.mp hsrc
  have hleft := Bimap.left?_eq_some_iff.mpr (Bimap.right?_eq_some_iff.mp hs)
  have hright := Bimap.left?_eq_some_iff.mpr (Bimap.right?_eq_some_iff.mp hd)
  refine ⟨s, d, by simp [handleUdpPacket, hd, hs], hleft, hright, ?_⟩
  intro hstatic unused
  -- the static number of the destination port is the one that was found, and the same there
  obtain ⟨i, hi, hport⟩ := exists_static_number hstatic
  have hmine : g.portMap.left? i = some (udp.destPort : ℤ) := (hkept.static i hi).trans hport
  have hdi : d = i :=
    congrArg Prod.fst (g.portMap.right_inj _ (Bimap.left?_eq_some_iff.mp hright) _
      (Bimap.left?_eq_some_iff.mp hmine) rfl)
  have hknown : (peer.portMap.left? s).isSome := by
    rw [hkept'.numbers, ← hkept.numbers, hleft]
    rfl
  rw [hdi]
  exact hkept'.exists_written hknown ((hkept'.static i hi).trans hport) unused

def sampleConfig : Config := ⟨4, [1001, 1002], by decide⟩

theorem ports_translated_sample :
    handleUdpPacket sampleConfig (start sampleConfig) ⟨1001, 1002⟩ =
        some (start sampleConfig, some [0, 1]) ∧
      ∃ s d, handleUdpPacket sampleConfig (start sampleConfig) ⟨1001, 1002⟩ =
          some (start sampleConfig, some [s, d]) ∧
        ∃ peer source, handleModemReceive (start sampleConfig) [s, d] 40000 =
          some (peer, some ⟨source, 1002⟩) := by
  refine ⟨rfl, ?_⟩
  obtain ⟨-, -, hmapped, -⟩ := ports_translated sampleConfig (start sampleConfig) (start sampleConfig)
    .start .start
  obtain ⟨s, d, hr, -, -, hwritten⟩ := hmapped ⟨1001, 1002⟩ rfl rfl
  exact ⟨s, d, hr, hwritten (by decide) 40000⟩

/-- A source port that is not mapped gets the number 2, and the header three numbers. -/
theorem handleUdpPacket_unmapped_source :
    ((start sampleConfig).portMap.right? 1002).isSome ∧
      (handleUdpPacket sampleConfig (start sampleConfig) ⟨5000, 1002⟩).map Prod.snd =
        some (some [2, 0, 1]) :=
  ⟨rfl, rfl⟩

end Goby.IpGateway
