import Goby.TransmissionMessages
import Mathlib.Data.List.Nodup
import Mathlib.Logic.Function.Iterate
import Std.Data.TreeMap

/-! Every node of a route has the same list of hops and forwards a message to the neighbour of
its own first place in the list that lies towards the first place of the destination. On a
route without repetitions the distance to the destination goes down by one with every hop,
which is all that delivery and freedom from loops need. The functions are those of
`RouteManager` by their names; a queue manager is known by a pointer of type `Manager`. -/

namespace Goby

section Approach

variable {α : Type} {f : α → α} {P : α → Prop} {rank : α → ℕ}

/-- On `P`, the function lowers the rank by one unless it is zero, and stays in `P`. -/
def Approaches (f : α → α) (P : α → Prop) (rank : α → ℕ) : Prop :=
  ∀ a, P a → rank a ≠ 0 → P (f a) ∧ rank (f a) + 1 = rank a

theorem Approaches.iterate (h : Approaches f P rank) {a : α} (ha : P a) {m : ℕ} (hm : m ≤ rank a) :
    P (f^[m] a) ∧ rank (f^[m] a) + m = rank a := by
  induction m with
  | zero => exact ⟨ha, rfl⟩
  | succ m ih =>
    obtain ⟨hP, hrank⟩ := ih (by omega)
    obtain ⟨hP', hrank'⟩ := h _ hP (by omega)
    rw [Function.iterate_succ_apply']
    exact ⟨hP', by omega⟩

theorem Approaches.iterate_inj (h : Approaches f P rank) {a : α} (ha : P a) {m m' : ℕ}
    (hm : m ≤ rank a) (hm' : m' ≤ rank a) (heq : f^[m] a = f^[m'] a) : m = m' := by
  have h₁ := (h.iterate ha hm).2
  have h₂ := (h.iterate ha hm').2
  rw [heq] at h₁
  omega

end Approach

structure RouteManagerConfig where
  hop : List ℤ := []
  subnetMask : Option ℕ := none
  defaultGateway : Option ℕ := none

def RouteManagerConfig.subnetMaskD (c : RouteManagerConfig) : ℕ := c.subnetMask.getD 0xFFFFFF00

def RouteManagerConfig.subnet (c : RouteManagerConfig) (modemId : ℤ) : ℕ :=
  toUnsigned modemId &&& c.subnetMaskD

structure RouteManager (Manager : Type) where
  cfg : RouteManagerConfig := {}
  subnetMap : Std.TreeMap ℕ Manager := ∅

namespace RouteManager

variable {Manager Msg : Type} (r : RouteManager Manager) {us dest : ℤ}

def routeIndexFrom (modemId : ℤ) : ℤ → List ℤ → ℤ
  | _, [] => -1
  | i, hop :: rest => if hop = modemId then i else routeIndexFrom modemId (i + 1) rest

def routeIndex (modemId : ℤ) : ℤ := routeIndexFrom modemId 0 r.cfg.hop

def direction (current dest : ℤ) : ℤ :=
  if dest < current then -1 else if dest > current then 1 else 0

def findNextRouteHop (us dest : ℤ) : ℤ :=
  let currentRouteIndex := r.routeIndex us
  if currentRouteIndex = -1 then -1
  else
    let destRouteIndex := r.routeIndex dest
    if destRouteIndex = -1 then -1
    else
      let nextHopIndex := currentRouteIndex + direction currentRouteIndex destRouteIndex
      if h : nextHopIndex < 0 ∨ nextHopIndex ≥ r.cfg.hop.length then -1
      else r.cfg.hop[nextHopIndex.toNat]

def findNextHop (us dest : ℤ) : ℤ :=
  let nextHop := r.findNextRouteHop us dest
  if nextHop = -1 then (r.cfg.defaultGateway.map (fun g : ℕ => toInt g)).getD nextHop else nextHop

/-- The call of `push_message` by which an incoming message is queued again, if any. -/
def handleIn (msgMeta : QueuedMessageMeta) (dataMsg : Msg) (modemId : ℤ) :
    Option (Manager × Msg × QueuedMessageMeta) :=
  if msgMeta.destD = modemId then none
  else
    let nextHop := r.findNextHop modemId msgMeta.destD
    if nextHop ≠ -1 then
      (r.subnetMap[r.cfg.subnet nextHop]?).map (fun manager => (manager, dataMsg, msgMeta))
    else none

def handleOut (msgMeta : QueuedMessageMeta) (modemId : ℤ) : QueuedMessageMeta :=
  let nextHop := r.findNextHop modemId msgMeta.destD
  if nextHop ≠ -1 then { msgMeta with dest := some nextHop } else msgMeta

theorem routeIndexFrom_eq (modemId i : ℤ) (hops : List ℤ) :
    routeIndexFrom modemId i hops = if modemId ∈ hops then i + hops.idxOf modemId else -1 := by
  induction hops generalizing i with
  | nil => rfl
  | cons hop rest ih =>
    by_cases h : hop = modemId
    · simp [routeIndexFrom, h]
    · simp only [routeIndexFrom, h, ↓reduceIte, ih, List.mem_cons, Ne.symm h, false_or,
        List.idxOf_cons_ne _ h, Nat.cast_succ]
      split <;> omega

variable {r}

theorem routeIndex_of_mem {modemId : ℤ} (h : modemId ∈ r.cfg.hop) :
    r.routeIndex modemId = r.cfg.hop.idxOf modemId := by
  simp [routeIndex, routeIndexFrom_eq, h]

theorem routeIndex_getElem (hn : r.cfg.hop.Nodup) {i : ℕ} (hi : i < r.cfg.hop.length) :
    r.routeIndex r.cfg.hop[i] = i := by
  rw [routeIndex_of_mem (List.getElem_mem hi), hn.idxOf_getElem]

theorem routeIndex_inj {x y : ℤ} (hx : x ∈ r.cfg.hop) (hy : y ∈ r.cfg.hop)
    (h : r.routeIndex x = r.routeIndex y) : x = y := by
  rw [routeIndex_of_mem hx, routeIndex_of_mem hy] at h
  exact (List.idxOf_inj hx).mp (by omega)

theorem findNextRouteHop_spec (hn : r.cfg.hop.Nodup) (hus : us ∈ r.cfg.hop)
    (hdest : dest ∈ r.cfg.hop) :
    r.findNextRouteHop us dest ∈ r.cfg.hop ∧
      r.routeIndex (r.findNextRouteHop us dest) =
        r.routeIndex us + direction (r.routeIndex us) (r.routeIndex dest) := by
  have hi := List.idxOf_lt_length_of_mem hus
  have hd := List.idxOf_lt_length_of_mem hdest
  have hui := routeIndex_of_mem hus
  have hdi := routeIndex_of_mem hdest
  obtain ⟨j, hj, hlt⟩ : ∃ j : ℕ, r.routeIndex us + direction (r.routeIndex us) (r.routeIndex dest) = j ∧
      j < r.cfg.hop.length := by
    refine ⟨(r.routeIndex us + direction (r.routeIndex us) (r.routeIndex dest)).toNat, ?_, ?_⟩ <;>
      unfold direction <;> split_ifs <;> omega
  have hnext : r.findNextRouteHop us dest = r.cfg.hop[j] := by
    have hrange : ¬((j : ℤ) < 0 ∨ (j : ℤ) ≥ r.cfg.hop.length) := by omega
    simp only [findNextRouteHop, hj, hrange, ↓reduceDIte, Int.toNat_natCast]
    rw [if_neg (by omega), if_neg (by omega)]
  rw [hnext, hj]
  exact ⟨List.getElem_mem hlt, routeIndex_getElem hn hlt⟩

variable (r)

/-- A node whose place is on the segment between those of two others. -/
def Between (us dest x : ℤ) : Prop :=
  min (r.routeIndex us) (r.routeIndex dest) ≤ r.routeIndex x ∧
    r.routeIndex x ≤ max (r.routeIndex us) (r.routeIndex dest)

def distance (us dest : ℤ) : ℕ := (r.routeIndex us - r.routeIndex dest).natAbs

def nodeAfter (us dest : ℤ) (hops : ℕ) : ℤ := (fun x => r.findNextHop x dest)^[hops] us

/-- No hop on the way, behind the first node, has the value that stands for no hop. -/
def Unambiguous (us dest : ℤ) : Prop :=
  ∀ x ∈ r.cfg.hop, r.Between us dest x → x ≠ us → x ≠ -1

variable {r}

theorem distance_eq_zero (hus : us ∈ r.cfg.hop) (hdest : dest ∈ r.cfg.hop) :
    r.distance us dest = 0 ↔ us = dest := by
  constructor
  · intro h
    refine routeIndex_inj hus hdest ?_
    unfold distance at h
    omega
  · rintro rfl
    simp [distance]

/-- A node on the way does not need the gateway, and hands on to a node on the way that is
one hop closer. -/
theorem findNextHop_spec (hn : r.cfg.hop.Nodup) {us dest x : ℤ} (hdest : dest ∈ r.cfg.hop)
    (hu : r.Unambiguous us dest) (hx : x ∈ r.cfg.hop) (hb : r.Between us dest x)
    (hne : r.distance x dest ≠ 0) :
    r.findNextRouteHop x dest ≠ -1 ∧ r.findNextHop x dest = r.findNextRouteHop x dest ∧
      r.findNextHop x dest ∈ r.cfg.hop ∧ r.Between us dest (r.findNextHop x dest) ∧
      r.distance (r.findNextHop x dest) dest + 1 = r.distance x dest := by
  obtain ⟨hmem, hindex⟩ := findNextRouteHop_spec hn hx hdest
  unfold direction at hindex
  have hb' : r.Between us dest (r.findNextRouteHop x dest) := by
    unfold Between distance at *
    split_ifs at hindex <;> omega
  have hus : r.findNextRouteHop x dest ≠ us := by
    intro heq
    rw [heq] at hindex
    unfold Between distance at *
    split_ifs at hindex <;> omega
  have hvalid := hu _ hmem hb' hus
  have hnext : r.findNextHop x dest = r.findNextRouteHop x dest := by simp [findNextHop, hvalid]
  refine ⟨hvalid, hnext, ?_⟩
  rw [hnext]
  refine ⟨hmem, hb', ?_⟩
  unfold distance at *
  split_ifs at hindex <;> omega

theorem findNextHop_approaches (hn : r.cfg.hop.Nodup) (hdest : dest ∈ r.cfg.hop)
    (hu : r.Unambiguous us dest) :
    Approaches (fun x => r.findNextHop x dest) (fun x => x ∈ r.cfg.hop ∧ r.Between us dest x)
      (fun x => r.distance x dest) := by
  rintro x ⟨hx, hb⟩ hne
  obtain ⟨-, -, hmem, hb', hcloser⟩ := findNextHop_spec hn hdest hu hx hb hne
  exact ⟨⟨hmem, hb'⟩, hcloser⟩

/-- A message is handed on along the route until it reaches its destination: after exactly
as many hops as lie between, through different nodes on the segment between, by the route
alone. Both ways of handing it on, to the queue of a subnet and to the next address, take
the next node on the way, and nothing is handed on at the destination. -/
theorem route_reaches (hn : r.cfg.hop.Nodup) {us dest : ℤ} (hus : us ∈ r.cfg.hop)
    (hdest : dest ∈ r.cfg.hop) (hu : r.Unambiguous us dest)
    {msgMeta : QueuedMessageMeta} (hmeta : msgMeta.destD = dest) (dataMsg : Msg) :
    r.nodeAfter us dest (r.distance us dest) = dest ∧
    r.handleIn msgMeta dataMsg dest = none ∧
    (∀ m m', m ≤ r.distance us dest → m' ≤ r.distance us dest →
      r.nodeAfter us dest m = r.nodeAfter us dest m' → m = m') ∧
    (∀ m ≤ r.distance us dest, r.nodeAfter us dest m ∈ r.cfg.hop ∧
      r.Between us dest (r.nodeAfter us dest m)) ∧
    ∀ m < r.distance us dest,
      r.nodeAfter us dest m ≠ dest ∧
      r.findNextRouteHop (r.nodeAfter us dest m) dest ≠ -1 ∧
      r.nodeAfter us dest (m + 1) = r.findNextRouteHop (r.nodeAfter us dest m) dest ∧
      r.handleOut msgMeta (r.nodeAfter us dest m) =
        { msgMeta with dest := some (r.nodeAfter us dest (m + 1)) } ∧
      r.handleIn msgMeta dataMsg (r.nodeAfter us dest m) =
        (r.subnetMap[r.cfg.subnet (r.nodeAfter us dest (m + 1))]?).map
          (fun manager => (manager, dataMsg, msgMeta)) := by
  have happ := findNextHop_approaches hn hdest hu
  have hstart : us ∈ r.cfg.hop ∧ r.Between us dest us := by
    refine ⟨hus, ?_⟩
    unfold Between
    omega
  have hway : ∀ m ≤ r.distance us dest, (r.nodeAfter us dest m ∈ r.cfg.hop ∧
      r.Between us dest (r.nodeAfter us dest m)) ∧
      r.distance (r.nodeAfter us dest m) dest + m = r.distance us dest :=
    fun m hm => happ.iterate hstart hm
  refine ⟨?_, by simp [handleIn, hmeta], ?_, fun m hm => (hway m hm).1, ?_⟩
  · obtain ⟨⟨hmem, -⟩, hzero⟩ := hway _ (Nat.le_refl _)
    exact (distance_eq_zero hmem hdest).mp (by omega)
  · exact fun m m' hm hm' heq => happ.iterate_inj hstart hm hm' heq
  · intro m hm
    obtain ⟨⟨hmem, hb⟩, hleft⟩ := hway m (Nat.le_of_lt hm)
    have hnonzero : r.distance (r.nodeAfter us dest m) dest ≠ 0 := by omega
    have hother : r.nodeAfter us dest m ≠ dest := fun h => hnonzero ((distance_eq_zero hmem hdest).mpr h)
    obtain ⟨hvalid, hnext, -⟩ := findNextHop_spec hn hdest hu hmem hb hnonzero
    have hsucc : r.nodeAfter us dest (m + 1) = r.findNextHop (r.nodeAfter us dest m) dest :=
      Function.iterate_succ_apply' _ _ _
    have hhop : r.findNextHop (r.nodeAfter us dest m) dest ≠ -1 := by rwa [hnext]
    refine ⟨hother, hvalid, hsucc.trans hnext, ?_, ?_⟩
    · simp [handleOut, hmeta, hhop, hsucc]
    · simp [handleIn, hmeta, hother.symm, hhop, hsucc]

def sampleRoute (hop : List ℤ) : RouteManager Unit :=
  { cfg := { hop := hop, defaultGateway := some 9 } }

/-- Node 3 sends to node 4 over node 1, although there is a gateway. -/
theorem route_reaches_sample : (sampleRoute [4, 1, 3, 7]).nodeAfter 3 4 2 = 4 := by
  have hhops : ∀ x ∈ (sampleRoute [4, 1, 3, 7]).cfg.hop, x ≠ -1 := by decide
  have hmeta : ({ dest := some 4 } : QueuedMessageMeta).destD = 4 := rfl
  exact (route_reaches (by decide) (by decide) (by decide) (fun x hx _ _ => hhops x hx) hmeta ()).1

/-- With a hop of value -1 on the way, node 1 finds no next hop and uses the gateway. -/
theorem ambiguous_hop_gateway :
    (sampleRoute [1, -1, 2]).cfg.hop.Nodup ∧ (sampleRoute [1, -1, 2]).findNextHop 1 2 = 9 ∧
      ∀ m ≤ 2, (sampleRoute [1, -1, 2]).nodeAfter 1 2 m ≠ 2 := by
  decide

end RouteManager
end Goby
