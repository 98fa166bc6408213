import Goby.BenthosNode
import Goby.CallRuns
import Goby.LabelledPackets

/-! Data and acknowledgments pass between two nodes, wait in their buffers, and may be lost or come
late and in any order. The frame numbers are labels that every packet uses again from zero on, so
a message that an acknowledgment removes was received as long as no data is requested while a
packet with these frames, or the acknowledgment of one, can still arrive. Neither the driver nor
the manager waits for that. -/

namespace Goby

namespace QueueManager

variable {Desc Msg : Type} {r : Record Desc Msg}

def Record.requests (r : Record Desc Msg) (frame : ℕ) : Bool :=
  match r.call with
  | .handleModemDataRequest _ msg =>
    decide (msg.frameStart ≤ frame ∧ frame < msg.frameStart + msg.maxNumFrames)
  | _ => false

theorem Record.requests_iff {frame : ℕ} : r.requests frame = true ↔ r.Requests frame := by
  constructor
  · intro h
    unfold requests at h
    split at h
    case h_1 fuel msg hcall => exact ⟨fuel, msg, hcall, of_decide_eq_true h⟩
    case h_2 => exact absurd h nofun
  · rintro ⟨fuel, msg, hcall, hframe⟩
    rw [requests, hcall]
    exact decide_eq_true hframe

def lastRequest (rs : List (Record Desc Msg)) (frame : ℕ) : Option ℕ :=
  rs.zipIdx.foldl (fun last e => if e.1.requests frame then some e.2 else last) none

theorem lastRequest_append_singleton (rs : List (Record Desc Msg)) (r : Record Desc Msg) (frame : ℕ) :
    lastRequest (rs ++ [r]) frame =
      if r.requests frame then some rs.length else lastRequest rs frame := by
  simp [lastRequest, List.zipIdx_append]

theorem LatestRequest.lastRequest {rs : List (Record Desc Msg)} {frame i : ℕ}
    (h : LatestRequest rs frame i r) : QueueManager.lastRequest rs frame = some i := by
  induction rs using List.reverseRecOn with
  | nil => exact absurd h.1 nofun
  | append_singleton rs last ih =>
    obtain ⟨hi, hreq, hlatest⟩ := h
    have hlen : i < (rs ++ [last]).length := (List.getElem?_eq_some_iff.mp hi).1
    rw [List.length_append, List.length_singleton] at hlen
    rw [lastRequest_append_singleton]
    rcases Nat.lt_or_ge i rs.length with hlt | hge
    · have hlast : ¬ last.Requests frame := hlatest rs.length last hlt (by simp)
      rw [if_neg (fun h => hlast (Record.requests_iff.mp h))]
      refine ih ⟨by rwa [List.getElem?_append_left hlt] at hi, hreq, fun j r' hj hr' => ?_⟩
      have hjlt : j < rs.length := (List.getElem?_eq_some_iff.mp hr').1
      exact hlatest j r' hj (by rwa [List.getElem?_append_left hjlt])
    · obtain rfl : i = rs.length := by omega
      obtain rfl : last = r := by simpa using hi
      rw [if_pos (Record.requests_iff.mpr hreq)]

end QueueManager

open QueueManager Exchange

inductive ApplicationCall (Msg : Type) where
  | pushMessage (msg : Msg) (given : Option QueuedMessageMeta)
  | flushQueue (dcclId : ℕ)
  | doWork
  | setCfg (cfg : QueueManagerConfig)
  | mergeCfg (cfg : QueueManagerConfig)

def ApplicationCall.toCall {Msg : Type} : ApplicationCall Msg → Call Msg
  | .pushMessage msg given => .pushMessage msg given
  | .flushQueue dcclId => .flushQueue dcclId
  | .doWork => .doWork
  | .setCfg cfg => .setCfg cfg
  | .mergeCfg cfg => .mergeCfg cfg

structure BenthosSetup (Desc Msg : Type) where
  env : Bool → Environment Desc Msg
  header : BenthosHeaderCodec
  modemId : Bool → ℤ
  maxFrameSize : Bool → ℕ := fun _ => 64

/-- The two nodes, and for each of them the packets it has received. -/
structure BenthosLink (Desc Msg : Type) where
  node : Bool → BenthosNode Desc Msg
  received : Bool → List ℕ := fun _ => []

namespace BenthosLink

variable {Desc Msg : Type} {n : BenthosNode Desc Msg} {msg : ModemTransmission}
  {env : Environment Desc Msg} {maxFrameSize fuel : ℕ}

inductive Call (Msg : Type) where
  | application (i : Bool) (c : ApplicationCall Msg)
  | initiate (i : Bool) (fuel : ℕ) (msg : ModemTransmission)
  | transmit (i : Bool)
  /-- The packet of `j` at a position arrives at the other node, as one to the address that was
  called, or is lost. -/
  | arrive (j : Bool) (k : ℕ) (dest : ℤ)
  | lose (j : Bool) (k : ℕ)

def setNode (s : BenthosLink Desc Msg) (i : Bool) (n : BenthosNode Desc Msg) : BenthosLink Desc Msg :=
  { s with node := Function.update s.node i n }

def drop (s : BenthosLink Desc Msg) (j : Bool) (k : ℕ) : BenthosLink Desc Msg :=
  s.setNode j { s.node j with inWater := (s.node j).inWater.eraseIdx k }

def start (managerId : Bool → ℤ) (codec : Bool → DcclCodec Desc) : BenthosLink Desc Msg where
  node i := { manager := ⟨[], initial (managerId i) (codec i)⟩ }

section Steps

variable [DecidableEq Desc] (setup : BenthosSetup Desc Msg)

def arrived (j : Bool) (m : ModemTransmission) (dest : ℤ) : ModemTransmission :=
  { m with
    src := setup.modemId j
    dest := some dest }

/-- The other node receives a packet from `j`; one that cannot be parsed is ignored. -/
def deliver (s : BenthosLink Desc Msg) (j : Bool) (p : BenthosPacket) (dest : ℤ) :
    BenthosLink Desc Msg :=
  match p.content setup.header with
  | none => s
  | some m =>
    { s.setNode (!j) ((s.node !j).receive (setup.env !j) (setup.modemId !j) (arrived setup j m dest)) with
      received := Function.update s.received (!j) (p.call :: s.received !j) }

def step : Call Msg → BenthosLink Desc Msg → BenthosLink Desc Msg
  | .application i c, s => s.setNode i ((s.node i).callManager (setup.env i) c.toCall)
  | .initiate i fuel msg, s =>
    s.setNode i
      ((s.node i).handleInitiateTransmission (setup.env i) (setup.maxFrameSize i) fuel msg)
  | .transmit i, s => s.setNode i (s.node i).transmit
  | .arrive j k dest, s =>
    match (s.node j).inWater[k]? with
    | none => s
    | some p => (s.deliver setup j p dest).drop j k
  | .lose j k, s => s.drop j k

/-- No packet of node `i` with the frame is on the way, and no acknowledgment of it. -/
def isFree (s : BenthosLink Desc Msg) (i : Bool) (f : ℕ) : Bool :=
  (s.node i).onTheWay.all (fun p => !p.announces setup.header f) &&
    (s.node !i).onTheWay.all (fun p => !p.acknowledges setup.header f)

/-- Data is requested for frames from zero on, as many as the header can acknowledge and not
fewer than are given, and only for free ones. -/
def requestsFree (s : BenthosLink Desc Msg) : Call Msg → Bool
  | .initiate i _ msg => msg.type ≠ .data ||
    (msg.frameStart = 0 && msg.ackedFrame = [] && msg.frame.length ≤ msg.maxNumFrames &&
      msg.maxNumFrames ≤ 8 && (List.range msg.maxNumFrames).all (s.isFree setup i))
  | _ => true

def view (s : BenthosLink Desc Msg) (i : Bool) : Exchange ℕ ℕ where
  latest := lastRequest (s.node i).manager.records
  underway := {e | ∃ p ∈ (s.node i).onTheWay, p.announces setup.header e.1 = true ∧ p.call = e.2}
  received := {n | n ∈ s.received !i}
  returning := {f | ∃ p ∈ (s.node !i).onTheWay, p.acknowledges setup.header f = true}

end Steps

section Moves

variable {setup : BenthosSetup Desc Msg} {s : BenthosLink Desc Msg} {i j : Bool}

theorem view_isFree {f : ℕ} (h : s.isFree setup i f = true) : (s.view setup i).IsFree f := by
  obtain ⟨hunderway, hreturning⟩ := Bool.and_eq_true_iff.mp h
  refine ⟨?_, ?_⟩
  · rintro n ⟨p, hp, hf, -⟩
    have hno := List.all_eq_true.mp hunderway p hp
    rw [hf] at hno
    exact absurd hno nofun
  · rintro ⟨p, hp, hf⟩
    have hno := List.all_eq_true.mp hreturning p hp
    rw [hf] at hno
    exact absurd hno nofun

theorem setNode_node_self (s : BenthosLink Desc Msg) (i : Bool) (n : BenthosNode Desc Msg) :
    (s.setNode i n).node i = n := Function.update_self ..

theorem setNode_node_of_ne (h : j ≠ i) (n : BenthosNode Desc Msg) :
    (s.setNode i n).node j = s.node j := Function.update_of_ne h _ _

theorem setNode_node_not (n : BenthosNode Desc Msg) : (s.setNode i n).node (!i) = s.node !i :=
  setNode_node_of_ne (Bool.not_ne_self i) n

/-- What a node that announces nothing new does to its own view. -/
theorem setNode_move_self
    (hlatest : lastRequest n.manager.records = lastRequest (s.node i).manager.records)
    (hannounced : ∀ p ∈ n.onTheWay, ∀ f, p.announces setup.header f = true → p ∈ (s.node i).onTheWay) :
    Move (s.view setup i) ((s.setNode i n).view setup i) := by
  refine .forget ?_ ?_ (Set.Subset.refl _) ?_
  · rw [view, setNode_node_self]
    exact hlatest
  · rintro ⟨f, k⟩ ⟨p, hp, hf, hk⟩
    rw [setNode_node_self] at hp
    exact ⟨p, hannounced p hp f hf, hf, hk⟩
  · rintro f ⟨p, hp, hf⟩
    rw [setNode_node_not] at hp
    exact ⟨p, hp, hf⟩

/-- What a node that acknowledges nothing new does to the view of the other one. -/
theorem setNode_move_other
    (hacked : ∀ p ∈ n.onTheWay, ∀ f, p.acknowledges setup.header f = true → p ∈ (s.node i).onTheWay) :
    Move (s.view setup !i) ((s.setNode i n).view setup !i) := by
  refine .forget ?_ ?_ (Set.Subset.refl _) ?_
  · rw [view, setNode_node_not]
    rfl
  · rintro ⟨f, k⟩ ⟨p, hp, hf, hk⟩
    rw [setNode_node_not] at hp
    exact ⟨p, hp, hf, hk⟩
  · rintro f ⟨p, hp, hf⟩
    rw [Bool.not_not, setNode_node_self] at hp
    refine ⟨p, ?_, hf⟩
    rw [Bool.not_not]
    exact hacked p hp f hf

theorem setNode_move
    (hlatest : lastRequest n.manager.records = lastRequest (s.node i).manager.records)
    (hsubset : ∀ p ∈ n.onTheWay, p ∈ (s.node i).onTheWay) (j : Bool) :
    Move (s.view setup j) ((s.setNode i n).view setup j) := by
  rcases Bool.eq_or_eq_not j i with rfl | rfl
  · exact setNode_move_self hlatest fun p hp _ _ => hsubset p hp
  · exact setNode_move_other fun p hp _ _ => hsubset p hp

variable [DecidableEq Desc]

theorem lastRequest_extend (t : Run Desc Msg) (c : Goby.Call Msg) (f : ℕ) :
    lastRequest (t.extend env c).records f =
      if (record env t.state c).requests f then some t.records.length else lastRequest t.records f := by
  rw [extend_records, lastRequest_append_singleton]

theorem lastRequest_extend_of_not (t : Run Desc Msg) {c : Goby.Call Msg}
    (hc : ∀ fuel msg, c ≠ .handleModemDataRequest fuel msg) :
    lastRequest (t.extend env c).records = lastRequest t.records := by
  funext f
  rw [lastRequest_extend, if_neg]
  intro h
  obtain ⟨fuel, msg, hcall, -⟩ := Record.requests_iff.mp h
  exact hc fuel msg ((record_call t.state c).symm.trans hcall)

theorem lastRequest_handleInitiateTransmission (htype : msg.type = .data)
    (hstart : msg.frameStart = 0) (f : ℕ) :
    lastRequest (n.handleInitiateTransmission env maxFrameSize fuel msg).manager.records f =
      if f < msg.maxNumFrames then some n.manager.records.length
      else lastRequest n.manager.records f := by
  obtain ⟨limit, hlimit⟩ := BenthosNode.limitFrameBytes_eq maxFrameSize msg
  rw [BenthosNode.handleInitiateTransmission_manager htype, lastRequest_extend, Record.requests,
    record_call, hlimit]
  simp [hstart]

theorem initiate_move_self
    (hn : Inv (setup.env i) (s.node i).manager.state) (htype : msg.type = .data)
    (hstart : msg.frameStart = 0) (hacked : msg.ackedFrame = [])
    (hframe : msg.frame.length ≤ msg.maxNumFrames)
    (hfree : ∀ f < msg.maxNumFrames, s.isFree setup i f = true) :
    Move (s.view setup i) ((s.setNode i ((s.node i).handleInitiateTransmission (setup.env i)
      maxFrameSize fuel msg)).view setup i) := by
  refine .assign {f | f < msg.maxNumFrames} (s.node i).manager.records.length
    (fun f hf => view_isFree (hfree f hf)) ?_ ?_ ?_ (Set.Subset.refl _) ?_
  · intro f hf
    rw [view, setNode_node_self]
    exact (lastRequest_handleInitiateTransmission htype hstart f).trans (if_pos hf)
  · intro f hf
    rw [view, setNode_node_self]
    exact (lastRequest_handleInitiateTransmission htype hstart f).trans (if_neg hf)
  · rintro f k ⟨p, hp, hf, hk⟩
    rw [setNode_node_self] at hp
    rcases BenthosNode.mem_onTheWay_handleInitiateTransmission hn hp with hp | hp
    · exact .inl ⟨p, hp, hf, hk⟩
    · have hlt := BenthosPacket.lt_of_data_announces (hp.ackedFrame.trans hacked) hf
      have hlength := hp.frame
      refine .inr ⟨?_, hk.symm.trans hp.call⟩
      change f < msg.maxNumFrames
      omega
  · rintro f ⟨p, hp, hf⟩
    rw [setNode_node_not] at hp
    exact ⟨p, hp, hf⟩

theorem initiate_move_other
    (hn : Inv (setup.env i) (s.node i).manager.state) (hacked : msg.ackedFrame = []) :
    Move (s.view setup !i) ((s.setNode i ((s.node i).handleInitiateTransmission (setup.env i)
      maxFrameSize fuel msg)).view setup !i) := by
  refine setNode_move_other fun p hp f hf => ?_
  rcases BenthosNode.mem_onTheWay_handleInitiateTransmission hn hp with hp | hp
  · exact hp
  · exact absurd hf (BenthosPacket.data_not_acknowledges (hp.ackedFrame.trans hacked) f)

section Arrival

variable {p : BenthosPacket} {m : ModemTransmission} {dest : ℤ}

section

variable (hm : p.content setup.header = some m)
include hm

theorem deliver_eq :
    s.deliver setup j p dest =
      { s.setNode (!j) ((s.node !j).receive (setup.env !j) (setup.modemId !j)
          (arrived setup j m dest)) with
        received := Function.update s.received (!j) (p.call :: s.received !j) } := by
  rw [deliver, hm]

theorem deliver_node_not :
    (s.deliver setup j p dest).node (!j) = (s.node !j).receive (setup.env !j) (setup.modemId !j)
      (arrived setup j m dest) := by
  rw [deliver_eq hm]
  exact setNode_node_self ..

theorem deliver_node_self : (s.deliver setup j p dest).node j = s.node j := by
  rw [deliver_eq hm]
  exact setNode_node_of_ne (Bool.not_ne_self j).symm _

theorem deliver_received_not :
    (s.deliver setup j p dest).received (!j) = p.call :: s.received !j := by
  rw [deliver_eq hm]
  exact Function.update_self ..

theorem deliver_received_self : (s.deliver setup j p dest).received j = s.received j := by
  rw [deliver_eq hm]
  exact Function.update_of_ne (Bool.not_ne_self j).symm _ _

end

omit [DecidableEq Desc] in
theorem arrived_frameStart (hm : p.content setup.header = some m) :
    (arrived setup j m dest).frameStart = 0 := by
  have hstart : m.frameStart = 0 := BenthosPacket.content_frameStart hm
  exact hstart

theorem deliver_move_self (hm : p.content setup.header = some m) (hsized : m.frame.length ≤ 8)
    (hp : p ∈ (s.node j).onTheWay) :
    Move (s.view setup j) ((s.deliver setup j p dest).view setup j) := by
  refine .arrive p.call ?_ ?_ ?_ ?_
  · rw [view, deliver_node_self hm]
    rfl
  · rintro ⟨f, k⟩ ⟨q, hq, hf, hk⟩
    rw [deliver_node_self hm] at hq
    exact ⟨q, hq, hf, hk⟩
  · intro k hk
    change k ∈ (s.deliver setup j p dest).received !j
    rw [deliver_received_not hm]
    exact List.mem_cons.mpr hk
  · rintro f ⟨q, hq, hf⟩
    rw [deliver_node_not hm] at hq
    rcases BenthosNode.mem_onTheWay_receive hq with hq | ⟨rfl, htype, hrequested⟩
    · exact .inl ⟨q, hq, hf⟩
    · have hlt := BenthosNode.lt_of_ackFor_acknowledges (arrived_frameStart hm) hsized _ hf
      exact .inr ⟨p, hp, BenthosPacket.announces_iff.mpr ⟨m, hm, htype, hrequested, hlt⟩, rfl⟩

theorem deliver_move_other (hm : p.content setup.header = some m) (hsized : m.frame.length ≤ 8) :
    Move (s.view setup !j) ((s.deliver setup j p dest).view setup !j) := by
  have hlatest : lastRequest ((s.deliver setup j p dest).node !j).manager.records =
      lastRequest (s.node !j).manager.records := by
    rw [deliver_node_not hm, BenthosNode.receive_manager]
    exact lastRequest_extend_of_not _ (fun _ _ h => absurd h nofun)
  refine .forget hlatest ?_ ?_ ?_
  · rintro ⟨f, k⟩ ⟨q, hq, hf, hk⟩
    rw [deliver_node_not hm] at hq
    rcases BenthosNode.mem_onTheWay_receive hq with hq | ⟨rfl, -⟩
    · exact ⟨q, hq, hf, hk⟩
    · exact absurd hf (BenthosNode.ackFor_not_announces (arrived_frameStart hm) hsized _ f)
  · intro k hk
    change k ∈ (s.deliver setup j p dest).received !!j
    have hk : k ∈ s.received !!j := hk
    rw [Bool.not_not] at hk ⊢
    rwa [deliver_received_self hm]
  · rintro f ⟨q, hq, hf⟩
    rw [Bool.not_not, deliver_node_self hm] at hq
    refine ⟨q, ?_, hf⟩
    rwa [Bool.not_not]

end Arrival

/-- What is known of the link: the nodes are in order, and whatever can still arrive is about the
latest packets. -/
structure Known (setup : BenthosSetup Desc Msg) (s : BenthosLink Desc Msg) : Prop where
  valid : ∀ i, (s.node i).Valid (setup.env i) setup.header
  consistent : ∀ i, (s.view setup i).Consistent

omit [DecidableEq Desc] in
theorem Known.setNode (hs : s.Known setup) (hn : n.Valid (setup.env i) setup.header)
    (hmove : ∀ j, Move (s.view setup j) ((s.setNode i n).view setup j)) :
    (s.setNode i n).Known setup := by
  refine ⟨fun j => ?_, fun j => (hmove j).consistent (hs.consistent j)⟩
  by_cases hj : j = i
  · subst hj
    rwa [setNode_node_self]
  · rw [setNode_node_of_ne hj]
    exact hs.valid j

theorem Known.application (hs : s.Known setup) (c : ApplicationCall Msg) :
    (step setup (.application i c) s).Known setup := by
  have hc : ∀ fuel msg, c.toCall ≠ .handleModemDataRequest fuel msg := by
    intro fuel msg
    cases c <;> exact nofun
  exact hs.setNode ((hs.valid i).callManager c.toCall)
    (setNode_move (lastRequest_extend_of_not _ hc) fun _ hp => hp)

theorem Known.initiate (hs : s.Known setup) {fuel : ℕ}
    (hc : s.requestsFree setup (.initiate i fuel msg) = true) :
    (step setup (.initiate i fuel msg) s).Known setup := by
  by_cases htype : msg.type = .data
  · simp only [requestsFree, htype, ne_eq, not_true_eq_false, decide_false, Bool.false_or,
      Bool.and_eq_true, decide_eq_true_eq, List.all_eq_true, List.mem_range] at hc
    obtain ⟨⟨⟨⟨hstart, hacked⟩, hframe⟩, hmax⟩, hfree⟩ := hc
    refine hs.setNode ((hs.valid i).handleInitiateTransmission hacked hframe hmax) fun j => ?_
    rcases Bool.eq_or_eq_not j i with rfl | rfl
    · exact initiate_move_self (hs.valid j).inv htype hstart hacked hframe hfree
    · exact initiate_move_other (hs.valid i).inv hacked
  · have hnode : (s.node i).handleInitiateTransmission (setup.env i) (setup.maxFrameSize i) fuel msg =
        s.node i := if_neg htype
    rw [step, hnode]
    exact hs.setNode (hs.valid i) (setNode_move rfl fun _ hp => hp)

theorem Known.transmit (hs : s.Known setup)
    (i : Bool) : (step setup (.transmit i) s).Known setup := by
  have hsubset : ∀ p ∈ (s.node i).transmit.onTheWay, p ∈ (s.node i).onTheWay :=
    fun p => BenthosNode.mem_onTheWay_transmit
  refine hs.setNode ((hs.valid i).of_subset BenthosNode.transmit_manager hsubset) ?_
  exact setNode_move (congrArg (fun t => lastRequest t.records) BenthosNode.transmit_manager) hsubset

omit [DecidableEq Desc] in
theorem Known.drop (hs : s.Known setup) (j : Bool) (k : ℕ) : (s.drop j k).Known setup := by
  let n : BenthosNode Desc Msg := { s.node j with inWater := (s.node j).inWater.eraseIdx k }
  have hsubset : ∀ p ∈ n.onTheWay, p ∈ (s.node j).onTheWay := by
    intro p hp
    rcases List.mem_append.mp hp with hp | hp
    · exact List.mem_append_left _ hp
    · exact List.mem_append_right _ (List.mem_of_mem_eraseIdx hp)
  exact hs.setNode ((hs.valid j).of_subset rfl hsubset) (setNode_move rfl hsubset)

theorem Known.deliver (hs : s.Known setup) {p : BenthosPacket} (hp : p ∈ (s.node j).onTheWay)
    (dest : ℤ) : (s.deliver setup j p dest).Known setup := by
  cases hm : p.content setup.header with
  | none =>
    have hs' : s.deliver setup j p dest = s := by rw [BenthosLink.deliver, hm]
    exact hs'.symm ▸ hs
  | some m =>
    have hsized : m.frame.length ≤ 8 := (hs.valid j).sized p hp m hm
    refine ⟨fun i => ?_, fun i => ?_⟩
    · rcases Bool.eq_or_eq_not i j with rfl | rfl
      · rw [deliver_node_self hm]
        exact hs.valid i
      · rw [deliver_node_not hm]
        exact (hs.valid !j).receive (arrived_frameStart hm) hsized
    · rcases Bool.eq_or_eq_not i j with rfl | rfl
      · exact (deliver_move_self hm hsized hp).consistent (hs.consistent i)
      · exact (deliver_move_other hm hsized).consistent (hs.consistent !j)

theorem Known.arrive (hs : s.Known setup) (j : Bool) (k : ℕ) (dest : ℤ) :
    (step setup (.arrive j k dest) s).Known setup := by
  rw [step]
  split
  case h_1 => exact hs
  case h_2 p hp =>
    have hmem : p ∈ (s.node j).onTheWay := List.mem_append_right _ (List.mem_of_getElem? hp)
    exact (hs.deliver hmem dest).drop j k

theorem Known.step (hs : s.Known setup) (c : Call Msg) (hc : s.requestsFree setup c = true) :
    (BenthosLink.step setup c s).Known setup := by
  cases c with
  | application i c => exact hs.application c
  | initiate i fuel msg => exact hs.initiate hc
  | transmit i => exact hs.transmit i
  | arrive j k dest => exact hs.arrive j k dest
  | lose j k => exact hs.drop j k

omit [DecidableEq Desc] in
theorem known_start (setup : BenthosSetup Desc Msg) (managerId : Bool → ℤ)
    (codec : Bool → DcclCodec Desc) : (start managerId codec).Known setup := by
  refine ⟨fun i => BenthosNode.valid_new _ _ _ _, fun i => ⟨?_, ?_⟩⟩
  · rintro f k ⟨p, hp, -⟩
    exact absurd hp List.not_mem_nil
  · rintro f ⟨p, hp, -⟩
    exact absurd hp List.not_mem_nil

/-- If data is only requested for free frames, a message that a packet from the other node makes
the manager remove was given in the latest request for its frame, and the packet made for that
request was received by the other node. -/
theorem acked_received {managerId : Bool → ℤ} {codec : Bool → DcclCodec Desc}
    (h : Reached (BenthosLink.step setup) (requestsFree setup · ·) (start managerId codec) s)
    {p : BenthosPacket} (hp : p ∈ (s.node !i).inWater) {m : ModemTransmission}
    (hm : p.content setup.header = some m) {dest : ℤ} {k f it : ℕ} {msg : Msg}
    (hack : .queue k (.ackPopped it f msg) ∈ (record (setup.env i) (s.node i).manager.state
      (.handleModemReceive (arrived setup (!i) m dest))).events) :
    ∃ n r given, LatestRequest (s.node i).manager.records f n r ∧
      .queue k (.gave it f given) ∈ r.events ∧ n ∈ s.received !i := by
  have hs : s.Known setup := h.invariant (known_start setup managerId codec)
    fun s c hs hc => hs.step c hc
  obtain ⟨n, r, hlatest, given, hgave⟩ :=
    (hs.valid i).entries k f it (record_ackPopped (hs.valid i).inv _ hack)
  obtain ⟨htype, hacked⟩ := record_ackPopped_type (hs.valid i).inv hack
  have hreturning : f ∈ (s.view setup i).returning :=
    ⟨p, List.mem_append_right _ hp, BenthosPacket.acknowledges_iff.mpr ⟨m, hm, htype, hacked⟩⟩
  obtain ⟨n', hn', hreceived⟩ := (hs.consistent i).returning f hreturning
  obtain rfl : n = n' := Option.some.inj (hlatest.lastRequest.symm.trans hn')
  exact ⟨n, r, given, hlatest, hgave, hreceived⟩

end Moves

def sampleSetup : BenthosSetup SampleDesc SampleMsg where
  env _ := sampleEnvironment
  header := byteBenthosCodec
  modemId i := if i then 1 else 3

def sampleStart : BenthosLink SampleDesc SampleMsg := start (fun _ => 0) fun _ => sampleCodec

def configureSample (i : Bool) : Call SampleMsg :=
  .application i (.setCfg { modemId := some (sampleSetup.modemId i), messageEntry := [sampleEntry] })

def sampleMessage (body : UInt8) : SampleMsg := { src := 1, dest := 3, body := body }

def sendSample (body : UInt8) : List (Call SampleMsg) :=
  [.application true (.pushMessage (sampleMessage body) none),
    .initiate true 9 { type := .data, src := 1, dest := some 3 }, .transmit true]

/-- The packet is received, and the acknowledgment waits in the buffer of node 3. -/
def receivedCalls : List (Call SampleMsg) :=
  [configureSample true, configureSample false] ++ sendSample 7 ++ [.arrive true 0 3]

def acknowledging : BenthosLink SampleDesc SampleMsg :=
  performAll (step sampleSetup) (receivedCalls ++ [.transmit false]) sampleStart

def sampleAckContent : ModemTransmission := { type := .ack, ackedFrame := [0] }

def sampleAckPacket : BenthosPacket := ⟨{ sampleAckContent with src := 3, dest := some 1 }, 1⟩

abbrev ackEvents (s : BenthosLink SampleDesc SampleMsg) : List (Event SampleMsg) :=
  (record (sampleSetup.env true) (s.node true).manager.state
    (.handleModemReceive (arrived sampleSetup (!true) sampleAckContent 1))).events

/-- The acknowledgment removes the message, which was received. -/
theorem acked_received_first :
    .queue 1 (.ackPopped 0 0 (sampleMessage 7)) ∈ ackEvents acknowledging ∧
      ∃ n r given, LatestRequest (acknowledging.node true).manager.records 0 n r ∧
        .queue 1 (.gave 0 0 given) ∈ r.events ∧ n ∈ acknowledging.received !true := by
  have hreached : Reached (step sampleSetup) (requestsFree sampleSetup · ·)
      (start (fun _ => 0) fun _ => sampleCodec) acknowledging :=
    Reached.performAll .start (by decide +kernel)
  have hp : sampleAckPacket ∈ (acknowledging.node !true).inWater := by decide +kernel
  have hm : sampleAckPacket.content sampleSetup.header = some sampleAckContent := by decide +kernel
  have hack : .queue 1 (.ackPopped 0 0 (sampleMessage 7)) ∈ ackEvents acknowledging := by
    decide +kernel
  exact ⟨hack, acked_received hreached hp hm hack⟩

/-- While the acknowledgment waits, a second message is sent in a packet that is lost. -/
def overtaken : BenthosLink SampleDesc SampleMsg :=
  performAll (step sampleSetup) (receivedCalls ++ sendSample 8 ++ [.lose true 0, .transmit false])
    sampleStart

/-- The acknowledgment of the first packet removes the second message, which only the second
packet carried. -/
theorem acked_lost_overtaken :
    sampleAckPacket ∈ (overtaken.node false).inWater ∧
      sampleAckPacket.content sampleSetup.header = some sampleAckContent ∧
      .queue 1 (.ackPopped 1 0 (sampleMessage 8)) ∈ ackEvents overtaken ∧
      lastRequest (overtaken.node true).manager.records 0 = some 4 ∧
      overtaken.received false = [2] ∧
      ((overtaken.node true).manager.records[2]?.all fun r =>
        decide (.queue 1 (.gave 1 0 (sampleMessage 8)) ∉ r.events)) = true := by
  decide +kernel

end BenthosLink
end Goby
