import Goby.CallRuns
import Goby.LabelledPackets
import Goby.MicroModemAppAcks

/-! Two drivers send packets to each other over a channel that may lose packets and deliver them
late and in any order. The numbers of the packets are labels that are used again and again,
so an acknowledgment that is raised is one of the latest packet as long as a number is given
to a packet only when nothing about the last packet that had it can still arrive, and the modem
acknowledges a frame by the number that the driver gave it. The driver does not see to that: it
starts again from zero after 32 packets, whatever the other node has still to acknowledge, and
goes on counting where the modem starts again with every packet. -/

namespace Goby

open AppAckDriver Exchange

structure AirPacket where
  src : ℤ
  dest : ℤ
  header : Option ApplicationAck
  serial : ℕ
  /-- The frame of a data packet that the modem it is sent to is to acknowledge. -/
  wants : Option ℕ := none
  /-- The frame that a modem acknowledges, where the packet is nothing but that. -/
  answers : Option ℕ := none
  deriving DecidableEq, Repr

namespace AirPacket

def announces (p : AirPacket) (id : ℤ) (f : ℕ) : Bool :=
  p.dest == id && (p.wants == some f ||
    p.header.any fun acks => acks.ackRequested && acks.frameStart == f)

def acknowledges (p : AirPacket) (id : ℤ) (f : ℕ) : Bool :=
  (p.dest == id && p.answers == some f) || p.header.any fun acks => (acks.ackedTo id).contains f

variable {p : AirPacket} {id : ℤ} {f : ℕ}

theorem announces_iff : p.announces id f = true ↔ p.dest = id ∧ (p.wants = some f ∨
    ∃ acks, p.header = some acks ∧ acks.ackRequested = true ∧ acks.frameStart = f) := by
  simp [announces, Option.any_eq_true]

theorem acknowledges_iff : p.acknowledges id f = true ↔ p.dest = id ∧ p.answers = some f ∨
    ∃ acks, p.header = some acks ∧ f ∈ acks.ackedTo id := by
  simp [acknowledges, Option.any_eq_true]

end AirPacket

/-- The two nodes and the packets between them, each with its sender. For every node it is
recorded to which packet a number was assigned last and which packets were received. -/
structure MicroModemLink where
  node : Bool → AppAckDriver
  air : List (Bool × AirPacket) := []
  sent : ℕ := 0
  assigned : Bool → ℕ → Option ℕ := fun _ _ => none
  received : Bool → List ℕ := fun _ => []

namespace MicroModemLink

inductive Call where
  | cctdp (i : Bool) (msg : OutgoingData) (answer : DataAnswer)
  /-- The other transmissions, and the cycles of third parties: their headers are not read. -/
  | cacheOutgoingData (i : Bool) (msg : OutgoingData) (answer : DataAnswer)
  /-- A frame of a data packet goes to the modem, which numbers the frames of each packet. -/
  | cadrq (i : Bool) (dest : ℤ) (ackRequested : Bool) (frame : ℕ)
  /-- The packet at a position arrives at the other node, or is lost. -/
  | arrive (k : ℕ)
  | lose (k : ℕ)

def setNode (s : MicroModemLink) (i : Bool) (d : AppAckDriver) : MicroModemLink :=
  { s with node := Function.update s.node i d }

def transmit (s : MicroModemLink) (i : Bool) (number : Option ℕ) (dest : ℤ)
    (header : Option ApplicationAck) (wants : Option ℕ) : MicroModemLink :=
  { s with
    air := s.air ++ [(i, { src := (s.node i).modemId, dest, header, serial := s.sent, wants })]
    sent := s.sent + 1
    assigned := match number with
      | none => s.assigned
      | some f => Function.update s.assigned i (Function.update (s.assigned i) f (some s.sent)) }

/-- What `caack` or `process_incoming_app_ack` does with a packet, with the acknowledgments it
raises. -/
def process (d : AppAckDriver) (p : AirPacket) : AppAckDriver × List ℕ :=
  match p.answers, p.header with
  | some frame, _ => d.caack p.src p.dest frame
  | none, some acks => d.processIncomingAppAck p.src p.dest acks
  | none, none => (d, [])

/-- What the modem of the node answers by itself. -/
def modemReply (d : AppAckDriver) (p : AirPacket) (serial : ℕ) : List AirPacket :=
  if p.dest = d.modemId then p.wants.toList.map fun frame =>
    { src := d.modemId, dest := p.src, header := none, serial, answers := some frame }
  else []

def receive (s : MicroModemLink) (j : Bool) (p : AirPacket) : MicroModemLink :=
  let reply := modemReply (s.node !j) p s.sent
  { s.setNode (!j) (process (s.node !j) p).1 with
    air := s.air ++ reply.map fun q => (!j, q)
    sent := s.sent + reply.length
    received := Function.update s.received (!j) (p.serial :: s.received !j) }

def drop (s : MicroModemLink) (k : ℕ) : MicroModemLink := { s with air := s.air.eraseIdx k }

def step : Call → MicroModemLink → MicroModemLink
  | .cctdp i msg answer, s =>
    let out := AppAckDriver.cctdp (s.node i) msg answer
    match out.2 with
    | none => s.setNode i out.1
    | some (m, number) => (s.transmit i number m.dest m.header none).setNode i out.1
  | .cacheOutgoingData i msg answer, s =>
    s.setNode i (AppAckDriver.cacheOutgoingData (s.node i) msg answer).1
  | .cadrq i dest ackRequested frame, s =>
    if ackRequested then
      (s.transmit i (some (s.node i).nextFrame) dest none (some frame)).setNode i
        ((s.node i).awaitAck dest)
    else s.transmit i none dest none none
  | .arrive k, s =>
    match s.air[k]? with
    | none => s
    | some (j, p) => (s.receive j p).drop k
  | .lose k, s => s.drop k

/-- Nothing about an earlier packet of node `i` with the number can still arrive: the other
node has not to acknowledge it, no packet with it is on the way, and no acknowledgment. -/
def isFree (s : MicroModemLink) (i : Bool) (f : ℕ) : Bool :=
  !decide (f ∈ (s.node !i).toAck (s.node i).modemId) && s.air.all fun e =>
    if e.1 = i then !e.2.announces (s.node !i).modemId f
    else !e.2.acknowledges (s.node i).modemId f

def assigns (s : MicroModemLink) : Call → Option (Bool × ℕ)
  | .cctdp i msg answer =>
    match (AppAckDriver.cctdp (s.node i) msg answer).2 with
    | some (_, some f) => some (i, f)
    | _ => none
  | .cadrq i _ true _ => some (i, (s.node i).nextFrame)
  | _ => none

/-- The number by which the modem has the frame acknowledged is the one it is given. -/
def sameNumber (s : MicroModemLink) : Call → Bool
  | .cadrq i _ true frame => frame == (s.node i).nextFrame
  | _ => true

def assignsFree (s : MicroModemLink) (c : Call) : Bool :=
  s.sameNumber c && match s.assigns c with
    | none => true
    | some (i, f) => s.isFree i f

def view (s : MicroModemLink) (i : Bool) : Exchange ℕ ℕ where
  latest := s.assigned i
  underway := {e | ∃ p, (i, p) ∈ s.air ∧ p.announces (s.node !i).modemId e.1 = true ∧ p.serial = e.2}
  received := {n | n ∈ s.received !i}
  returning := {f | f ∈ (s.node !i).toAck (s.node i).modemId ∨
    ∃ p, (!i, p) ∈ s.air ∧ p.acknowledges (s.node i).modemId f = true}

/-- The nodes keep their identifiers, and a packet bears that of its sender. -/
structure Identified (id : Bool → ℤ) (s : MicroModemLink) : Prop where
  node : ∀ i, (s.node i).modemId = id i
  air : ∀ i p, (i, p) ∈ s.air → p.src = id i

variable {id : Bool → ℤ} {s : MicroModemLink} {i j : Bool} {d : AppAckDriver} {f : ℕ}

theorem view_isFree {f : ℕ} (h : s.isFree i f = true) : (s.view i).IsFree f := by
  obtain ⟨hpending, hair⟩ := Bool.and_eq_true_iff.mp h
  have hair := List.all_eq_true.mp hair
  refine ⟨?_, ?_⟩
  · rintro n ⟨p, hp, hf, -⟩
    have hno := hair _ hp
    rw [if_pos rfl, hf] at hno
    exact absurd hno nofun
  · rintro (hf | ⟨p, hp, hf⟩)
    · simp [hf] at hpending
    · have hno := hair _ hp
      rw [if_neg (Bool.not_ne_self i), hf] at hno
      exact absurd hno nofun

theorem setNode_node_self (s : MicroModemLink) (i : Bool) (d : AppAckDriver) :
    (s.setNode i d).node i = d := Function.update_self ..

theorem setNode_node_of_ne (h : j ≠ i) (d : AppAckDriver) : (s.setNode i d).node j = s.node j :=
  Function.update_of_ne h _ _

theorem setNode_keeps (h : Keeps (s.node i) d) (j : Bool) :
    Keeps (s.node j) ((s.setNode i d).node j) := by
  by_cases hj : j = i
  · subst hj
    rwa [setNode_node_self]
  · rw [setNode_node_of_ne hj]
    exact .refl _

theorem setNode_move (h : Keeps (s.node i) d) (j : Bool) :
    Move (s.view j) ((s.setNode i d).view j) := by
  refine Move.forget rfl ?_ (Set.Subset.refl _) ?_
  · rintro ⟨f, n⟩ ⟨p, hp, hf, hn⟩
    exact ⟨p, hp, (setNode_keeps h _).modemId ▸ hf, hn⟩
  · rintro f (hf | ⟨p, hp, hf⟩)
    · rw [(setNode_keeps h j).modemId] at hf
      exact .inl ((setNode_keeps h _).toAck _ hf)
    · exact .inr ⟨p, hp, (setNode_keeps h _).modemId ▸ hf⟩

theorem Identified.setNode (hs : Identified id s) (h : Keeps (s.node i) d) :
    Identified id (s.setNode i d) :=
  ⟨fun j => (setNode_keeps h j).modemId.trans (hs.node j), hs.air⟩

section Transmit

variable {number wants : Option ℕ} {dest : ℤ} {header : Option ApplicationAck}

theorem mem_transmit_air {p : AirPacket} (h : (j, p) ∈ (s.transmit i number dest header wants).air) :
    (j, p) ∈ s.air ∨
      j = i ∧ p = { src := (s.node i).modemId, dest, header, serial := s.sent, wants } := by
  rcases List.mem_append.mp h with h | h
  · exact .inl h
  · exact .inr (Prod.mk.inj (List.mem_singleton.mp h))

theorem Identified.transmit (hs : Identified id s) :
    Identified id (s.transmit i number dest header wants) := by
  refine ⟨hs.node, fun j p hp => ?_⟩
  rcases mem_transmit_air hp with hp | ⟨rfl, rfl⟩
  · exact hs.air j p hp
  · exact hs.node j

theorem transmit_assigned_other (h : j ≠ i) :
    (s.transmit i number dest header wants).assigned j = s.assigned j := by
  cases number with
  | none => rfl
  | some f => exact Function.update_of_ne h _ _

/-- The sender's own packets: the one that leaves has the number it was given. -/
theorem transmit_underway (hheader : ∀ acks, header = some acks → HeaderOf (s.node i) number acks)
    (hwants : ∀ f, wants = some f → number = some f)
    {f n : ℕ} (h : (f, n) ∈ ((s.transmit i number dest header wants).view i).underway) :
    (f, n) ∈ (s.view i).underway ∨ number = some f ∧ n = s.sent := by
  obtain ⟨p, hp, hf, rfl⟩ := h
  rcases mem_transmit_air hp with hp | ⟨-, rfl⟩
  · exact .inl ⟨p, hp, hf, rfl⟩
  · obtain ⟨-, hwanted | ⟨acks, hacks, hrequested, rfl⟩⟩ := AirPacket.announces_iff.mp hf
    · exact .inr ⟨hwants f hwanted, rfl⟩
    · exact .inr ⟨(hheader acks hacks).numbered hrequested, rfl⟩

theorem transmit_returning_self :
    ((s.transmit i number dest header wants).view i).returning ⊆ (s.view i).returning := by
  rintro f (hf | ⟨p, hp, hf⟩)
  · exact .inl hf
  · rcases mem_transmit_air hp with hp | ⟨hi, -⟩
    · exact .inr ⟨p, hp, hf⟩
    · exact absurd hi (Bool.not_ne_self i)

section

variable (hheader : ∀ acks, header = some acks → HeaderOf (s.node i) number acks)
include hheader

theorem transmit_move_self (hwants : ∀ f, wants = some f → number = some f)
    (hfree : ∀ f, number = some f → s.isFree i f = true) :
    Move (s.view i) ((s.transmit i number dest header wants).view i) := by
  refine .assign {f | number = some f} s.sent (fun f hf => view_isFree (hfree f hf)) ?_ ?_
    (fun f n h => transmit_underway hheader hwants h) (Set.Subset.refl _) transmit_returning_self
  · rintro f rfl
    exact (congrFun (Function.update_self ..) f).trans (Function.update_self ..)
  · intro f hf
    cases number with
    | none => rfl
    | some f' =>
      have hne : f ≠ f' := fun h => hf (congrArg some h.symm)
      exact (congrFun (Function.update_self ..) f).trans (Function.update_of_ne hne _ _)

/-- The packets of the other node: what the new packet acknowledges was to be acknowledged. -/
theorem transmit_move_other :
    Move (s.view !i) ((s.transmit i number dest header wants).view !i) := by
  have hassigned : (s.transmit i number dest header wants).assigned (!i) = s.assigned !i :=
    transmit_assigned_other (Bool.not_ne_self i)
  refine Move.forget hassigned ?_ (Set.Subset.refl _) ?_
  · rintro ⟨f, n⟩ ⟨p, hp, hf, hn⟩
    rcases mem_transmit_air hp with hp | ⟨hi, -⟩
    · exact ⟨p, hp, hf, hn⟩
    · exact absurd hi (Bool.not_ne_self i)
  · rintro f (hf | ⟨p, hp, hf⟩)
    · exact .inl hf
    · rcases mem_transmit_air hp with hp | ⟨-, rfl⟩
      · exact .inr ⟨p, hp, hf⟩
      · obtain ⟨acks, hacks, hf⟩ := (AirPacket.acknowledges_iff.mp hf).resolve_left nofun
        refine .inl ?_
        rw [Bool.not_not]
        exact (hheader acks hacks).acked _ f hf

theorem transmit_move (hwants : ∀ f, wants = some f → number = some f)
    (hfree : ∀ f, number = some f → s.isFree i f = true) (j : Bool) :
    Move (s.view j) ((s.transmit i number dest header wants).view j) := by
  rcases Bool.eq_or_eq_not j i with rfl | rfl
  · exact transmit_move_self hheader hwants hfree
  · exact transmit_move_other hheader

end

end Transmit

theorem drop_move (s : MicroModemLink) (k : ℕ) (j : Bool) :
    Move (s.view j) ((s.drop k).view j) := by
  refine Move.forget rfl ?_ (Set.Subset.refl _) ?_
  · rintro e ⟨p, hp, h⟩
    exact ⟨p, List.mem_of_mem_eraseIdx hp, h⟩
  · rintro f (hf | ⟨p, hp, hf⟩)
    · exact .inl hf
    · exact .inr ⟨p, List.mem_of_mem_eraseIdx hp, hf⟩

theorem Identified.drop (hs : Identified id s) (k : ℕ) : Identified id (s.drop k) :=
  ⟨hs.node, fun j p hp => hs.air j p (List.mem_of_mem_eraseIdx hp)⟩

section Receive

variable {p : AirPacket} {d : AppAckDriver}

theorem process_modemId : (process d p).1.modemId = d.modemId := by
  rw [process]
  split
  next frame _ =>
    obtain ⟨waiting, hacked⟩ := d.caack_eq p.src p.dest frame
    rw [hacked]
  · exact processIncomingAppAck_modemId
  · rfl

theorem process_toAck {id : ℤ} (h : f ∈ (process d p).1.toAck id) :
    f ∈ d.toAck id ∨ id = p.src ∧ p.announces d.modemId f = true := by
  rw [process] at h
  split at h
  next frame _ =>
    obtain ⟨waiting, hacked⟩ := d.caack_eq p.src p.dest frame
    rw [hacked] at h
    exact .inl h
  next acks _ hacks =>
    rcases processIncomingAppAck_toAck h with h | ⟨hid, hdest, hrequested, rfl⟩
    · exact .inl h
    · exact .inr ⟨hid, AirPacket.announces_iff.mpr ⟨hdest, .inr ⟨acks, hacks, hrequested, rfl⟩⟩⟩
  next => exact .inl h

theorem mem_of_process (h : f ∈ (process d p).2) :
    f ∈ d.framesWaitingForAck ∧ p.acknowledges d.modemId f = true := by
  rw [process] at h
  split at h
  next frame hanswers =>
    obtain ⟨hwaiting, hdest, rfl⟩ := mem_of_caack h
    exact ⟨hwaiting, AirPacket.acknowledges_iff.mpr (.inl ⟨hdest, hanswers⟩)⟩
  next acks _ hacks =>
    obtain ⟨hwaiting, hacked⟩ := mem_of_processIncomingAppAck h
    exact ⟨hwaiting, AirPacket.acknowledges_iff.mpr (.inr ⟨acks, hacks, hacked⟩)⟩
  next => exact absurd h List.not_mem_nil

/-- A reply of the modem bears its address and acknowledges what was announced to it. -/
theorem mem_modemReply {q : AirPacket} {serial : ℕ} (h : q ∈ modemReply d p serial) :
    q.src = d.modemId ∧ (∀ id f, q.announces id f = false) ∧
      ∀ id, q.acknowledges id f = true → p.announces d.modemId f = true := by
  rw [modemReply] at h
  split at h
  next hdest =>
    obtain ⟨frame, hframe, rfl⟩ := List.mem_map.mp h
    refine ⟨rfl, fun id f => by simp [AirPacket.announces], fun id hacked => ?_⟩
    obtain ⟨-, heq⟩ := (AirPacket.acknowledges_iff.mp hacked).resolve_right nofun
    obtain rfl := Option.some.inj heq
    exact AirPacket.announces_iff.mpr ⟨hdest, .inl (Option.mem_toList.mp hframe)⟩
  next => exact absurd h List.not_mem_nil

theorem mem_receive_air {q : AirPacket} (h : (i, q) ∈ (s.receive j p).air) :
    (i, q) ∈ s.air ∨ i = (!j) ∧ q ∈ modemReply (s.node !j) p s.sent := by
  rcases List.mem_append.mp h with h | h
  · exact .inl h
  · obtain ⟨q', hq', heq⟩ := List.mem_map.mp h
    obtain ⟨rfl, rfl⟩ := Prod.mk.inj heq
    exact .inr ⟨rfl, hq'⟩

theorem receive_node_self : (s.receive j p).node (!j) = (process (s.node !j) p).1 :=
  setNode_node_self ..

theorem receive_node_other : (s.receive j p).node j = s.node j :=
  setNode_node_of_ne (Bool.not_ne_self j).symm _

theorem receive_modemId (i : Bool) : ((s.receive j p).node i).modemId = (s.node i).modemId := by
  rcases Bool.eq_or_eq_not i j with rfl | rfl
  · rw [receive_node_other]
  · rw [receive_node_self, process_modemId]

theorem receive_received_self : (s.receive j p).received (!j) = p.serial :: s.received !j :=
  Function.update_self ..

theorem receive_received_other : (s.receive j p).received j = s.received j :=
  Function.update_of_ne (Bool.not_ne_self j).symm _ _

theorem receive_underway (i : Bool) : ((s.receive j p).view i).underway ⊆ (s.view i).underway := by
  rintro e ⟨q, hq, hf, hn⟩
  rcases mem_receive_air hq with hq | ⟨-, hq⟩
  · exact ⟨q, hq, receive_modemId _ ▸ hf, hn⟩
  · exact absurd ((mem_modemReply (f := e.1) hq).2.1 _ _) (ne_false_of_eq_true hf)

theorem receive_returning (h : f ∈ ((s.receive j p).view j).returning) :
    f ∈ (s.view j).returning ∨ p.announces (s.node !j).modemId f = true := by
  rcases h with h | ⟨q, hq, h⟩
  · rw [receive_node_self] at h
    rcases process_toAck h with h | ⟨-, hf⟩
    · exact .inl (.inl (receive_modemId j ▸ h))
    · exact .inr hf
  · rcases mem_receive_air hq with hq | ⟨-, hq⟩
    · exact .inl (.inr ⟨q, hq, receive_modemId j ▸ h⟩)
    · exact .inr ((mem_modemReply hq).2.2 _ h)

theorem receive_move_self (hp : (j, p) ∈ s.air) : Move (s.view j) ((s.receive j p).view j) := by
  refine .arrive p.serial rfl (receive_underway j) ?_ ?_
  · intro n hn
    change n ∈ (s.receive j p).received !j
    rw [receive_received_self]
    exact List.mem_cons.mpr hn
  · intro f hf
    rcases receive_returning hf with h | h
    · exact .inl h
    · exact .inr ⟨p, hp, h, rfl⟩

theorem receive_move_other : Move (s.view !j) ((s.receive j p).view !j) := by
  refine Move.forget rfl (receive_underway _) ?_ ?_
  · intro n hn
    change n ∈ (s.receive j p).received !!j
    rw [Bool.not_not, receive_received_other]
    exact Bool.not_not j ▸ hn
  · rintro f (h | ⟨q, hq, h⟩)
    · rw [Bool.not_not, receive_node_other, receive_modemId] at h
      exact .inl (by rwa [Bool.not_not])
    · rcases mem_receive_air hq with hq | ⟨hi, -⟩
      · exact .inr ⟨q, hq, receive_modemId _ ▸ h⟩
      · exact absurd hi (Bool.not_ne_self _)

theorem receive_move (hp : (j, p) ∈ s.air) (i : Bool) :
    Move (s.view i) ((s.receive j p).view i) := by
  rcases Bool.eq_or_eq_not i j with rfl | rfl
  · exact receive_move_self hp
  · exact receive_move_other

theorem Identified.receive (hs : Identified id s) : Identified id (s.receive j p) := by
  refine ⟨fun i => (receive_modemId i).trans (hs.node i), fun i q hq => ?_⟩
  rcases mem_receive_air hq with hq | ⟨rfl, hreply⟩
  · exact hs.air i q hq
  · exact (mem_modemReply (f := 0) hreply).1.trans (hs.node _)

end Receive

/-- What is known of the link: whatever can still arrive is about the latest packets. -/
structure Known (id : Bool → ℤ) (s : MicroModemLink) : Prop where
  identified : Identified id s
  consistent : ∀ i, (s.view i).Consistent

section

variable (hs : Known id s)
include hs

theorem Known.of_move {s' : MicroModemLink} (hid : Identified id s')
    (hmove : ∀ i, Move (s.view i) (s'.view i)) : Known id s' :=
  ⟨hid, fun i => (hmove i).consistent (hs.consistent i)⟩

theorem Known.transmit {number wants : Option ℕ} {dest : ℤ} {header : Option ApplicationAck}
    (hheader : ∀ acks, header = some acks → HeaderOf (s.node i) number acks)
    (hwants : ∀ f, wants = some f → number = some f)
    (hfree : ∀ f, number = some f → s.isFree i f = true) :
    Known id (s.transmit i number dest header wants) :=
  hs.of_move hs.identified.transmit (transmit_move hheader hwants hfree)

theorem Known.setNode (h : Keeps (s.node i) d) : Known id (s.setNode i d) :=
  hs.of_move (hs.identified.setNode h) (setNode_move h)

theorem Known.drop (k : ℕ) : Known id (s.drop k) :=
  hs.of_move (hs.identified.drop k) (drop_move s k)

theorem Known.cctdp {msg : OutgoingData} {answer : DataAnswer}
    (hc : s.assignsFree (.cctdp i msg answer) = true) : Known id (step (.cctdp i msg answer) s) := by
  rw [step]
  cases hout : (AppAckDriver.cctdp (s.node i) msg answer).2 with
  | none => exact hs.setNode cctdp_keeps
  | some out =>
    obtain ⟨m, number⟩ := out
    have hheader : ∀ acks, m.header = some acks → HeaderOf (s.node i) number acks :=
      fun acks hacks => cctdp_headerOf hout hacks
    have hfree : ∀ f, number = some f → s.isFree i f = true := by
      rintro f rfl
      simpa only [assignsFree, sameNumber, assigns, hout, Bool.true_and] using hc
    have hwants (f : ℕ) (h : none = some f) : number = some f := nomatch h
    exact (hs.transmit hheader hwants hfree).setNode cctdp_keeps

theorem Known.cadrq {dest : ℤ} {ackRequested : Bool} {frame : ℕ}
    (hc : s.assignsFree (.cadrq i dest ackRequested frame) = true) :
    Known id (step (.cadrq i dest ackRequested frame) s) := by
  -- the header of a data packet is not read
  have hheader (number : Option ℕ) (acks : ApplicationAck) (h : none = some acks) :
      HeaderOf (s.node i) number acks := absurd h nofun
  cases ackRequested with
  | false => exact hs.transmit (hheader none) nofun nofun
  | true =>
    obtain ⟨hsame, hc⟩ := Bool.and_eq_true_iff.mp hc
    have hwants (f : ℕ) (hf : some frame = some f) : some (s.node i).nextFrame = some f :=
      (congrArg some (beq_iff_eq.mp hsame)).symm.trans hf
    have hfree (f : ℕ) (hf : some (s.node i).nextFrame = some f) : s.isFree i f = true := by
      obtain rfl := Option.some.inj hf
      exact hc
    exact (hs.transmit (hheader _) hwants hfree).setNode (awaitAck_keeps _ _)

theorem Known.arrive (k : ℕ) : Known id (step (.arrive k) s) := by
  rw [step]
  split
  · exact hs
  · rename_i j p hp
    have hreceived : Known id (s.receive j p) :=
      hs.of_move hs.identified.receive (receive_move (List.mem_of_getElem? hp))
    exact hreceived.drop k

theorem Known.step (c : Call) (hc : s.assignsFree c = true) : Known id (step c s) := by
  cases c with
  | cctdp i msg answer => exact hs.cctdp hc
  | cacheOutgoingData i msg answer => exact hs.setNode cacheOutgoingData_keeps
  | cadrq i dest ackRequested frame => exact hs.cadrq hc
  | arrive k => exact hs.arrive k
  | lose k => exact hs.drop k

end

def start (id : Bool → ℤ) : MicroModemLink := { node := fun i => { modemId := id i } }

theorem known_start (id : Bool → ℤ) : Known id (start id) := by
  refine ⟨⟨fun _ => rfl, nofun⟩, fun i => ⟨nofun, ?_⟩⟩
  rintro f (h | ⟨p, hp, -⟩)
  · exact absurd h (by simp [start, toAck])
  · exact absurd hp List.not_mem_nil

/-- If numbers are only assigned when they are free, and to frames that have them in the modem, too,
every acknowledgment that a packet raises is one of a number that is waited for, from the other
node, which has received the packet that was given the number last. -/
theorem raised_received (h : Reached MicroModemLink.step (assignsFree · ·) (start id) s) {k : ℕ}
    {p : AirPacket} (hp : s.air[k]? = some (!i, p)) {f : ℕ} (hf : f ∈ (process (s.node i) p).2) :
    f ∈ (s.node i).framesWaitingForAck ∧ p.src = id (!i) ∧
      ∃ n, s.assigned i f = some n ∧ n ∈ s.received !i := by
  have hs : Known id s := h.invariant (known_start id) fun s c hs hc => hs.step c hc
  have hmem : (!i, p) ∈ s.air := List.mem_of_getElem? hp
  obtain ⟨hwaiting, hacked⟩ := mem_of_process hf
  refine ⟨hwaiting, hs.identified.air _ p hmem, ?_⟩
  exact (hs.consistent i).returning f (.inr ⟨p, hmem, hacked⟩)

def sampleId (i : Bool) : ℤ := if i then 1 else 2

def samplePacket : Call :=
  .cctdp true { src := 1, dest := 2 } { dest := 2, ackRequested := true, data := [7] }

def sampleReply : Call :=
  .cctdp false { src := 2, dest := 1 } { dest := 1, ackRequested := false, data := [] }

def afterReply : MicroModemLink :=
  performAll step [samplePacket, .arrive 0, sampleReply] (start sampleId)

def replyPacket : AirPacket := { src := 2, dest := 1, header := some ⟨[⟨1, 1⟩], false, 0⟩, serial := 1 }

/-- A packet is received and acknowledged. -/
theorem raised_received_reply :
    (process (afterReply.node true) replyPacket).2 = [0] ∧
      ∃ n, afterReply.assigned true 0 = some n ∧ n ∈ afterReply.received false := by
  have hreached : Reached step (assignsFree · ·) (start sampleId) afterReply :=
    Reached.performAll .start (by decide +kernel)
  have hp : afterReply.air[0]? = some (!true, replyPacket) := by decide +kernel
  have hf : (process (afterReply.node true) replyPacket).2 = [0] := by decide +kernel
  exact ⟨hf, (raised_received hreached hp (hf ▸ List.mem_cons_self)).2.2⟩

/-- Node 2 receives the first packet and keeps silent. The next 32 are lost, the last of them
being given the number of the first one again. Then node 2 acknowledges what it has received. -/
def afterWrap : MicroModemLink :=
  performAll step ([samplePacket, .arrive 0] ++ (List.replicate 32 [samplePacket, .lose 0]).flatten ++
    [sampleReply]) (start sampleId)

/-- The first packet is lost. The second is a data packet, whose first frame the modem of node 2
acknowledges. -/
def afterModemReply : MicroModemLink :=
  performAll step [samplePacket, .lose 0, .cadrq true 2 true 0, .arrive 0] (start sampleId)

/-- In both runs an acknowledgment is raised for a packet that was lost. -/
theorem raised_lost :
    (∃ p, afterWrap.air[0]? = some (false, p) ∧ (process (afterWrap.node true) p).2 = [0] ∧
      afterWrap.assigned true 0 = some 32 ∧ afterWrap.received false = [0]) ∧
    ∃ p, afterModemReply.air[0]? = some (false, p) ∧
      (process (afterModemReply.node true) p).2 = [0] ∧
      afterModemReply.assigned true 0 = some 0 ∧ afterModemReply.received false = [1] :=
  ⟨⟨{ src := 2, dest := 1, header := some ⟨[⟨1, 1⟩], false, 0⟩, serial := 33 }, by decide +kernel⟩,
    { src := 2, dest := 1, header := none, serial := 2, answers := some 0 }, by decide +kernel⟩

end MicroModemLink
end Goby
