import Goby.QueueRefinement
import Goby.RouteManager

/-! `push_message` lets the route manager change the destination before it looks whether the message
is to this node. Messages to this node and to all nodes stay what they are if and only if the
route does not lead elsewhere for them and no default gateway takes what the route does not know. -/

namespace Goby

namespace RouteManager

variable {Manager : Type} {r : RouteManager Manager}

theorem findNextRouteHop_self {us : ℤ} (h : us ∈ r.cfg.hop) : r.findNextRouteHop us us = us := by
  have hlt := List.idxOf_lt_length_of_mem h
  have hrange : ¬((r.cfg.hop.idxOf us : ℤ) < 0 ∨ (r.cfg.hop.idxOf us : ℤ) ≥ r.cfg.hop.length) := by omega
  have hpresent : ¬((r.cfg.hop.idxOf us : ℤ) = -1) := by omega
  simp only [findNextRouteHop, routeIndex_of_mem h, direction, lt_irrefl, if_false,
    add_zero, hrange, hpresent, dif_neg, not_false_eq_true, Int.toNat_natCast]
  exact List.getElem_idxOf hlt

/-- The default gateway, if there is one, has this address itself. -/
def GatewayPasses (r : RouteManager Manager) (dest : ℤ) : Prop :=
  ∀ gateway, r.cfg.defaultGateway = some gateway → toInt gateway = -1 ∨ toInt gateway = dest

/-- What is for this address is not redirected: the route leads to it at once, or does not know it
and the gateway does not take it. -/
def Leaves (r : RouteManager Manager) (us dest : ℤ) : Prop :=
  if r.findNextRouteHop us dest = -1 then r.GatewayPasses dest
  else r.findNextRouteHop us dest = dest

theorem handleOut_destD_eq (us : ℤ) (msgMeta : QueuedMessageMeta) :
    (r.handleOut msgMeta us).destD = msgMeta.destD ↔
      r.findNextHop us msgMeta.destD = -1 ∨ r.findNextHop us msgMeta.destD = msgMeta.destD := by
  simp only [handleOut]
  generalize r.findNextHop us msgMeta.destD = next
  by_cases h : next = -1
  · simp [h]
  · simp [h, QueuedMessageMeta.destD]

theorem handleOut_destD_iff (us : ℤ) (msgMeta : QueuedMessageMeta) :
    (r.handleOut msgMeta us).destD = msgMeta.destD ↔ r.Leaves us msgMeta.destD := by
  rw [handleOut_destD_eq, Leaves, GatewayPasses, findNextHop]
  by_cases hnone : r.findNextRouteHop us msgMeta.destD = -1
  · rw [hnone, if_pos rfl, if_pos rfl]
    cases r.cfg.defaultGateway with
    | none => simp
    | some gateway =>
      rw [Option.map_some, Option.getD_some]
      constructor
      · rintro h _ ⟨⟩
        exact h
      · intro h
        exact h gateway rfl
  · rw [if_neg hnone, if_neg hnone]
    simp [hnone]

/-- On its route, a node leaves what is for itself alone. -/
theorem leaves_self_iff {us : ℤ} :
    r.Leaves us us ↔ us ∈ r.cfg.hop ∧ us ≠ -1 ∨ r.GatewayPasses us := by
  by_cases h : us ∈ r.cfg.hop
  · rw [Leaves, findNextRouteHop_self h]
    split <;> simp_all
  · have hnone : r.findNextRouteHop us us = -1 := by
      simp [findNextRouteHop, routeIndex, routeIndexFrom_eq, h]
    simp [Leaves, hnone, h]

/-- What a queue uses of a manager that is connected to the route manager. -/
def parent {Msg : Type} (r : RouteManager Manager) (modemId : ℤ) (loopback : Bool) : Queue.Parent Msg where
  loopback := loopback
  noQueue := false
  modemId := modemId
  cfgModemId := modemId
  outRoute := fun _ msgMeta _ us => r.handleOut msgMeta us

end RouteManager

namespace Queue

variable {Desc Msg Manager : Type} {q : Queue Desc Msg} {given : QueuedMessageMeta}

/-- A message to this node is handed back at once, and the queue stays as it is. -/
theorem pushMessage_local {parent : Parent Msg} {clock : ℕ → ℕ} {n : ℕ} {msg : Msg}
    (hqueue : parent.noQueue = false)
    (hdest : (parent.outRoute n given msg parent.cfgModemId).destD = parent.modemId) :
    (q.pushMessage parent clock n msg given).queue = q ∧
      msg ∈ (q.pushMessage parent clock n msg given).received := by
  simp only [pushMessage, hqueue, hdest, Bool.false_eq_true, if_false, if_true]
  split <;> simp

/-- Another message is stored for the address it is routed to, if it is stored. -/
theorem pushMessage_remote (q : Queue Desc Msg) (parent : Parent Msg) (clock : ℕ → ℕ) {n : ℕ}
    {msg : Msg}
    (hqueue : parent.noQueue = false)
    (hdest : (parent.outRoute n given msg parent.cfgModemId).destD ≠ parent.modemId) :
    (q.pushMessage parent clock n msg given).acked = none ∧
      ∀ node ∈ (q.pushMessage parent clock n msg given).queue.messages.nodes, node ∈ q.messages.nodes ∨
        node.2.msgMeta.destD = (parent.outRoute n given msg parent.cfgModemId).destD := by
  unfold pushMessage
  dsimp only
  rw [if_neg (by simp [hqueue]), if_neg hdest]
  split_ifs
  all_goals first
    | exact ⟨rfl, fun node hnode => .inl hnode⟩
    | refine ⟨rfl, fun node hnode => (store_nodes q _ node hnode).imp_right ?_⟩
      exact congrArg fun m : QueuedMessage Msg => m.msgMeta.destD

theorem givenMessage_broadcast {m : QueuedMessage Msg} (h : m.msgMeta.destD = broadcastId) (now : ℕ) :
    (givenMessage m now).msgMeta.ackRequestedD = false := by
  simp [h]

end Queue

namespace RouteManager

variable {Desc Msg Manager : Type} {r : RouteManager Manager}

/-- Of a message that is pushed with this destination: it is handed back if it is for this node, and
otherwise stored, if at all, for all nodes and without an acknowledgment. -/
def PushKept (Desc Msg : Type) (r : RouteManager Manager) (us : ℤ) (msgMeta : QueuedMessageMeta) : Prop :=
  ∀ (q : Queue Desc Msg) (loopback : Bool) (clock : ℕ → ℕ) (n : ℕ) (msg : Msg)
    (pushed : Queue.PushResult Desc Msg),
    pushed = q.pushMessage (r.parent us loopback) clock n msg msgMeta →
    (msgMeta.destD = us → pushed.queue = q ∧ msg ∈ pushed.received) ∧
    (msgMeta.destD ≠ us → pushed.acked = none ∧
      ∀ node ∈ pushed.queue.messages.nodes, node ∈ q.messages.nodes ∨
        node.2.msgMeta.destD = broadcastId ∧
          ∀ now, (Queue.givenMessage node.2 now).msgMeta.ackRequestedD = false)

theorem pushKept_of_destD {us : ℤ} {msgMeta : QueuedMessageMeta}
    (hkept : (r.handleOut msgMeta us).destD = msgMeta.destD)
    (h : msgMeta.destD = broadcastId ∨ msgMeta.destD = us) : PushKept Desc Msg r us msgMeta := by
  rintro q loopback clock n msg _ rfl
  constructor
  · intro hus
    exact Queue.pushMessage_local rfl (hkept.trans hus)
  · intro hus
    have hparent : ((r.parent us loopback : Queue.Parent Msg).outRoute n msgMeta msg us).destD =
        msgMeta.destD := hkept
    obtain ⟨hacked, hnodes⟩ := Queue.pushMessage_remote q (r.parent us loopback) clock rfl
      (hparent.trans_ne hus)
    refine ⟨hacked, fun node hnode => (hnodes node hnode).imp_right fun hdest => ?_⟩
    have hnode : node.2.msgMeta.destD = broadcastId := (hdest.trans hkept).trans (h.resolve_right hus)
    exact ⟨hnode, fun now => Queue.givenMessage_broadcast hnode now⟩

/-- What is for this node or for all nodes is left alone, and treated as such when it is pushed, if
and only if neither is redirected. -/
theorem local_and_broadcast_kept (r : RouteManager Manager) (us : ℤ) :
    (∀ msgMeta : QueuedMessageMeta, msgMeta.destD = broadcastId ∨ msgMeta.destD = us →
      (r.handleOut msgMeta us).destD = msgMeta.destD ∧ PushKept Desc Msg r us msgMeta) ↔
    r.Leaves us broadcastId ∧ (us ∈ r.cfg.hop ∧ us ≠ -1 ∨ r.GatewayPasses us) := by
  rw [← leaves_self_iff]
  constructor
  · intro h
    have hbroadcast := (h { dest := some broadcastId } (.inl rfl)).1
    have hself := (h { dest := some us } (.inr rfl)).1
    exact ⟨(handleOut_destD_iff us _).mp hbroadcast, (handleOut_destD_iff us _).mp hself⟩
  · rintro ⟨hbroadcast, hself⟩ msgMeta hdest
    have hleaves : r.Leaves us msgMeta.destD := by
      rcases hdest with hdest | hdest
      · rwa [hdest]
      · rwa [hdest]
    have hkept := (handleOut_destD_iff us msgMeta).mpr hleaves
    exact ⟨hkept, pushKept_of_destD hkept hdest⟩

def rowRoute : RouteManager Unit where
  cfg := { hop := [4, 1, 3, 7] }

theorem rowRoute_kept :
    (rowRoute.handleOut { dest := some broadcastId } 3).destD = broadcastId ∧
      (rowRoute.handleOut { dest := some 3 } 3).destD = 3 := by
  have hkept := (@local_and_broadcast_kept Unit Unit Unit rowRoute 3).mpr
    ⟨by simp [Leaves, GatewayPasses, rowRoute, findNextRouteHop, routeIndex, routeIndexFrom,
      broadcastId], .inl (by decide)⟩
  exact ⟨(hkept _ (.inl rfl)).1, (hkept _ (.inr rfl)).1⟩

def emptyQueue : Queue Unit Unit where
  desc := ()
  cfg := { protobufName := "Report" }
  lastSendTime := some 0

/-- What node 3 queues of a message of one byte, when its gateway is node 9. -/
def gatewayPush (dest : ℤ) : Queue.PushResult Unit Unit :=
  emptyQueue.pushMessage ((sampleRoute [4, 1]).parent 3 false) (fun _ => 0) 0 ()
    { dest := some dest, nonRepeatedSize := some 1 }

/-- A message to all nodes and one to node 3 itself are both queued for the gateway, to be
acknowledged by it, and the latter is not handed back. -/
theorem gatewayPush_redirected :
    (gatewayPush broadcastId).queue.messages.nodes.map
        (fun m => (m.2.msgMeta.destD, (Queue.givenMessage m.2 0).msgMeta.ackRequestedD)) = [(9, true)] ∧
      (gatewayPush 3).queue.messages.nodes.map
        (fun m => (m.2.msgMeta.destD, (Queue.givenMessage m.2 0).msgMeta.ackRequestedD)) = [(9, true)] ∧
      (gatewayPush 3).received = [] := by
  decide +kernel

end RouteManager
end Goby
