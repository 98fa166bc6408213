import Goby.DataRequestRefinement

/-! A contest asks every queue for its priority values, and a queue that takes part has a next
message which suits the request: there is room for it, and neither its destination nor its
wish for an acknowledgment contradicts the packet. While the other queues are asked, data
made on demand are pushed to them, but never to a queue that was asked before. So the next
message of the winner is still the one that was looked at. -/

namespace Goby

def Failure.isReported : Failure → Bool
  | .queue _ | .dccl _ => true
  | .outOfRange | .undefined | .fuel => false

theorem mapError_dccl {α : Type} (x : Except String α) :
    Outcome (x.mapError Failure.dccl) (fun a => x = .ok a) (fun e => e.isReported = true) := by
  cases x with
  | ok a => exact .ok rfl
  | error what => exact .error rfl

theorem ModemTransmission.dest_eq_some {msg : ModemTransmission} (h : msg.destD ≠ queryDestinationId) :
    msg.dest = some msg.destD := by
  cases hd : msg.dest with
  | none => exact absurd (by rw [destD, hd]; rfl) h
  | some d => simp [destD, hd]

namespace Queue

variable {Desc Msg : Type}

section Metadata

variable (lib : Library Desc Msg)

theorem findQueueFieldIn_outcome (fieldName : String) (names : List String) (msg : Msg) :
    Outcome (findQueueFieldIn lib fieldName names msg) (fun _ => True) (fun e => e.isReported = true) := by
  induction names generalizing msg with
  | nil => exact .ok trivial
  | cons name rest ih =>
    unfold findQueueFieldIn
    split
    · exact .error rfl
    · split
      · exact .error rfl
      · split
        · cases lib.getValue _ msg <;> exact .ok trivial
        · split
          · exact .error rfl
          · split
            · exact ih _
            · exact .ok trivial

theorem addressRole_outcome (option : String) (v : Option (FieldValue Msg)) :
    Outcome (addressRole lib option v) (fun _ => True) (fun e => e.isReported = true) := by
  unfold addressRole
  split <;> first | exact .ok trivial | exact .error rfl

theorem timeRole_outcome (v : Option (FieldValue Msg)) :
    Outcome (timeRole lib v) (fun _ => True) (fun e => e.isReported = true) := by
  unfold timeRole
  split <;> first | exact .ok trivial | exact .error rfl

variable (q : Queue Desc Msg)

/-- A role of the message, read into the metadata if a field has it. -/
def readRole (msg : Msg) (role : RoleType)
    (read : Option (FieldValue Msg) → Except Failure QueuedMessageMeta)
    (msgMeta : QueuedMessageMeta) :
    Except Failure QueuedMessageMeta :=
  match q.roleField role with
  | none => pure msgMeta
  | some field => findQueueField lib field msg >>= read

theorem readRole_outcome {q : Queue Desc Msg} {msg : Msg} {role : RoleType}
    {read : Option (FieldValue Msg) → Except Failure QueuedMessageMeta} {msgMeta : QueuedMessageMeta}
    {Q : QueuedMessageMeta → Prop} (hnone : Q msgMeta)
    (hread : ∀ v, Outcome (read v) Q fun e => e.isReported = true) :
    Outcome (q.readRole lib msg role read msgMeta) Q fun e => e.isReported = true := by
  unfold readRole
  split
  · exact .ok hnone
  · exact .bind ((findQueueFieldIn_outcome lib _ _ msg).mono fun v _ => hread v)

theorem metaFromMsg_eq (settings : CodecSettings) (msg : Msg) :
    q.metaFromMsg lib settings msg = (do
      let size ← (lib.size settings msg).mapError Failure.dccl
      let sized := { q.staticMeta with nonRepeatedSize := some size }
      let withDest ← q.readRole lib msg .destinationId (fun v => do
        pure { sized with dest := some (← addressRole lib "is_dest" v) }) sized
      let withSrc ← q.readRole lib msg .sourceId (fun v => do
        pure { withDest with src := some (← addressRole lib "is_src" v) }) withDest
      q.readRole lib msg .timestamp (fun v => do
        match ← timeRole lib v with
        | none => pure withSrc
        | some time => pure { withSrc with time := some time }) withSrc) := by
  unfold Queue.metaFromMsg readRole
  refine bind_congr fun size => ?_
  cases q.roleField .destinationId <;> cases q.roleField .sourceId
  all_goals
    simp only [bind_assoc, pure_bind]
    try rfl

/-- What the metadata made from a message keep of the queue's own, whatever the roles are. -/
def SizedAs (size : ℕ) (msgMeta : QueuedMessageMeta) : Prop :=
  msgMeta.nonRepeatedSize = some size ∧ msgMeta.encodedMessage = q.staticMeta.encodedMessage

theorem metaFromMsg_outcome (settings : CodecSettings) (msg : Msg) :
    Outcome (q.metaFromMsg lib settings msg)
      (fun msgMeta => ∃ n, lib.size settings msg = .ok n ∧ q.SizedAs n msgMeta)
      (fun e => e.isReported = true) := by
  rw [metaFromMsg_eq]
  refine .bind ((mapError_dccl (lib.size settings msg)).mono fun n hn => ?_)
  refine .bind (Outcome.mono (Q := q.SizedAs n) ?_ fun withDest hdest =>
    .bind (Outcome.mono (Q := q.SizedAs n) ?_ fun withSrc hsrc => ?_))
  · refine readRole_outcome lib ⟨rfl, rfl⟩ fun v => ?_
    exact .bind ((addressRole_outcome lib _ v).mono fun dest _ => .ok ⟨rfl, rfl⟩)
  · refine readRole_outcome lib hdest fun v => ?_
    exact .bind ((addressRole_outcome lib _ v).mono fun src _ => .ok hdest)
  · refine readRole_outcome lib ⟨n, hn, hsrc⟩ fun v => ?_
    refine .bind ((timeRole_outcome lib v).mono fun time _ => ?_)
    cases time <;> exact .ok ⟨n, hn, hsrc⟩

end Metadata

/-- What the contest asks of the next message of a queue. -/
structure Eligible (request : ModemTransmission) (data : Bytes) (next : QueuedMessageMeta) : Prop where
  room : request.maxFrameBytes.isSome = true →
    next.sizeD ≤ sizeSub request.maxFrameBytesD data.length
  dest : request.dest.isSome = true → request.destD = queryDestinationId ∨
    next.destD = broadcastId ∨ request.destD = next.destD
  ack : request.ackRequested = some false → next.ackRequestedD = true → request.destD = broadcastId

/-- Asking a queue is always defined, and one that takes part offers an eligible message. -/
theorem getPriorityValues_spec (q : Queue Desc Msg) (clock : ℕ → ℕ) (n : ℕ)
    (request : ModemTransmission) (data : Bytes) :
    ∃ v, q.getPriorityValues clock n request data = some v ∧ (v.available = true →
      ∃ it m, q.nextMessageIt = some (it, m) ∧ Eligible request data m.msgMeta) := by
  unfold getPriorityValues
  by_cases hs : q.size ≤ q.waitingForAck.length
  · exact ⟨_, if_pos hs, by simp⟩
  · obtain ⟨⟨it, m⟩, hm⟩ := nextMessageIt_isSome (Nat.lt_of_not_le hs)
    simp only [hs, hm, if_false, Option.some.injEq, exists_eq_left']
    intro havail
    simp only [Bool.not_eq_true', Bool.or_eq_false_iff, decide_eq_false_iff_not] at havail
    obtain ⟨⟨⟨-, hroom⟩, hdest⟩, hack⟩ := havail
    refine ⟨it, m, rfl, fun h => ?_, fun h => ?_, fun h h' => ?_⟩
    · exact Nat.le_of_not_lt fun hlt => hroom ⟨h, hlt⟩
    · exact by_contra fun hne => hdest ⟨h, hne⟩
    · exact by_contra fun hne => hack ⟨h, h', hne⟩

end Queue

namespace QueueManager

variable {Desc Msg : Type} {env : Environment Desc Msg} {s : QueueManager Desc Msg} {k : ℕ}
  {J : QueueManager Desc Msg → Prop}

/-- A subscriber fills in the message it is given, whose type stays what it is. -/
def DemandsInPlace (env : Environment Desc Msg) : Prop :=
  ∀ n request desc, env.descriptor (env.onDemand n request (env.newMessage desc)) = desc

def Offers (s : QueueManager Desc Msg) (request : ModemTransmission) (data : Bytes) (k : ℕ) : Prop :=
  ∃ q it m, s.queues[k]? = some q ∧ q.nextMessageIt = some (it, m) ∧
    Queue.Eligible request data m.msgMeta

theorem lift_ensures {α : Type} {x : Except Failure α} {Q : α → Prop} {E : Failure → Prop}
    (h : Outcome x Q E) (s : QueueManager Desc Msg) :
    Ensures (lift x : Code Desc Msg α) s (fun a s' => s' = s ∧ Q a) (fun e _ => E e) := by
  cases x with
  | ok a => exact .pure ⟨rfl, h⟩
  | error e => exact .throw h

theorem metaFromMsg_ensures (msg : Msg) (s : QueueManager Desc Msg) :
    Ensures (metaFromMsg env msg) s (fun _ s' => s' = s) (fun e _ => e.isReported = true) := by
  refine .get_bind ?_
  split
  · exact .throw rfl
  · exact (lift_ensures (Queue.metaFromMsg_outcome _ _ _ _) s).mono (fun _ _ h => h.1) fun _ _ h => h

/-- Queue `k` is as before, or a message made on demand was pushed to it. -/
def Demanded (env : Environment Desc Msg) (k : ℕ) (s s' : QueueManager Desc Msg) : Prop :=
  s'.queues = s.queues ∨ ∃ q settings msg msgMeta parent n, s.queues[k]? = some q ∧
    q.metaFromMsg env.toLibrary settings msg = .ok msgMeta ∧ parent.outRoute = env.outRoute ∧
    s'.queues = s.queues.insert k (q.pushMessage parent env.clock n msg msgMeta).queue

theorem Demanded.other {s s' : QueueManager Desc Msg} (h : Demanded env k s s') {j : ℕ}
    (hj : j ≠ k) : s'.queues[j]? = s.queues[j]? := by
  rcases h with h | ⟨q, settings, msg, msgMeta, parent, n, -, -, -, h⟩
  · rw [h]
  · simp [h, Std.TreeMap.getElem?_insert, Ne.symm hj]

theorem Demanded.known {s s' : QueueManager Desc Msg} (h : Demanded env k s s') {j : ℕ}
    (hj : ∃ q, s.queues[j]? = some q) : ∃ q, s'.queues[j]? = some q := by
  rcases h with h | ⟨q, settings, msg, msgMeta, parent, n, -, -, -, h⟩
  · rwa [h]
  · rw [h, Std.TreeMap.getElem?_insert]
    split
    · exact ⟨_, rfl⟩
    · exact hj

theorem pushOnQueue_ensures (k : ℕ) (q : Queue Desc Msg) (msg : Msg) (given : QueuedMessageMeta)
    (s : QueueManager Desc Msg) :
    Ensures (pushOnQueue env k q msg given) s
      (fun _ s' => s'.queues = s.queues.insert k
        (q.pushMessage (s.parent env k) env.clock s.readings msg given).queue)
      (fun e _ => e.isReported = true) := by
  simp [Ensures, pushOnQueue, setReadings, emit, putQueue, qsize, getQueue]

theorem pushMessage_demanded (msg : Msg) (s : QueueManager Desc Msg) :
    Ensures (pushMessage env msg none) s
      (fun _ s' => Demanded env (env.id (env.descriptor msg)) s s')
      (fun e _ => e.isReported = true) := by
  refine .get_bind ?_
  split
  · exact .throw rfl
  next q hq =>
    refine .bind (.bind (.get ((lift_ensures (Queue.metaFromMsg_outcome _ _ _ _).with_run s).mono ?_
      fun _ _ h => h)))
    rintro msgMeta _ ⟨rfl, hmeta, -⟩
    refine (pushOnQueue_ensures _ q msg msgMeta _).mono ?_ fun _ _ h => h
    intro _ s' h
    exact .inr ⟨q, _, msg, msgMeta, _, _, hq, hmeta, rfl, h⟩

theorem needsData_ensures (q : Queue Desc Msg) (s : QueueManager Desc Msg) :
    Ensures (needsData env q) s (fun _ s' => s'.queues = s.queues) (fun e _ => e.isReported = true) := by
  unfold needsData
  split
  · exact .pure rfl
  · exact .bind (.get (.bind (.modify (.pure rfl))))

theorem Demanded.of_queues {s s₁ s₂ : QueueManager Desc Msg} (h : s₁.queues = s.queues)
    (h' : Demanded env k s₁ s₂) : Demanded env k s s₂ := by
  unfold Demanded at h' ⊢
  rwa [h] at h'

theorem encodeOnDemand_ensures (hd : DemandsInPlace env) (request : ModemTransmission)
    {q : Queue Desc Msg} (hq : s.queues[k]? = some q)
    (hid : env.id q.desc = k) :
    Ensures (encodeOnDemand env request k) s (fun _ s' => Demanded env k s s')
      (fun e _ => e.isReported = true) := by
  refine .bind (.of_run (getQueue_run hq) (.bind (.get ?_)))
  split
  · refine (needsData_ensures q s).andThen ?_
    intro wanted s₁ h₁
    split
    · refine .bind (.get (.bind (.modify (.bind (.modify ?_)))))
      split
      · have hk : env.id (env.descriptor (env.onDemand s₁.readings request (env.newMessage q.desc))) = k := by
          rw [hd, hid]
        refine (pushMessage_demanded _ _).mono ?_ fun _ _ h => h
        intro _ s₂ h₂
        rw [hk] at h₂
        exact .of_queues h₁ (.of_queues rfl h₂)
      · exact .pure (.inl h₁)
    · exact .pure (.inl h₁)
  · exact .pure (.inl rfl)

/-- What pushing data on demand keeps of the queues holds after the contest, and the winner
still offers the message that it won with. -/
theorem contest_ensures (hd : DemandsInPlace env)
    (hquiet : ∀ s s', Quiet s s' → J s → J s') (hJ : ∀ k s s', Demanded env k s s' → J s → J s')
    (request : ModemTransmission) (data : Bytes) {ks : List ℕ} (hks : ks.Nodup) {w : Winner}
    (hs : Inv env s) (hj : J s)
    (hknown : ∀ k ∈ ks, ∃ q, s.queues[k]? = some q)
    (hw : ∀ v, w = some v → v.1 ∉ ks ∧ s.Offers request data v.1) :
    Ensures (contest env request data ks w) s
      (fun w' s' => J s' ∧ ∀ v, w' = some v → s'.Offers request data v.1)
      (fun e _ => e.isReported = true) := by
  induction ks generalizing w s with
  | nil => exact .pure ⟨hj, fun v hv => (hw v hv).2⟩
  | cons k rest ih =>
    obtain ⟨hk, hrest⟩ := List.nodup_cons.mp hks
    obtain ⟨q, hq⟩ := hknown k List.mem_cons_self
    refine .bind (((encodeOnDemand_ensures hd request hq (hs.ids k q hq)).and
      ((encodeOnDemand_reaches request k).ensures s)).mono ?_ fun _ _ h => h.1)
    rintro - s₁ ⟨h₁, hr₁⟩
    obtain ⟨q₁, hq₁⟩ := h₁.known ⟨q, hq⟩
    refine .bind (.of_run (getQueue_run hq₁) (.bind (.get ?_)))
    obtain ⟨v, hv, havail⟩ := q₁.getPriorityValues_spec env.clock s₁.readings request data
    rw [hv]
    have hquiet₂ : Quiet s₁ { s₁ with readings := v.readings } := ⟨rfl, rfl, rfl, rfl⟩
    have hr₂ : Reaches env IsPush s₁ { s₁ with readings := v.readings } := hquiet₂.reaches
    refine .bind (.modify (ih hrest ?_ (hquiet _ _ hquiet₂ (hJ _ _ _ h₁ hj)) ?_ ?_))
    · exact hr₂.inv (hr₁.inv hs)
    · intro j hj'
      exact h₁.known (hknown j (List.mem_cons_of_mem _ hj'))
    · -- the new winner was looked at just now, an old one is not the queue that data were pushed to
      intro u hu
      split at hu
      next hwin =>
        cases hu
        obtain ⟨it, m, hm, hfit⟩ := havail (by simp_all)
        exact ⟨hk, q₁, it, m, hq₁, hm, hfit⟩
      next =>
        obtain ⟨hnot, p, it, m, hp, hm, hfit⟩ := hw u hu
        have hne : u.1 ≠ k := fun he => hnot (he ▸ List.mem_cons_self)
        exact ⟨fun hmem => hnot (List.mem_cons_of_mem _ hmem), p, it, m, (h₁.other hne).trans hp, hm, hfit⟩

theorem findNextSender_ensures (hd : DemandsInPlace env)
    (hquiet : ∀ s s', Quiet s s' → J s → J s') (hJ : ∀ k s s', Demanded env k s s' → J s → J s')
    (request : ModemTransmission) (data : Bytes) (hs : Inv env s) (hj : J s) :
    Ensures (findNextSender env request data) s
      (fun next s' => J s' ∧ ∀ k, next = some k → s'.Offers request data k)
      (fun e _ => e.isReported = true) := by
  have hnodup : s.queues.keys.Nodup := s.queues.distinct_keys.imp fun h => by simpa using h
  have hknown : ∀ k ∈ s.queues.keys, ∃ q, s.queues[k]? = some q := by
    intro k hk
    exact ⟨_, Std.TreeMap.getElem?_eq_some_getElem (Std.TreeMap.mem_keys.mp hk)⟩
  refine .bind (.get (.bind ((contest_ensures hd hquiet hJ request data hnodup hs hj hknown
    (by simp)).mono ?_ fun _ _ h => h)))
  rintro w s' ⟨hj', hw⟩
  refine .pure ⟨hj', fun k hk => ?_⟩
  obtain ⟨v, hv, rfl⟩ := Option.map_eq_some_iff.mp hk
  exact hw v hv

end QueueManager
end Goby
