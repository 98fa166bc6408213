import Goby.FrameDelivery
import Goby.NextSender

/-! Without encryption rules, receiving a frame only adds events to the log, the same ones whatever
was logged before. So the frames of a transmission are handled as if each came alone, as long as
none of them ends the call: that happens if a message is decoded that the manager has no queue
for, or whose metadata the queue refuses. -/

namespace Goby.QueueManager

variable {Desc Msg α β : Type} {env : Environment Desc Msg}

def leaving : Except Failure α → QueueManager Desc Msg → EStateM.Result Failure (QueueManager Desc Msg) α
  | .ok a, s => .ok a s
  | .error e, s => .error e s

/-- From `s`, whatever was logged since, the code ends in this way and adds these events. -/
def Appends (m : Code Desc Msg α) (s : QueueManager Desc Msg) (x : Except Failure α)
    (es : List (Event Msg)) : Prop :=
  ∀ before, m (s.logged before) = leaving x (s.logged (before ++ es))

/-- The code only adds to the log, with a result that meets `Q` or an exception that meets `E`. -/
def Writes (m : Code Desc Msg α) (s : QueueManager Desc Msg) (Q : α → Prop) (E : Failure → Prop) : Prop :=
  ∃ x es, Appends m s x es ∧ Outcome x Q E

def appended (m : Code Desc Msg α) (s : QueueManager Desc Msg) : List (Event Msg) :=
  (finalState m s).log.drop s.log.length

def Returns (m : Code Desc Msg α) (s : QueueManager Desc Msg) : Prop := ∃ a s', m s = .ok a s'

namespace Appends

variable {m : Code Desc Msg α} {f : α → Code Desc Msg β} {s : QueueManager Desc Msg}
  {x : Except Failure α} {y : Except Failure β} {es es' : List (Event Msg)}

theorem bind {a : α} (h : Appends m s (.ok a) es) (h' : Appends (f a) s y es') :
    Appends (m >>= f) s y (es ++ es') :=
  fun before => by simp [h before, leaving, h' (before ++ es)]

theorem bind_error {e : Failure} (h : Appends m s (.error e) es) :
    Appends (m >>= f) s (.error e) es :=
  fun before => by simp [h before, leaving]

theorem run (h : Appends m s x es) : m s = leaving x (s.logged es) := by simpa using h []

theorem appended_eq (h : Appends m s x es) : appended m s = es := by
  have hlog : (finalState m s).log = s.log ++ es := by
    rw [finalState, h.run]
    cases x <;> rfl
  rw [appended, hlog, List.drop_left]

end Appends

namespace Writes

variable {m : Code Desc Msg α} {f : α → Code Desc Msg β} {s : QueueManager Desc Msg}
  {Q : α → Prop} {Q' : β → Prop} {E E' : Failure → Prop}

theorem pure {a : α} (h : Q a) : Writes (pure a : Code Desc Msg α) s Q E :=
  ⟨.ok a, [], fun before => by simp [leaving], .ok h⟩

theorem throw {e : Failure} (h : E e) : Writes (throw e : Code Desc Msg α) s Q E :=
  ⟨.error e, [], fun before => by simp [leaving], .error h⟩

theorem lift {x : Except Failure α}
    (h : Outcome x Q E) : Writes (lift x : Code Desc Msg α) s Q E := by
  cases x with
  | ok a => exact pure h
  | error e => exact throw h

theorem emit (es : List (Event Msg)) : Writes (emit es : Code Desc Msg Unit) s (fun _ => True) E :=
  ⟨.ok (), es, fun before => by simp [QueueManager.emit, leaving, logged], .ok trivial⟩

theorem imp {Q' : α → Prop} (h : Writes m s Q E) (hQ : ∀ a, Q a → Q' a) : Writes m s Q' E := by
  obtain ⟨x, es, hx, ho⟩ := h
  refine ⟨x, es, hx, ?_⟩
  cases x with
  | ok a => exact hQ a ho
  | error e => exact ho

theorem mono (h : Writes m s Q E) (hE : ∀ e, E e → E' e) : Writes m s Q E' := by
  obtain ⟨x, es, hx, ho⟩ := h
  refine ⟨x, es, hx, ?_⟩
  cases x with
  | ok a => exact ho
  | error e => exact hE e ho

theorem bind (h : Writes m s Q E)
    (hf : ∀ a, Q a → Writes (f a) s Q' E) : Writes (m >>= f) s Q' E := by
  obtain ⟨x, es, hx, ho⟩ := h
  cases x with
  | error e => exact ⟨.error e, es, hx.bind_error, ho⟩
  | ok a =>
    obtain ⟨y, es', hy, ho'⟩ := hf a ho
    exact ⟨y, es ++ es', hx.bind hy, ho'⟩

theorem get_bind {f : QueueManager Desc Msg → Code Desc Msg β}
    (hf : ∀ before, f (s.logged before) = f s)
    (h : Writes (f s) s Q' E) : Writes (get >>= f) s Q' E := by
  obtain ⟨x, es, hx, ho⟩ := h
  exact ⟨x, es, fun before => by simp [hf before, hx before], ho⟩

theorem tryDccl (h : Writes m s Q E) :
    Writes (tryDccl m) s
      (fun r => match r with
        | .ok a => Q a
        | .error what => E (.dccl what))
      (fun e => E e ∧ ∀ what, e ≠ .dccl what) := by
  obtain ⟨x, es, hx, ho⟩ := h
  cases x with
  | ok a => exact ⟨.ok (.ok a), es, fun before => by simp [QueueManager.tryDccl, hx before, leaving], .ok ho⟩
  | error e =>
    by_cases hdccl : ∃ what, e = .dccl what
    · obtain ⟨what, rfl⟩ := hdccl
      exact ⟨.ok (.error what), es, fun before => by simp [QueueManager.tryDccl, hx before, leaving], .ok ho⟩
    · refine ⟨.error e, es, fun before => ?_, .error ⟨ho, fun what he => hdccl ⟨what, he⟩⟩⟩
      cases e with
      | dccl what => exact absurd ⟨what, rfl⟩ hdccl
      | _ => simp [QueueManager.tryDccl, hx before, leaving]

theorem returns_iff {P : Prop} (h : Writes m s (fun _ => P) fun _ => ¬ P) : Returns m s ↔ P := by
  obtain ⟨x, es, hx, ho⟩ := h
  rw [Returns, hx.run]
  cases x with
  | ok a => exact iff_of_true ⟨a, _, rfl⟩ ho
  | error e => exact iff_of_false (by simp [leaving]) ho

end Writes

/-- There is a queue for the message, and it does not refuse to read its metadata. -/
def HasQueue (env : Environment Desc Msg) (s : QueueManager Desc Msg) (msg : Msg) : Prop :=
  ∃ q, s.queues[env.id (env.descriptor msg)]? = some q ∧
    ∀ what, q.metaFromMsg env.toLibrary s.codec.codec.settings msg ≠ .error (.queue what)

/-- The message is decoded from the bytes, or from what is left of them behind messages that are
decoded before and have metadata. -/
inductive Holds (env : Environment Desc Msg) (s : QueueManager Desc Msg) : Bytes → Msg → Prop
  | first {bytes : Bytes} {msg : Msg} (hne : bytes ≠ [])
      (h : env.decode s.codec.codec.settings bytes false = .ok msg) : Holds env s bytes msg
  | later {bytes : Bytes} {msg next : Msg} {msgMeta : QueuedMessageMeta} {n : ℕ} (hne : bytes ≠ [])
      (h : env.decode s.codec.codec.settings bytes false = .ok msg) (hmeta : HasMeta env s msg msgMeta)
      (hsize : env.size s.codec.codec.settings msg = .ok n) (hnext : Holds env s (bytes.drop n) next) :
      Holds env s bytes next

def AllQueued (env : Environment Desc Msg) (s : QueueManager Desc Msg) (bytes : Bytes) : Prop :=
  ∀ msg, Holds env s bytes msg → HasQueue env s msg

def HeaderQueued (env : Environment Desc Msg) (s : QueueManager Desc Msg) (frame : Bytes) : Prop :=
  ∀ header, env.decode s.codec.codec.settings frame true = .ok header → HasQueue env s header

/-- The messages of the frame have queues if they are decoded, and its header if it is routed. -/
def Queued (env : Environment Desc Msg) (s : QueueManager Desc Msg) (frame : Bytes) : Prop :=
  (s.cfg.skipDecoding.getD false = false → AllQueued env s frame) ∧
    (env.inRouteConnected s.readings = true → HeaderQueued env s frame)

def SizesPositive (env : Environment Desc Msg) : Prop :=
  ∀ settings msg n, env.size settings msg = .ok n → 1 ≤ n

variable {s : QueueManager Desc Msg} {E : Failure → Prop}

theorem HasMeta.hasQueue {msg : Msg} {msgMeta : QueuedMessageMeta} (h : HasMeta env s msg msgMeta) :
    HasQueue env s msg := by
  simp only [HasMeta, metaFromMsg, run_bind, run_get] at h
  cases hq : s.queues[env.id (env.descriptor msg)]? with
  | none => simp [hq] at h
  | some q =>
    refine ⟨q, hq, fun what hwhat => ?_⟩
    simp [hq, hwhat, lift] at h

theorem metaFromMsg_writes (msg : Msg) : Writes (metaFromMsg env msg) s (HasMeta env s msg)
    (fun e => (HasQueue env s msg ↔ ∃ what, e = .dccl what) ∧ ∀ msgMeta, ¬ HasMeta env s msg msgMeta) := by
  refine .get_bind (fun _ => rfl) ?_
  cases hq : s.queues[env.id (env.descriptor msg)]? with
  | none => exact .throw ⟨by simp [HasQueue, hq], by simp [HasMeta, metaFromMsg, hq]⟩
  | some q =>
    have hout := Queue.metaFromMsg_outcome env.toLibrary q s.codec.codec.settings msg
    refine .lift ?_
    cases hmeta : q.metaFromMsg env.toLibrary s.codec.codec.settings msg with
    | ok msgMeta => exact .ok (by simp [HasMeta, metaFromMsg, hq, hmeta, lift])
    | error e =>
      rw [hmeta] at hout
      refine .error ⟨?_, by simp [HasMeta, metaFromMsg, hq, hmeta, lift]⟩
      cases e with
      | dccl what => simp [HasQueue, hq, hmeta]
      | queue what => simp [HasQueue, hq, hmeta]
      | _ => cases hout

theorem decode_writes (bytes : Bytes) (headerOnly : Bool) : Writes (decode env bytes headerOnly) s
    (fun msg => env.decode s.codec.codec.settings bytes headerOnly = .ok msg)
    (fun e => (∃ what, e = .dccl what) ∧
      ∀ msg, env.decode s.codec.codec.settings bytes headerOnly ≠ .ok msg) := by
  refine .get_bind (fun _ => rfl) (.lift ?_)
  cases env.decode s.codec.codec.settings bytes headerOnly with
  | ok msg => exact .ok rfl
  | error what => exact .error ⟨⟨what, rfl⟩, nofun⟩

theorem deliver_writes (m : QueuedMessage Msg) : Writes (deliver env m) s (fun _ => True) E := by
  refine .get_bind (fun _ => rfl) ?_
  dsimp only
  split_ifs
  all_goals first
    | exact .pure trivial
    | exact .emit _

theorem deliverAll_writes (ms : List (QueuedMessage Msg)) :
    Writes (deliverAll env ms) s (fun _ => True) E := by
  induction ms with
  | nil => exact .pure trivial
  | cons m rest ih => exact .bind (deliver_writes m) fun _ _ => ih

theorem routeFrame_writes (t : ModemTransmission) (frame : Bytes) : Writes (routeFrame env t frame) s
    (fun _ => env.inRouteConnected s.readings = true → HeaderQueued env s frame)
    (fun e => (env.inRouteConnected s.readings = true → HeaderQueued env s frame) ↔
      ∃ what, e = .dccl what) := by
  refine .get_bind (fun _ => rfl) ?_
  split
  next hroute =>
    simp only [hroute, true_implies]
    refine .bind ((decode_writes frame true).mono fun e h =>
      iff_of_true (fun header hheader => absurd hheader (h.2 header)) h.1) fun header hheader => ?_
    have hheader' : HeaderQueued env s frame ↔ HasQueue env s header := by
      simp [HeaderQueued, hheader]
    rw [hheader']
    refine .bind ((metaFromMsg_writes header).mono fun e h => h.1) fun msgMeta hmeta => ?_
    split
    · exact (Writes.emit _).imp fun _ _ => hmeta.hasQueue
    · exact .pure hmeta.hasQueue
  next hroute => exact .pure fun h => absurd h hroute

variable [DecidableEq Desc]

section

variable (hr : s.encryptRules.isEmpty = true)
include hr

theorem decodeOne_writes {bytes : Bytes} (hne : bytes ≠ []) : Writes (decodeOne env bytes) s
    (fun m => env.decode s.codec.codec.settings bytes false = .ok m.dcclMsg ∧
      HasMeta env s m.dcclMsg m.msgMeta)
    (fun e => AllQueued env s bytes ↔ ∃ what, e = .dccl what) := by
  refine .get_bind (fun _ => rfl) ?_
  rw [if_pos hr]
  refine .bind ((decode_writes bytes false).mono fun e h => iff_of_true ?_ h.1) fun msg hmsg => ?_
  · rintro _ (⟨-, hmsg⟩ | ⟨-, hmsg, -, -, -⟩) <;> exact absurd hmsg (h.2 _)
  · refine .bind ((metaFromMsg_writes msg).mono fun e h => ?_) fun msgMeta hmeta => .pure ⟨hmsg, hmeta⟩
    refine Iff.trans ⟨fun hall => hall msg (.first hne hmsg), fun hqueue => ?_⟩ h.1
    rintro _ (⟨-, hmsg'⟩ | ⟨-, hmsg', hmeta', -, -⟩) <;> cases hmsg.symm.trans hmsg'
    · exact hqueue
    · exact absurd hmeta' (h.2 _)

omit [DecidableEq Desc] hr in
/-- Behind a message that has metadata, it is what is left that counts. -/
theorem allQueued_drop {bytes : Bytes} (hne : bytes ≠ []) {m : QueuedMessage Msg}
    (hmsg : env.decode s.codec.codec.settings bytes false = .ok m.dcclMsg)
    (hmeta : HasMeta env s m.dcclMsg m.msgMeta) :
    AllQueued env s bytes ↔ ∀ n, env.size s.codec.codec.settings m.dcclMsg = .ok n →
      AllQueued env s (bytes.drop n) := by
  refine ⟨fun h n hn next hnext => h next (.later hne hmsg hmeta hn hnext), fun h => ?_⟩
  rintro next (⟨-, hmsg'⟩ | ⟨-, hmsg', -, hn, hnext⟩) <;> cases hmsg.symm.trans hmsg'
  · exact hmeta.hasQueue
  · exact h _ hn next hnext

theorem decodeLoop_writes (hsizes : SizesPositive env) (fuel : ℕ)
    (bytes : Bytes) (hfuel : bytes.length ≤ fuel) (out : List (QueuedMessage Msg)) :
    Writes (decodeLoop env fuel bytes out) s (fun _ => AllQueued env s bytes)
      (fun e => AllQueued env s bytes ↔ ∃ what, e = .dccl what) := by
  have hnil : AllQueued env s [] := by
    rintro _ (⟨hne, -⟩ | ⟨hne, -⟩) <;> exact absurd rfl hne
  induction fuel generalizing bytes out with
  | zero =>
    obtain rfl : bytes = [] := List.length_eq_zero_iff.mp (Nat.le_zero.mp hfuel)
    exact .pure hnil
  | succ fuel ih =>
    cases bytes with
    | nil => exact .pure hnil
    | cons b rest =>
      have hne : b :: rest ≠ [] := nofun
      refine .bind ((decodeOne_writes hr hne).tryDccl.mono fun e h => h.1) fun decoded hdecoded => ?_
      cases decoded with
      | error what =>
        have hall : AllQueued env s (b :: rest) := hdecoded.mpr ⟨what, rfl⟩
        dsimp only
        split
        · exact .throw (iff_of_true hall ⟨what, rfl⟩)
        · exact .pure hall
      | ok m =>
        obtain ⟨hmsg, hmeta⟩ := hdecoded
        rw [allQueued_drop hne hmsg hmeta]
        refine .get_bind (fun _ => rfl) ?_
        cases hsize : env.size s.codec.codec.settings m.dcclMsg with
        | error what => exact .pure nofun
        | ok lastSize =>
          have hpos : 1 ≤ lastSize := hsizes _ _ _ hsize
          have hlen : ((b :: rest).drop lastSize).length ≤ fuel := by
            simp only [List.length_drop, List.length_cons] at hfuel ⊢
            omega
          simpa using ih _ hlen (out ++ [m])

theorem receiveFrame_writes (hsizes : SizesPositive env)
    (frame : Bytes) : Writes (receiveFrame env frame) s
      (fun _ => s.cfg.skipDecoding.getD false = false → AllQueued env s frame)
      (fun e => (s.cfg.skipDecoding.getD false = false → AllQueued env s frame) ↔
        ∃ what, e = .dccl what) := by
  refine .get_bind (fun _ => rfl) ?_
  split
  next hskip => exact .pure fun h => absurd (hskip.symm.trans h) nofun
  next hskip =>
    simp only [Bool.not_eq_true] at hskip
    simp only [hskip, true_implies]
    exact .bind (decodeLoop_writes hr hsizes frame.length frame (Nat.le_refl _) []) fun ms hall =>
      (deliverAll_writes ms).imp fun _ _ => hall

end

/-- A frame alone is handled without an exception if and only if what it holds has queues. -/
theorem receiveFrames_singleton_writes (hr : s.encryptRules.isEmpty = true)
    (hsizes : SizesPositive env) (t : ModemTransmission) (frame : Bytes) :
    Writes (receiveFrames env t [frame]) s (fun _ => Queued env s frame) (fun _ => ¬ Queued env s frame) := by
  have hcaught {P : Prop} {e : Failure} (h : (P ↔ ∃ what, e = Failure.dccl what) ∧ ∀ what, e ≠ .dccl what) :
      ¬ P := fun hp => (h.1.mp hp).elim h.2
  refine .bind ((receiveFrame_writes hr hsizes frame).tryDccl.mono fun e h hq => hcaught h hq.1)
    fun received hreceived => ?_
  refine .bind ((routeFrame_writes t frame).tryDccl.mono fun e h hq => hcaught h hq.2)
    fun routed hrouted => .pure ⟨?_, ?_⟩
  · cases received with
    | ok _ => exact hreceived
    | error what => exact hreceived.mpr ⟨what, rfl⟩
  · cases routed with
    | ok _ => exact hrouted
    | error what => exact hrouted.mpr ⟨what, rfl⟩

theorem receiveFrames_cons (t : ModemTransmission) (frame : Bytes) (rest : List Bytes) :
    receiveFrames env t (frame :: rest) = (do receiveFrames env t [frame]; receiveFrames env t rest) := by
  simp [receiveFrames]

section

variable (hr : s.encryptRules.isEmpty = true) (hsizes : SizesPositive env) (t : ModemTransmission)
  (frames : List Bytes)
include hr hsizes

theorem receiveFrames_writes : Writes (receiveFrames env t frames) s
    (fun _ => ∀ frame ∈ frames, Queued env s frame)
    (fun _ => ¬ ∀ frame ∈ frames, Queued env s frame) := by
  induction frames with
  | nil => exact .pure (by simp)
  | cons frame rest ih =>
    rw [receiveFrames_cons, List.forall_mem_cons]
    refine .bind ((receiveFrames_singleton_writes hr hsizes t frame).mono fun _ h hall => h hall.1)
      fun _ hframe => ?_
    exact (ih.imp fun _ hrest => ⟨hframe, hrest⟩).mono fun _ h hall => h hall.2

/-- If each frame alone returns, they all do, with the events of one after those of the other. -/
theorem receiveFrames_appends (hframes : ∀ frame ∈ frames, Queued env s frame) :
    Appends (receiveFrames env t frames) s (.ok ())
      (frames.flatMap fun frame => appended (receiveFrames env t [frame]) s) := by
  induction frames with
  | nil => exact fun before => by simp [receiveFrames, leaving]
  | cons frame rest ih =>
    obtain ⟨hframe, hrest⟩ := List.forall_mem_cons.mp hframes
    obtain ⟨x, es, hx, ho⟩ := receiveFrames_singleton_writes hr hsizes t frame
    cases x with
    | error e => exact absurd hframe ho
    | ok u =>
      rw [receiveFrames_cons, List.flatMap_cons, hx.appended_eq]
      exact hx.bind (ih hrest)

end

def signalled (env : Environment Desc Msg) (t : ModemTransmission) (s : QueueManager Desc Msg) : List Msg :=
  (appended (handleModemReceive env t) s).filterMap Event.received

def sharedEnvironment : Environment SampleDesc SampleMsg :=
  { sampleEnvironment with
    decode := fun settings bytes headerOnly => match bytes with
      | 6 :: _ => .ok { desc := .networkAck }
      | _ => sampleEnvironment.decode settings bytes headerOnly }

def statusManager (rules : List DcclEncryptRule) : QueueManager SampleDesc SampleMsg :=
  stateAfter sharedEnvironment 0 sampleCodec
    [.setCfg { modemId := some 1, messageEntry := [sampleEntry], encryptRule := rules }]

end Goby.QueueManager
