import Goby.CallRuns
import Goby.IridiumShore

/-! The driver keeps the connection of a modem in one table and the record of its call in another.
Handlers that find a modem in the one use what the other has for it. A call that is hung up loses
its record at once and its connection when the next poll reports the read that was aborted. The
tables agree after every event, and no record is missed, as long as a connection is used by one
modem only, nothing is sent by RUDICS to a modem without a call, and no exception comes between a
hang-up and the poll. -/

namespace Goby.IridiumShore

/-- The tables agree, but for connections whose read was aborted. -/
structure Pending (aborted : List ℕ) (s : IridiumShore) : Prop where
  connected : ∀ id ∈ s.calls, (s.clients.left? id).isSome
  recorded : ∀ id connection, s.clients.left? id = some connection → id ∈ s.calls ∨ connection ∈ aborted
  keys : ∀ id ∈ s.calls, id < 2 ^ 32

abbrev Booked : IridiumShore → Prop := Pending []

theorem Booked.tracks {s : IridiumShore} (h : Booked s) (id : ℕ) :
    (s.clients.left? id).isSome ↔ id ∈ s.calls := by
  refine ⟨fun hsome => ?_, h.connected id⟩
  obtain ⟨connection, hleft⟩ := Option.isSome_iff_exists.mp hsome
  exact (h.recorded id connection hleft).resolve_right List.not_mem_nil

theorem Pending.mono {aborted aborted' : List ℕ} {s : IridiumShore} (h : Pending aborted s)
    (hsub : aborted ⊆ aborted') : Pending aborted' s :=
  ⟨h.connected, fun id connection hleft => (h.recorded id connection hleft).imp_right (hsub ·), h.keys⟩

structure SameCalls (s s' : IridiumShore) : Prop where
  clients : s'.clients = s.clients
  calls : ∀ id, id ∈ s'.calls ↔ id ∈ s.calls
  aborted : s'.aborted = s.aborted

theorem SameCalls.refl (s : IridiumShore) : SameCalls s s := ⟨rfl, fun _ => Iff.rfl, rfl⟩

theorem SameCalls.trans {s₁ s₂ s₃ : IridiumShore} (h : SameCalls s₁ s₂) (h' : SameCalls s₂ s₃) :
    SameCalls s₁ s₃ :=
  ⟨h'.clients.trans h.clients, fun id => (h'.calls id).trans (h.calls id), h'.aborted.trans h.aborted⟩

theorem Pending.of_same {aborted : List ℕ} {s s' : IridiumShore} (h : Pending aborted s)
    (hs : SameCalls s s') : Pending aborted s' := by
  refine ⟨fun id hid => ?_, fun id connection hleft => ?_, fun id hid => h.keys id ((hs.calls id).mp hid)⟩
  · rw [hs.clients]
    exact h.connected id ((hs.calls id).mp hid)
  · rw [hs.clients] at hleft
    exact (h.recorded id connection hleft).imp_left (hs.calls id).mpr

/-- The computation does not miss a record, does not change who has a call, and throws nothing
unless `throws` holds. -/
def Calm {α : Type} (throws : Prop) (m : ShoreM α) (s : IridiumShore) : Prop :=
  Ensures m s (fun _ s' => SameCalls s s') (fun e s' => (e ≠ .nullOnCall ∧ throws) ∧ SameCalls s s')

section Calm

variable {throws : Prop} {s : IridiumShore} {α β : Type} {id : ℕ}

theorem Calm.pure (a : α) : Calm throws (pure a) s := .refl s

theorem Calm.bind {m : ShoreM α} {f : α → ShoreM β} (h : Calm throws m s)
    (hf : ∀ a s', SameCalls s s' → Calm throws (f a) s') : Calm throws (m >>= f) s := by
  refine Ensures.bind (Ensures.mono h ?_ fun _ _ he => he)
  intro a s' hsame
  exact Ensures.mono (hf a s' hsame) (fun _ _ h => hsame.trans h) fun _ _ h => ⟨h.1, hsame.trans h.2⟩

theorem mem_calls_iff (id : ℕ) : id ∈ s.calls ↔ ∃ c, s.calls[id]? = some c := by
  rw [Std.TreeMap.mem_iff_isSome_getElem?, Option.isSome_iff_exists]

theorem Calm.onCall (h : id ∈ s.calls) : Calm throws (onCall id) s := by
  obtain ⟨c, hc⟩ := (mem_calls_iff id).mp h
  refine Ensures.get_bind ?_
  rw [hc]
  exact .refl s

theorem sameCalls_insert (h : id ∈ s.calls) (c : OnCall) :
    SameCalls s { s with calls := s.calls.insert id c } := by
  refine ⟨rfl, fun id' => ?_, rfl⟩
  rw [Std.TreeMap.mem_insert]
  simp only [compare_eq_iff_eq, or_iff_right_iff_imp]
  rintro rfl
  exact h

theorem sameCalls_log (e : ShoreEvent) : SameCalls s (s.log e) := ⟨rfl, fun _ => Iff.rfl, rfl⟩

theorem sameCalls_writeTo (data : Bytes) (id : ℕ) : SameCalls s (writeTo data id s) := by
  unfold writeTo
  split
  · exact sameCalls_log _
  · exact .refl s

end Calm

section Send

variable {throws : Prop} {s : IridiumShore} {env : ShoreEnv} {now : ℚ} {msg : DriverTransmission}

def Encodes (env : ShoreEnv) (m : DriverTransmission) : Prop :=
  ∃ bytes, serializeIridiumModemMessage env.codec m = .ok bytes

theorem framed_calm (h : throws ∨ Encodes env msg) : Calm throws (framed env msg) s := by
  unfold framed
  split
  · exact .pure _
  next e he =>
    refine ⟨⟨ShoreFailure.noConfusion, h.resolve_right ?_⟩, .refl s⟩
    rintro ⟨bytes, hbytes⟩
    cases hbytes.symm.trans he

theorem sendOnCall_calm (h : modemKey msg.destD ∈ s.calls) (hencodes : throws ∨ Encodes env msg) :
    Calm throws (sendOnCall env now msg) s := by
  refine (framed_calm hencodes).bind fun packet s₁ h₁ => ?_
  refine Calm.bind (sameCalls_writeTo _ _) fun _ s₂ h₂ => ?_
  have hmem : modemKey msg.destD ∈ s₂.calls := (h₂.calls _).mpr ((h₁.calls _).mpr h)
  exact (Calm.onCall hmem).bind fun c s₃ h₃ => sameCalls_insert ((h₃.calls _).mpr hmem) _

theorem sendSbd_calm (hencodes : throws ∨ Encodes env msg) : Calm throws (sendSbd env msg) s := by
  refine (framed_calm hencodes).bind fun packet s₁ _ => ?_
  split
  · exact sameCalls_log _
  · exact .pure _

/-- What is sent by RUDICS is to a modem with a call. -/
theorem send_calm (h : msg.rateD = rateRudics → modemKey msg.destD ∈ s.calls)
    (hencodes : throws ∨ Encodes env msg) : Calm throws (send env now msg) s := by
  refine Ensures.get_bind ?_
  split
  next hcall => exact sendOnCall_calm (hcall.elim h id) hencodes
  next =>
    split
    · exact sendSbd_calm hencodes
    · exact Calm.pure _

theorem perform_calm {actions : List IridiumAction}
    (h : ∀ msg, .send msg ∈ actions → msg.rateD = rateRudics → modemKey msg.destD ∈ s.calls)
    (hencodes : ∀ msg, .send msg ∈ actions → throws ∨ Encodes env msg) :
    Calm throws (perform env now actions) s := by
  induction actions generalizing s with
  | nil => exact .pure _
  | cons a actions ih =>
    have hrest := fun msg hmem => h msg (List.mem_cons_of_mem a hmem)
    have ih := fun s h => @ih s h fun msg hmem => hencodes msg (List.mem_cons_of_mem a hmem)
    cases a with
    | dial => exact ih s hrest
    | mailboxCheck => exact ih s hrest
    | send msg =>
      refine (send_calm (h msg List.mem_cons_self) (hencodes msg List.mem_cons_self)).bind
        fun _ s' hsame => ih s' ?_
      intro msg' hmem hrate
      exact (hsame.calls _).mpr (hrest msg' hmem hrate)

/-- The messages that a transmission sends by RUDICS are to modems with a call. -/
def Reachable (env : ShoreEnv) (signals : DriverSignals) (msg : DriverTransmission)
    (s : IridiumShore) : Prop :=
  ∀ m, .send m ∈ (IridiumShoreDriver.processTransmission env.maxFrameSize signals s.nextFrame msg).2 →
    m.rateD = rateRudics → modemKey m.destD ∈ s.calls

/-- Whatever the number of its first frame, what is sent for a transmission can be encoded. -/
def SendsEncode (env : ShoreEnv) (signals : DriverSignals) (msg : DriverTransmission) : Prop :=
  ∀ n m, .send m ∈ (IridiumShoreDriver.processTransmission env.maxFrameSize signals n msg).2 →
    Encodes env m

theorem processTransmission_calm {signals : DriverSignals} (h : Reachable env signals msg s)
    (hencodes : throws ∨ SendsEncode env signals msg) :
    Calm throws (processTransmission env now signals msg) s := by
  have hnumber : ∀ n, SameCalls s { s with nextFrame := n } := fun n => ⟨rfl, fun _ => Iff.rfl, rfl⟩
  refine Ensures.bind (.get (Ensures.set_bind ?_))
  refine Ensures.mono (perform_calm h fun m hm => hencodes.imp_right fun he => he _ m hm)
    (fun _ _ h => (hnumber _).trans h) fun _ _ h => ⟨h.1, (hnumber _).trans h.2⟩

theorem receiveAck_dest {modemId : ℤ} {msg ack : DriverTransmission}
    (h : receiveAck modemId msg = some ack) : ack.destD = msg.src := by
  unfold receiveAck at h
  split at h
  · rw [← Option.some.inj h]
    simp only [ModemTransmission.destD, Option.getD_some]
  · cases h

theorem receive_calm (h : ∀ ack, receiveAck env.modemId msg = some ack →
      (ack.rateD = rateRudics → modemKey ack.destD ∈ s.calls) ∧ (throws ∨ Encodes env ack)) :
    Calm throws (receive env now msg) s := by
  have hack : Calm throws (acknowledge env now msg) s := by
    unfold acknowledge
    split
    next ack heq => exact send_calm (h ack heq).1 (h ack heq).2
    next => exact .pure _
  exact hack.bind fun _ s' _ => sameCalls_log _

end Send

section Work

variable {s : IridiumShore} {env : ShoreEnv} {now : ℚ} {signals : DriverSignals} {id : ℕ}

def KeepsDest (signals : DriverSignals) : Prop :=
  (∀ m, (signals.modifyTransmission m).destD = m.destD) ∧ ∀ m, (signals.dataRequest m).destD = m.destD

theorem request_destD (h : KeepsDest signals) (maxFrameSize number : ℕ) (msg : DriverTransmission) :
    (signals.dataRequest (requestMessage maxFrameSize number signals msg)).destD = msg.destD := by
  have hlimit : ∀ m : DriverTransmission, (limitFrameSize maxFrameSize m).destD = m.destD := by
    intro m
    unfold limitFrameSize
    split <;> rfl
  have hnumber : ∀ m : DriverTransmission,
      (if m.hasFrameStart then m else m.setFrameStart number).destD = m.destD := by
    intro m
    split <;> rfl
  rw [h.2, requestMessage, hlimit, hnumber, h.1]

theorem modemKey_toInt (h : id < 2 ^ 32) : modemKey (toInt id) = id := by
  simp only [modemKey, toUnsigned, toInt, Int.bmod_def]
  split <;> omega

theorem sent_destD (h : KeepsDest signals) {maxFrameSize nextFrame : ℕ} {msg m : DriverTransmission}
    (hm : .send m ∈ (IridiumShoreDriver.processTransmission maxFrameSize signals nextFrame msg).2) :
    m.destD = msg.destD := by
  have hmem := (IridiumSide.shore.mem_processTransmission maxFrameSize nextFrame
    ⟨signals, msg, true⟩).mp hm
  rw [hmem.1]
  exact request_destD h _ _ msg

theorem destD_rudicsMacMsg (dest : ℤ) : (rudicsMacMsg env dest).destD = dest := rfl

/-- Data that is pushed on a call goes to that modem. -/
theorem reachable_of_keepsDest (h : KeepsDest signals) (hid : id ∈ s.calls) (hlt : id < 2 ^ 32) :
    Reachable env signals (rudicsMacMsg env (toInt id)) s := by
  intro m hm _
  rw [sent_destD h hm, destD_rudicsMacMsg, modemKey_toInt hlt]
  exact hid

theorem pushData_calm (h : KeepsDest signals)
    (hencodes : SendsEncode env signals (rudicsMacMsg env (toInt id))) (hid : id ∈ s.calls)
    (hlt : id < 2 ^ 32) (c : OnCall) : Calm False (pushData env now signals id c) s := by
  unfold pushData
  split
  · exact processTransmission_calm (reachable_of_keepsDest h hid hlt) (.inr hencodes)
  · exact .pure _

theorem sendBye_calm (hid : id ∈ s.calls) : Calm False (sendBye env now id) s := by
  refine (Calm.onCall hid).bind fun c s₁ h₁ => ?_
  split
  · refine Calm.bind (sameCalls_writeTo _ _) fun _ s₂ h₂ => ?_
    exact sameCalls_insert ((h₂.calls id).mpr ((h₁.calls id).mpr hid)) _
  · exact .pure _

theorem mem_erase {id' : ℕ} : id' ∈ s.calls.erase id ↔ id' ≠ id ∧ id' ∈ s.calls := by
  rw [Std.TreeMap.mem_erase, ne_eq, compare_eq_iff_eq]
  exact and_congr_left' (not_congr eq_comm)

theorem Pending.hangUp (h : Pending s.aborted s) (id : ℕ) :
    Pending (hangUp id s).aborted (hangUp id s) := by
  unfold IridiumShore.hangUp
  cases hclient : s.clients.left? id with
  | none =>
    refine ⟨fun id' hid' => h.connected id' (mem_erase.mp hid').2, fun id' connection hleft => ?_,
      fun id' hid' => h.keys id' (mem_erase.mp hid').2⟩
    refine (h.recorded id' connection hleft).imp_left fun hid' => mem_erase.mpr ⟨?_, hid'⟩
    rintro rfl
    exact Option.some_ne_none _ (hleft.symm.trans hclient)
  | some connection =>
    refine ⟨fun id' hid' => h.connected id' (mem_erase.mp hid').2, fun id' connection' hleft => ?_,
      fun id' hid' => h.keys id' (mem_erase.mp hid').2⟩
    by_cases hne : id' = id
    · rw [hne] at hleft
      exact .inr (List.mem_append_right _ (by simp [Option.some.inj (hleft.symm.trans hclient)]))
    · exact (h.recorded id' connection' hleft).imp (fun hid' => mem_erase.mpr ⟨hne, hid'⟩)
        (List.mem_append_left _)

/-- The computation returns, and leaves none but aborted connections without a record. -/
def Tidy (m : ShoreM Unit) (s : IridiumShore) : Prop :=
  Ensures m s (fun _ s' => Pending s'.aborted s') (fun _ _ => False)

theorem visit_tidy (hs : Pending s.aborted s) (h : KeepsDest signals)
    (hencodes : SendsEncode env signals (rudicsMacMsg env (toInt id))) :
    Tidy (visit env now signals id) s := by
  refine Ensures.get_bind ?_
  split
  · exact hs
  next c hc =>
    have hid : id ∈ s.calls := (mem_calls_iff id).mpr ⟨c, hc⟩
    have hcalm : Calm False (do pushData env now signals id c; sendBye env now id; onCall id) s :=
      (pushData_calm h hencodes hid (hs.keys id hid) c).bind fun _ s₁ h₁ =>
        (sendBye_calm ((h₁.calls id).mpr hid)).bind fun _ s₂ h₂ =>
          .onCall ((h₂.calls id).mpr ((h₁.calls id).mpr hid))
    rw [← bind_assoc] at hcalm ⊢
    rw [checkHangup, ← bind_assoc]
    refine Ensures.bind (Ensures.mono hcalm (fun c s' h' => ?_) fun _ _ he => he.1.2)
    have hs' : Pending s'.aborted s' := h'.aborted ▸ hs.of_same h'
    split
    · exact hs'.hangUp id
    · exact hs'

theorem visitAll_tidy {signals : ℕ → DriverSignals} (hs : Pending s.aborted s)
    (h : ∀ id, KeepsDest (signals id) ∧ SendsEncode env (signals id) (rudicsMacMsg env (toInt id)))
    (ids : List ℕ) : Tidy (visitAll env now signals ids) s := by
  induction ids generalizing s with
  | nil => exact hs
  | cons id ids ih => exact Ensures.bind (Ensures.mono (visit_tidy hs (h id).1 (h id).2)
      (fun _ _ hs' => ih hs') fun _ _ he => he)

theorem Pending.forget {connection : ℕ} {aborted : List ℕ} (h : Pending (connection :: aborted) s) :
    Pending aborted (forget connection s) := by
  unfold IridiumShore.forget
  cases hright : s.clients.right? connection with
  | none =>
    refine ⟨h.connected, fun id connection' hleft => ?_, h.keys⟩
    refine (h.recorded id connection' hleft).imp_right fun hmem => (List.mem_cons.mp hmem).resolve_left ?_
    rintro rfl
    exact Bimap.not_mem_of_right? hright id (Bimap.left?_eq_some_iff.mp hleft)
  | some owner =>
    refine ⟨fun id hid => ?_, fun id connection' hleft => ?_, fun id hid => h.keys id (mem_erase.mp hid).2⟩
    · obtain ⟨hne, hid⟩ := mem_erase.mp hid
      exact (Bimap.left?_eraseRight hright id).mpr ⟨hne, h.connected id hid⟩
    · obtain ⟨hmem, hne⟩ := List.mem_filter.mp (Bimap.left?_eq_some_iff.mp hleft)
      have howner : id ≠ owner :=
        ((Bimap.left?_eraseRight hright id).mp (Option.isSome_iff_exists.mpr ⟨_, hleft⟩)).1
      have hrecorded := h.recorded id connection' (Bimap.left?_eq_some_iff.mpr hmem)
      exact hrecorded.imp (fun hid => mem_erase.mpr ⟨howner, hid⟩)
        fun hin => (List.mem_cons.mp hin).resolve_left (by simpa using hne)

theorem Pending.pollAborted (h : Pending s.aborted s) : Booked (pollAborted s) := by
  have hfold : ∀ aborted s, Pending aborted s →
      Booked (aborted.foldl (fun s connection => IridiumShore.forget connection s) s) := by
    intro aborted
    induction aborted with
    | nil => exact fun s hs => hs
    | cons connection aborted ih => exact fun s hs => ih _ hs.forget
  exact hfold s.aborted _ ⟨h.connected, h.recorded, h.keys⟩

end Work

inductive ShoreCall where
  | connect (connection : ℕ)
  | line (now : ℚ) (data : Bytes) (connection : ℕ)
  | disconnect (connection : ℕ)
  | doWork (now : ℚ) (signals : ℕ → DriverSignals)
  | sbd (now : ℚ) (payload : Bytes)
  | initiate (now : ℚ) (signals : DriverSignals) (msg : DriverTransmission)

/-- A new connection only has its signals connected. -/
def ShoreCall.run (env : ShoreEnv) : ShoreCall → ShoreM Unit
  | .connect _ => pure ()
  | .line now data connection => rudicsLine env now data connection
  | .disconnect connection => rudicsDisconnect connection
  | .doWork now signals => IridiumShore.doWork env now signals
  | .sbd now payload => receiveSbdMo env now payload
  | .initiate now signals msg => handleInitiateTransmission env now signals msg

/-- When an event keeps the books: a connection that belongs to a modem carries no first message
of another, what is sent by RUDICS is to a modem with a call, and what is sent in between hang-ups
can be encoded. -/
def Regular (env : ShoreEnv) (s : IridiumShore) : ShoreCall → Prop
  | .connect _ => True
  | .line _ data connection => ∀ msg, decodePacket env data = .ok (.ok msg) →
      s.clients.left? (modemKey msg.src) = none → s.clients.right? connection = none
  | .disconnect _ => True
  | .doWork _ signals => ∀ id, KeepsDest (signals id) ∧
      SendsEncode env (signals id) (rudicsMacMsg env (toInt id))
  | .sbd _ payload => ∀ msg ack, decodePacket env payload = .ok (.ok msg) →
      receiveAck env.modemId msg = some ack → ack.rateD = rateRudics → modemKey ack.destD ∈ s.calls
  | .initiate _ signals msg => Reachable env signals msg s

def AcksEncode (env : ShoreEnv) : Prop :=
  ∀ bytes msg, parseIridiumModemMessage env.codec bytes = .ok msg →
    ∀ ack, receiveAck env.modemId msg = some ack → Encodes env ack

def HeaderDecodes (env : ShoreEnv) (data : Bytes) : Prop := ∀ e, decodePacket env data ≠ .ok (.error e)

def IsGreeting (data : Bytes) : Prop := (data = ascii "goby\r" ∨ data = []) ∨ data = ascii "bye\r"

instance (data : Bytes) : Decidable (IsGreeting data) := inferInstanceAs (Decidable (_ ∨ _))

namespace ShoreCall

def Encodable (env : ShoreEnv) : ShoreCall → Prop
  | .doWork _ signals => ∀ id, SendsEncode env (signals id) (rudicsMacMsg env (toInt id))
  | .initiate _ signals msg => SendsEncode env signals msg
  | .connect _ => True
  | .line _ _ _ => True
  | .disconnect _ => True
  | .sbd _ _ => True

def Contained (env : ShoreEnv) : ShoreCall → Prop
  | .line _ data _ => IsGreeting data ∨ HeaderDecodes env data
  | .sbd _ payload => HeaderDecodes env payload
  | .connect _ => True
  | .disconnect _ => True
  | .doWork _ _ => True
  | .initiate _ _ _ => True

end ShoreCall

/-- No record is missed, the tables agree afterwards, and nothing is thrown unless `throws` holds. -/
def KeepsBooks (throws : Prop) (m : ShoreM Unit) (s : IridiumShore) : Prop :=
  Ensures m s (fun _ s' => Booked s') (fun e s' => (e ≠ .nullOnCall ∧ throws) ∧ Booked s')

section Events

variable {throws : Prop} {s : IridiumShore} {env : ShoreEnv} {now : ℚ} {msg : DriverTransmission}
  {id connection : ℕ}

theorem Calm.keepsBooks {m : ShoreM Unit} (h : Calm throws m s) (hs : Booked s) : KeepsBooks throws m s :=
  Ensures.mono h (fun _ _ h => hs.of_same h) (fun _ _ h => ⟨h.1, hs.of_same h.2⟩)

theorem decodePacket_message {data : Bytes} (hacks : AcksEncode env)
    (h : decodePacket env data = .ok (.ok msg)) :
    ∀ ack, receiveAck env.modemId msg = some ack → Encodes env ack := by
  unfold decodePacket at h
  cases hbytes : parseRudicsPacket env.crc data with
  | error e =>
    rw [hbytes] at h
    cases h
  | ok bytes =>
    rw [hbytes] at h
    exact hacks bytes msg (Except.ok.inj h)

theorem modemKey_lt (id : ℤ) : modemKey id < 2 ^ 32 := by
  unfold modemKey toUnsigned
  omega

theorem Booked.mem_of_right? (hs : Booked s)
    (h : s.clients.right? connection = some id) : id ∈ s.calls := by
  rw [← hs.tracks, Bimap.left?_eq_some_iff.mpr (Bimap.right?_eq_some_iff.mp h)]
  rfl

theorem Pending.addClient (hs : Booked s) (now : ℚ) (hlt : id < 2 ^ 32)
    (h : s.clients.left? id = none → s.clients.right? connection = none) :
    Booked (addClient now id connection s) ∧ id ∈ (addClient now id connection s).calls := by
  unfold IridiumShore.addClient
  split
  next conn hconn =>
    refine ⟨hs, (Booked.tracks hs id).mp ?_⟩
    rw [hconn]
    rfl
  next hnone =>
    have hinsert : ∀ id', id' ∈ s.calls.insert id { lastTxTime := now } ↔ id' = id ∨ id' ∈ s.calls := by
      intro id'
      rw [Std.TreeMap.mem_insert, compare_eq_iff_eq]
      exact or_congr_left eq_comm
    have hclients : ∀ id', ((s.clients.insert id connection).left? id').isSome ↔
        id' = id ∨ id' ∈ s.calls := by
      intro id'
      rw [Bimap.left?_insert hnone (h hnone), Booked.tracks hs]
    refine ⟨⟨fun id' hid' => (hclients id').mpr ((hinsert id').mp hid'), fun id' connection' hleft => ?_,
      fun id' hid' => ?_⟩, (hinsert id).mpr (.inl rfl)⟩
    · exact .inl ((hinsert id').mpr ((hclients id').mp (Option.isSome_iff_exists.mpr ⟨_, hleft⟩)))
    · rcases (hinsert id').mp hid' with rfl | hid'
      · exact hlt
      · exact hs.keys id' hid'

theorem receiveMessage_keepsBooks (hs : Booked s) {connection : ℕ}
    (h : s.clients.left? (modemKey msg.src) = none → s.clients.right? connection = none)
    (hencodes : throws ∨ ∀ ack, receiveAck env.modemId msg = some ack → Encodes env ack) :
    KeepsBooks throws (receiveMessage env now connection msg) s := by
  obtain ⟨hbooked, hid⟩ := hs.addClient now (modemKey_lt msg.src) h
  refine Ensures.modify_bind ?_
  refine Calm.keepsBooks ?_ hbooked
  refine (Calm.onCall hid).bind fun c s₁ h₁ => ?_
  have hid₁ := (h₁.calls _).mpr hid
  refine Calm.bind (sameCalls_insert hid₁ _) fun _ s₂ h₂ => ?_
  refine receive_calm fun ack hack => ⟨fun _ => ?_, hencodes.imp_right fun he => he ack hack⟩
  rw [receiveAck_dest hack]
  exact (h₂.calls _).mpr hid₁

theorem receiveBye_keepsBooks (hs : Booked s) (connection : ℕ) :
    KeepsBooks throws (receiveBye connection) s := by
  refine Ensures.get_bind ?_
  split
  next id hright =>
    have hid := hs.mem_of_right? hright
    refine Calm.keepsBooks ?_ hs
    exact (Calm.onCall hid).bind fun c s₁ h₁ => sameCalls_insert ((h₁.calls id).mpr hid) _
  next => exact hs

theorem sameCalls_addPacketFailure (connection : ℕ) : SameCalls s (addPacketFailure connection s) := by
  unfold addPacketFailure
  dsimp only
  split <;> exact ⟨rfl, fun _ => Iff.rfl, rfl⟩

section

variable (hs : Booked s)
include hs

theorem rudicsLine_keepsBooks {data : Bytes} {connection : ℕ}
    (h : Regular env s (.line now data connection))
    (hthrows : throws ∨ AcksEncode env ∧ (IsGreeting data ∨ HeaderDecodes env data)) :
    KeepsBooks throws (rudicsLine env now data connection) s := by
  unfold rudicsLine
  split
  · exact hs
  next hgoby =>
    split
    · exact receiveBye_keepsBooks hs connection
    next hbye =>
      split
      · exact hs.of_same (sameCalls_addPacketFailure connection)
      next e he =>
        refine ⟨⟨ShoreFailure.noConfusion, hthrows.resolve_right fun hin => ?_⟩, hs⟩
        exact hin.2.elim (fun hg => hg.elim hgoby hbye) fun hheader => hheader e he
      next msg hmsg =>
        exact receiveMessage_keepsBooks hs (h msg hmsg)
          (hthrows.imp_right fun hin => decodePacket_message hin.1 hmsg)

theorem doWork_keepsBooks {signals : ℕ → DriverSignals}
    (h : Regular env s (.doWork now signals)) : KeepsBooks throws (doWork env now signals) s := by
  refine Ensures.get_bind (Ensures.bind (Ensures.mono
    (visitAll_tidy (hs.mono (List.nil_subset _)) h s.calls.keys) ?_ fun _ _ he => he.elim))
  exact fun _ s' hs' => hs'.pollAborted

theorem receiveSbdMo_keepsBooks {payload : Bytes} (h : Regular env s (.sbd now payload))
    (hthrows : throws ∨ AcksEncode env ∧ HeaderDecodes env payload) :
    KeepsBooks throws (receiveSbdMo env now payload) s := by
  unfold receiveSbdMo
  split
  · exact hs
  next e he =>
    exact ⟨⟨ShoreFailure.noConfusion, hthrows.resolve_right fun hin => hin.2 e he⟩, hs⟩
  next msg hmsg =>
    refine Calm.keepsBooks (receive_calm fun ack hack => ⟨h msg ack hmsg hack, ?_⟩) hs
    exact hthrows.imp_right fun hin => decodePacket_message hin.1 hmsg ack hack

theorem run_keepsBooks {c : ShoreCall} (h : Regular env s c)
    (hthrows : throws ∨ AcksEncode env ∧ c.Encodable env ∧ c.Contained env) :
    KeepsBooks throws (c.run env) s := by
  cases c with
  | connect connection => exact hs
  | line now data connection =>
    exact rudicsLine_keepsBooks hs h (hthrows.imp_right fun hin => ⟨hin.1, hin.2.2⟩)
  | disconnect connection => exact (hs.mono (List.nil_subset [connection])).forget
  | doWork now signals => exact doWork_keepsBooks hs h
  | sbd now payload =>
    exact receiveSbdMo_keepsBooks hs h (hthrows.imp_right fun hin => ⟨hin.1, hin.2.2⟩)
  | initiate now signals msg =>
    exact (processTransmission_calm h (hthrows.imp_right fun hin => hin.2.1)).keepsBooks hs

end

end Events

abbrev ShoreRuns (env : ShoreEnv) : IridiumShore → Prop :=
  Reached (fun c : ShoreCall => finalState (c.run env)) (Regular env) {}

theorem booked_start : Booked {} := by
  have hcalls : ∀ id, id ∉ ({} : IridiumShore).calls := fun id => Std.TreeMap.not_mem_emptyc
  refine ⟨fun id h => absurd h (hcalls id), fun id connection hleft => ?_, fun id h => absurd h (hcalls id)⟩
  rw [Bimap.left?_empty] at hleft
  cases hleft

theorem booked_of_runs {env : ShoreEnv} {s : IridiumShore} (h : ShoreRuns env s) : Booked s := by
  refine h.invariant booked_start fun s c hs hc => ?_
  refine Ensures.finalState (P := Booked) ?_
  exact (run_keepsBooks hs hc (.inl trivial)).mono (fun _ _ h => h) (fun _ _ h => h.2)

/-- In every run of regular events, a modem has a connection if and only if it has a record of a
call, and no record is missed by the next event. -/
theorem calls_booked {env : ShoreEnv} {s : IridiumShore} (h : ShoreRuns env s) :
    (∀ id, (s.clients.left? id).isSome ↔ id ∈ s.calls) ∧
      ∀ c, Regular env s c → ∀ s', c.run env s ≠ .error .nullOnCall s' := by
  refine ⟨Booked.tracks (booked_of_runs h), fun c hc s' heq => ?_⟩
  have hkeeps := run_keepsBooks (booked_of_runs h) hc (.inl trivial)
  unfold KeepsBooks Ensures at hkeeps
  rw [heq] at hkeeps
  exact hkeeps.1.1 rfl

def sampleShoreEnv : ShoreEnv where
  codec := byteHeaderCodec
  crc := crc32
  modemId := 1

def sampleLine (src : ℤ) : Bytes :=
  match serializeIridiumModemMessage byteHeaderCodec
      { src := src
        dest := some 1
        type := .data
        rate := some rateRudics
        frame := [[0x01]] } with
  | .ok bytes => serializeRudicsPacket crc32 bytes
  | .error _ => []

def afterSampleLine : IridiumShore :=
  finalState ((ShoreCall.line 0 (sampleLine 2) 7).run sampleShoreEnv) {}

def afterHangup : IridiumShore :=
  finalState ((ShoreCall.doWork 31 fun _ => {}).run sampleShoreEnv) afterSampleLine

/-- A call is recorded with its first message. It is hung up when it has been silent for long, and
a bye that comes too late finds no connection. -/
theorem calls_booked_hangup :
    2 ∈ afterSampleLine.calls ∧ 2 ∉ afterHangup.calls ∧ afterHangup.clients.left? 2 = none ∧
      (∀ id, (afterHangup.clients.left? id).isSome ↔ id ∈ afterHangup.calls) ∧
      ∀ s', (ShoreCall.line 31 (ascii "bye\r") 7).run sampleShoreEnv afterHangup ≠
        .error .nullOnCall s' := by
  have hbad : decodePacket sampleShoreEnv (ascii "bye\r") = .error ⟨"Packet too short for CRC32"⟩ := by
    decide +kernel
  have hencodes : ∀ id, SendsEncode sampleShoreEnv ({} : DriverSignals)
      (rudicsMacMsg sampleShoreEnv (toInt id)) := fun _ _ _ _ => ⟨_, rfl⟩
  have hline : ShoreRuns sampleShoreEnv afterSampleLine :=
    Reached.call (c := ShoreCall.line 0 (sampleLine 2) 7) Reached.start fun _ _ _ => rfl
  have hruns : ShoreRuns sampleShoreEnv afterHangup :=
    Reached.call (c := ShoreCall.doWork 31 fun _ => {}) hline
      fun id => ⟨⟨fun _ => rfl, fun _ => rfl⟩, hencodes id⟩
  refine ⟨by decide +kernel, by decide +kernel, by decide +kernel, (calls_booked hruns).1,
    (calls_booked hruns).2 _ fun msg hmsg => ?_⟩
  rw [hbad] at hmsg
  cases hmsg

def sampleInitiation : ShoreCall :=
  .initiate 0 (sampleIridiumCall [[0x01]]).signals (sampleIridiumCall [[0x01]]).msg

def afterOtherModem : IridiumShore :=
  finalState ((ShoreCall.line 1 (sampleLine 3) 7).run sampleShoreEnv) afterSampleLine

/-- What goes wrong. A transmission by RUDICS, or an acknowledgment for a short burst that came
with that rate, to a modem without a call finds no record. And a connection that belongs to one
modem is not entered for another, which then has a record only. -/
theorem books_not_kept :
    failureOf (sampleInitiation.run sampleShoreEnv) {} = some .nullOnCall ∧
    failureOf ((ShoreCall.sbd 0 (sampleLine 2)).run sampleShoreEnv) {} = some .nullOnCall ∧
    3 ∈ afterOtherModem.calls ∧ afterOtherModem.clients.left? 3 = none := by
  decide +kernel

end Goby.IridiumShore
