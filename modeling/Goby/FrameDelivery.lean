import Goby.QueueManagerRuns

/-! A frame does not say where one message ends and the next one starts: the receiver decodes
the message at the front, computes its size anew, drops that many bytes and goes on until
the bytes run out or fail to decode. Given a DCCL whose decoder undoes its encoder whatever
follows, this finds exactly the messages that were packed, in order, also in front of bytes
that a modem driver pads a frame with. A manager then signals those addressed to it. -/

namespace Goby

variable {Desc Msg : Type} {msg : Msg} {ms : List (QueuedMessage Msg)} {msgMeta : QueuedMessageMeta}
  {S T : CodecSettings} {sender receiver : Library Desc Msg} {frame : Bytes}
  {env : Environment Desc Msg} {pad : Bytes} {fuel : ℕ} {pieces : List Bytes} {frames : List Bytes}

/-- What is assumed of DCCL between a sender with settings `S` and a receiver with settings
`T`: every message encodes, to at least one byte; whatever follows, it decodes to itself; and
its size is the number of its bytes. -/
structure RoundTrip (sender receiver : Library Desc Msg) (S T : CodecSettings) : Prop where
  encodes : ∀ msg headerOnly, ∃ bytes, sender.encode S msg headerOnly = .ok bytes
  decodes : ∀ msg bytes rest, sender.encode S msg false = .ok bytes →
    receiver.decode T (bytes ++ rest) false = .ok msg
  size : ∀ msg bytes, sender.encode S msg false = .ok bytes →
    receiver.size T msg = .ok bytes.length ∧ 1 ≤ bytes.length

def Event.received : Event Msg → Option Msg
  | .signalReceive msg => some msg
  | _ => none

namespace QueueManager

section Decoding

/-- The bytes are found to be the message, whatever follows. -/
structure Decodes (lib : Library Desc Msg) (T : CodecSettings) (msg : Msg) (piece : Bytes) : Prop where
  decode : ∀ rest, lib.decode T (piece ++ rest) false = .ok msg
  size : lib.size T msg = .ok piece.length
  nonempty : 1 ≤ piece.length

/-- Nothing is decoded from these bytes: there are none, or they fail to decode. -/
def Undecodable (lib : Library Desc Msg) (T : CodecSettings) (pad : Bytes) : Prop :=
  pad = [] ∨ ∃ what, lib.decode T pad false = .error what

/-- The bytes of a frame are those of the messages, one after the other, and padding. -/
def Framed (lib : Library Desc Msg) (T : CodecSettings) (ms : List (QueuedMessage Msg))
    (frame : Bytes) : Prop :=
  ∃ pieces pad, frame = List.flatten pieces ++ pad ∧ Undecodable lib T pad ∧
    List.Forall₂ (fun m piece => Decodes lib T m.dcclMsg piece) ms pieces

variable {env : Environment Desc Msg} {s : QueueManager Desc Msg}

def HasMeta (env : Environment Desc Msg) (s : QueueManager Desc Msg) (msg : Msg)
    (msgMeta : QueuedMessageMeta) : Prop :=
  metaFromMsg env msg s = .ok msgMeta s

def ReadBack (env : Environment Desc Msg) (s : QueueManager Desc Msg) (m out : QueuedMessage Msg) :
    Prop :=
  out.dcclMsg = m.dcclMsg ∧ HasMeta env s m.dcclMsg out.msgMeta

theorem decodes_of_encode (h : RoundTrip sender receiver S T) {piece : Bytes}
    (hp : sender.encode S msg false = .ok piece) : Decodes receiver T msg piece :=
  ⟨fun rest => h.decodes msg piece rest hp, (h.size msg piece hp).1, (h.size msg piece hp).2⟩

variable [DecidableEq Desc]

section

variable (hr : s.encryptRules.isEmpty = true) {out : List (QueuedMessage Msg)}
include hr

theorem decodeOne_of_decode {bytes : Bytes}
    (hd : env.decode s.codec.codec.settings bytes false = .ok msg)
    (hm : HasMeta env s msg msgMeta) : decodeOne env bytes s = .ok ⟨msg, msgMeta⟩ s := by
  have hmeta : metaFromMsg env msg s = .ok msgMeta s := hm
  simp [decodeOne, hr, decode, hd, lift, Except.mapError, hmeta]

theorem decodeOne_of_error {bytes : Bytes} {what : String}
    (hd : env.decode s.codec.codec.settings bytes false = .error what) :
    decodeOne env bytes s = .error (.dccl what) s := by
  simp [decodeOne, hr, decode, hd, lift, Except.mapError]

/-- Bytes that fail to decode end the loop, with what was decoded before. -/
theorem decodeLoop_undecodable (hpad : Undecodable env.toLibrary s.codec.codec.settings pad)
    (hfuel : pad.length ≤ fuel)
    (hout : out ≠ [] ∨ pad = []) :
    decodeLoop env fuel pad out s = .ok out s := by
  cases pad with
  | nil => cases fuel <;> rfl
  | cons b pad =>
    obtain ⟨fuel, rfl⟩ : ∃ n, fuel = n + 1 := ⟨fuel - 1, by simp at hfuel; omega⟩
    obtain ⟨what, hwhat⟩ := hpad.resolve_left (by simp)
    have hne : out.isEmpty = false := by
      simpa using hout.resolve_right (by simp)
    simp [decodeLoop, tryDccl, decodeOne_of_error hr hwhat, hne]

theorem decodeLoop_cons {piece rest : Bytes}
    (hp : Decodes env.toLibrary s.codec.codec.settings msg piece)
    (hm : HasMeta env s msg msgMeta)
    (fuel : ℕ) (out : List (QueuedMessage Msg)) :
    decodeLoop env (fuel + 1) (piece ++ rest) out s =
      decodeLoop env fuel rest (out ++ [⟨msg, msgMeta⟩]) s := by
  obtain ⟨b, piece', rfl⟩ : ∃ b piece', piece = b :: piece' := by
    cases piece with
    | nil => exact absurd hp.nonempty (by simp)
    | cons b piece' => exact ⟨b, piece', rfl⟩
  have hone := decodeOne_of_decode hr (hp.decode rest) hm
  simp only [List.cons_append] at hone ⊢
  simp [decodeLoop, tryDccl, hone, hp.size]

theorem decodeLoop_ok (hp : List.Forall₂
      (fun m piece => Decodes env.toLibrary s.codec.codec.settings m.dcclMsg piece) ms pieces)
    (hm : ∀ m ∈ ms, ∃ msgMeta, HasMeta env s m.dcclMsg msgMeta)
    (hpad : Undecodable env.toLibrary s.codec.codec.settings pad)
    (hfuel : (pieces.flatten ++ pad).length ≤ fuel)
    (hout : out ++ ms ≠ [] ∨ pad = []) :
    ∃ new, decodeLoop env fuel (pieces.flatten ++ pad) out s = .ok (out ++ new) s ∧
      List.Forall₂ (ReadBack env s) ms new := by
  -- one round for each message; every piece uses up at least one unit of fuel
  induction hp generalizing fuel out with
  | nil =>
    refine ⟨[], ?_, .nil⟩
    simpa using decodeLoop_undecodable hr hpad (by simpa using hfuel) (by simpa using hout)
  | @cons m piece ms pieces hpiece hrest ih =>
    obtain ⟨msgMeta, hmeta⟩ := hm m List.mem_cons_self
    have hlen : (piece ++ (pieces.flatten ++ pad)).length ≤ fuel := by simpa using hfuel
    have hnonempty := hpiece.nonempty
    rw [List.length_append] at hlen
    obtain ⟨fuel, rfl⟩ : ∃ n, fuel = n + 1 := ⟨fuel - 1, by omega⟩
    obtain ⟨new, hnew, hback⟩ := ih (fun m' hm' => hm m' (List.mem_cons_of_mem _ hm'))
      (show (pieces.flatten ++ pad).length ≤ fuel by omega)
      (show out ++ [⟨m.dcclMsg, msgMeta⟩] ++ ms ≠ [] ∨ pad = [] from .inl (by simp))
    refine ⟨⟨m.dcclMsg, msgMeta⟩ :: new, ?_, .cons ⟨rfl, hmeta⟩ hback⟩
    rw [List.flatten_cons, List.append_assoc, decodeLoop_cons hr hpiece hmeta, hnew]
    simp

theorem decodeRepeated_ok (hf : Framed env.toLibrary s.codec.codec.settings ms frame)
    (hm : ∀ m ∈ ms, ∃ msgMeta, HasMeta env s m.dcclMsg msgMeta) (hne : ms ≠ [] ∨ frame = []) :
    ∃ out, decodeRepeated env frame s = .ok out s ∧ List.Forall₂ (ReadBack env s) ms out := by
  obtain ⟨pieces, pad, rfl, hpad, hp⟩ := hf
  have hstop : [] ++ ms ≠ [] ∨ pad = [] := hne.imp id fun h => (List.append_eq_nil_iff.mp h).2
  simpa [decodeRepeated] using decodeLoop_ok hr hp hm hpad (Nat.le_refl _) hstop

theorem decodeRepeated_error
    (hf : Framed env.toLibrary s.codec.codec.settings [] frame) (hne : frame ≠ []) :
    ∃ what, decodeRepeated env frame s = .error (.dccl what) s := by
  obtain ⟨pieces, pad, rfl, hpad, hp⟩ := hf
  obtain rfl : pieces = [] := by simpa using hp.length_eq.symm
  obtain ⟨what, hwhat⟩ := hpad.resolve_left hne
  obtain ⟨b, pad, rfl⟩ := List.exists_cons_of_ne_nil hne
  exact ⟨what, by simp [decodeRepeated, decodeLoop, tryDccl, decodeOne_of_error hr hwhat]⟩

theorem encodeRepeated_ok
    (henc : ∀ msg, ∃ bytes, env.encode s.codec.codec.settings msg false = .ok bytes)
    (ms : List (QueuedMessage Msg)) :
    ∃ pieces, encodeRepeated env ms s = .ok (List.flatten pieces) s ∧
      List.Forall₂ (fun m piece => env.encode s.codec.codec.settings m.dcclMsg false = .ok piece)
        ms pieces := by
  induction ms with
  | nil => exact ⟨[], rfl, .nil⟩
  | cons m ms ih =>
    obtain ⟨pieces, hms, hpieces⟩ := ih
    obtain ⟨piece, hpiece⟩ := henc m.dcclMsg
    refine ⟨piece :: pieces, ?_, .cons hpiece hpieces⟩
    have hrule : applyRule env m.msgMeta.destD s = .ok () s := by simp [applyRule, hr]
    simp [encodeRepeated, hrule, encode, hpiece, lift, Except.mapError, hms]

end

end Decoding

section Reception

def logged (s : QueueManager Desc Msg) (events : List (Event Msg)) : QueueManager Desc Msg :=
  { s with log := s.log ++ events }

@[simp] theorem logged_nil (s : QueueManager Desc Msg) : s.logged [] = s := by simp [logged]

@[simp] theorem logged_logged (s : QueueManager Desc Msg) (es es' : List (Event Msg)) :
    (s.logged es).logged es' = s.logged (es ++ es') := by simp [logged]

/-- Messages are taken if they are addressed to this modem, or to all and are not its own. -/
def takes (s : QueueManager Desc Msg) (msgMeta : QueuedMessageMeta) : Bool :=
  if msgMeta.destD = broadcastId then msgMeta.srcD ≠ s.modemId else msgMeta.destD = s.modemId

def takesMsg (env : Environment Desc Msg) (s : QueueManager Desc Msg) (msg : Msg) : Bool :=
  match metaFromMsg env msg s with
  | .ok msgMeta _ => s.takes msgMeta
  | .error _ _ => false

/-- A manager without rules and manipulators that decodes what it receives and has queues
for all types. -/
structure Receiver (env : Environment Desc Msg) (s : QueueManager Desc Msg) : Prop where
  rules : s.encryptRules.isEmpty = true
  manips : s.manips = []
  decoding : s.cfg.skipDecoding.getD false = false
  configured : ∀ msg, ∃ msgMeta, HasMeta env s msg msgMeta

variable {env : Environment Desc Msg} {s : QueueManager Desc Msg}

theorem metaFromMsg_logged (events : List (Event Msg)) {msg : Msg}
    (h : HasMeta env s msg msgMeta) : HasMeta env (s.logged events) msg msgMeta := by
  have hqueues : (s.logged events).queues = s.queues := rfl
  have hcodec : (s.logged events).codec = s.codec := rfl
  simp only [HasMeta, metaFromMsg, run_bind, run_get, hqueues, hcodec] at h ⊢
  cases hq : s.queues[env.id (env.descriptor msg)]? with
  | none => simp [hq] at h
  | some q =>
    cases hm : q.metaFromMsg env.toLibrary s.codec.codec.settings msg with
    | error e => simp [hq, hm, lift] at h
    | ok m => simpa [hq, hm, lift] using h

theorem takesMsg_of_hasMeta {msg : Msg}
    (h : HasMeta env s msg msgMeta) : takesMsg env s msg = s.takes msgMeta := by
  have hm : metaFromMsg env msg s = .ok msgMeta s := h
  simp [takesMsg, hm]

theorem Receiver.logged (h : Receiver env s) (events : List (Event Msg)) :
    Receiver env (s.logged events) :=
  ⟨h.rules, h.manips, h.decoding,
    fun msg => (h.configured msg).imp fun _ hm => metaFromMsg_logged events hm⟩

theorem Receiver.takesMsg_logged (h : Receiver env s) (events : List (Event Msg)) :
    takesMsg env (s.logged events) = takesMsg env s := by
  funext msg
  obtain ⟨msgMeta, hm⟩ := h.configured msg
  rw [takesMsg_of_hasMeta hm, takesMsg_of_hasMeta (metaFromMsg_logged events hm)]
  rfl

theorem deliver_eq (h : s.manips = []) (m : QueuedMessage Msg) :
    deliver env m s =
      .ok () (s.logged (if s.takes m.msgMeta then [.signalReceive m.dcclMsg] else [])) := by
  have hno : ∀ id manip, s.hasManip id manip = false := fun _ _ => by rw [hasManip, h]; rfl
  simp only [deliver, run_bind, run_get, hno, takes]
  by_cases hb : m.msgMeta.destD = broadcastId
  · by_cases hs : m.msgMeta.srcD = s.modemId <;> simp [hb, hs, emit, QueueManager.logged]
  · by_cases hd : m.msgMeta.destD = s.modemId
    · have hm : s.modemId ≠ broadcastId := hd ▸ hb
      simp [hd, hm, emit, QueueManager.logged]
    · simp [hb, hd]

theorem deliverAll_eq (h : s.manips = []) (ms : List (QueuedMessage Msg)) :
    deliverAll env ms s =
      .ok () (s.logged ((ms.filter (fun m => s.takes m.msgMeta)).map (.signalReceive ·.dcclMsg))) := by
  induction ms generalizing s with
  | nil => simp [deliverAll]
  | cons m ms ih =>
    simp only [deliverAll, run_bind, deliver_eq h m]
    rw [ih (show (s.logged _).manips = [] from h), logged_logged]
    have htakes : ∀ es, (s.logged es).takes = s.takes := fun _ => rfl
    cases ht : s.takes m.msgMeta <;> simp [htakes, ht]

theorem filter_readBack {ms out : List (QueuedMessage Msg)}
    (h : List.Forall₂ (ReadBack env s) ms out) :
    (out.filter (fun m => s.takes m.msgMeta)).map (fun m => m.dcclMsg) =
      (ms.map (fun m => m.dcclMsg)).filter (takesMsg env s) := by
  induction h with
  | nil => rfl
  | @cons m m' ms out hm _ ih =>
    obtain ⟨hmsg, hmeta⟩ := hm
    have ht := takesMsg_of_hasMeta hmeta
    cases htakes : s.takes m'.msgMeta <;> simp [htakes, ht, hmsg, ih]

variable [DecidableEq Desc]

theorem receiveFrame_framed (h : Receiver env s)
    (hf : Framed env.toLibrary s.codec.codec.settings ms frame) :
    ∃ r es, tryDccl (receiveFrame env frame) s = .ok r (s.logged es) ∧
      es.filterMap Event.received = (ms.map (fun m => m.dcclMsg)).filter (takesMsg env s) := by
  have hrun : receiveFrame env frame s = (do deliverAll env (← decodeRepeated env frame)) s := by
    simp [receiveFrame, h.decoding]
  by_cases hne : ms ≠ [] ∨ frame = []
  · obtain ⟨out, hout, hback⟩ := decodeRepeated_ok h.rules hf (fun m _ => h.configured m.dcclMsg) hne
    refine ⟨.ok (), (out.filter (fun m => s.takes m.msgMeta)).map (.signalReceive ·.dcclMsg), ?_, ?_⟩
    · simp [tryDccl, hrun, hout, deliverAll_eq h.manips]
    · rw [← filter_readBack hback, List.filterMap_map]
      exact congrFun (List.filterMap_eq_map (f := fun m : QueuedMessage Msg => m.dcclMsg)) _
  · obtain ⟨rfl, hframe⟩ : ms = [] ∧ frame ≠ [] := by simpa using hne
    obtain ⟨what, hwhat⟩ := decodeRepeated_error h.rules hf hframe
    exact ⟨.error what, [], by simp [tryDccl, hrun, hwhat], rfl⟩

omit [DecidableEq Desc] in
theorem routeFrame_logged (h : Receiver env s) (t : ModemTransmission) (frame : Bytes) :
    ∃ r es, tryDccl (routeFrame env t frame) s = .ok r (s.logged es) ∧
      es.filterMap Event.received = [] := by
  unfold routeFrame
  cases hroute : env.inRouteConnected s.readings with
  | false => exact ⟨.ok (), [], by simp [tryDccl, hroute], rfl⟩
  | true =>
    cases hd : env.decode s.codec.codec.settings frame true with
    | error what =>
      exact ⟨.error what, [], by simp [tryDccl, hroute, decode, hd, lift, Except.mapError], rfl⟩
    | ok header =>
      obtain ⟨msgMeta, hm⟩ := h.configured header
      have hmeta : metaFromMsg env header s = .ok msgMeta s := hm
      by_cases hus : t.destD = s.modemId ∨ t.destD ∈ s.routeAdditionalModemIds
      · refine ⟨.ok (), [.inRoute { msgMeta with
          encodedMessage := some frame, nonRepeatedSize := some frame.length } header s.modemId], ?_, rfl⟩
        simp [tryDccl, hroute, decode, hd, lift, Except.mapError, hmeta, hus, emit, QueueManager.logged]
      · exact ⟨.ok (), [], by simp [tryDccl, hroute, decode, hd, lift, Except.mapError, hmeta, hus], rfl⟩

/-- The messages in the frames are signalled in order, those that are taken and no others. -/
theorem receiveFrames_framed (h : Receiver env s) {T : CodecSettings}
    (hT : s.codec.codec.settings = T) (t : ModemTransmission)
    {packs : List (List (QueuedMessage Msg))}
    (hf : List.Forall₂ (Framed env.toLibrary T) packs frames) :
    ∃ es, receiveFrames env t frames s = .ok () (s.logged es) ∧
      es.filterMap Event.received =
        (packs.flatten.map (fun m => m.dcclMsg)).filter (takesMsg env s) := by
  induction hf generalizing s with
  | nil => exact ⟨[], by simp [receiveFrames], rfl⟩
  | @cons ms frame packs frames hframe hrest ih =>
    obtain ⟨r₁, es₁, h₁, hes₁⟩ := receiveFrame_framed h (hT ▸ hframe)
    obtain ⟨r₂, es₂, h₂, hes₂⟩ := routeFrame_logged (h.logged es₁) t frame
    rw [logged_logged] at h₂
    obtain ⟨es₃, h₃, hes₃⟩ := ih (h.logged (es₁ ++ es₂)) hT
    refine ⟨es₁ ++ es₂ ++ es₃, ?_, ?_⟩
    · simp [receiveFrames, h₁, h₂, h₃]
    · rw [List.filterMap_append, List.filterMap_append, hes₁, hes₂, hes₃, h.takesMsg_logged]
      simp

end Reception

/-- A received frame is a sent one, perhaps with padding behind it. -/
def Padded (lib : Library Desc Msg) (T : CodecSettings) (sent received : Bytes) : Prop :=
  ∃ pad, received = sent ++ pad ∧ Undecodable lib T pad

theorem framed_of_encode (h : RoundTrip sender receiver S T)
    (hp : List.Forall₂ (fun m piece => sender.encode S m.dcclMsg false = .ok piece) ms pieces)
    (hpad : Undecodable receiver T pad) :
    Framed receiver T ms (List.flatten pieces ++ pad) :=
  ⟨pieces, pad, rfl, hpad, hp.imp fun _ _ => decodes_of_encode h⟩

theorem Carries.framed {receiver : Library Desc Msg}
    (h : RoundTrip env.toLibrary receiver S T) {packed : List (Packed Msg)}
    {sent received : Bytes} (hc : Carries env (fun settings => settings = S) [] packed sent)
    (hnew : ∀ m ∈ packed, m.carried = none) (hpad : Padded receiver T sent received) :
    Framed receiver T (packed.map (fun m => m.message)) received := by
  obtain ⟨pieces, rfl, hpieces⟩ := hc
  obtain ⟨pad, rfl, hpad⟩ := hpad
  refine framed_of_encode h (List.forall₂_map_left_iff.mpr ?_) hpad
  refine ((List.forall₂_and_left _ _).mpr ⟨hnew, hpieces⟩).imp ?_
  rintro m piece ⟨hm, settings, rfl, hpiece⟩
  rw [hm] at hpiece
  exact hpiece

/-- The frames that a request fills, as they are received. -/
theorem handleModemDataRequest_framed [DecidableEq Desc]
    {receiver : Library Desc Msg} {T : CodecSettings} {s s' : QueueManager Desc Msg}
    (hs : Inv env s) (hr : s.encryptRules.isEmpty = true)
    (h : RoundTrip env.toLibrary receiver s.codec.codec.settings T)
    {request filled : ModemTransmission} {packs : List (List (Packed Msg))}
    (hempty : request.frame = [])
    (hrun : handleModemDataRequest env fuel request s = .ok (filled, packs) s')
    (hnew : ∀ packed ∈ packs, ∀ m ∈ packed, m.carried = none)
    (hframes : List.Forall₂ (Padded receiver T) filled.frame frames) :
    List.Forall₂ (Framed receiver T) (packs.map (List.map fun m => m.message)) frames := by
  have hpost := handleModemDataRequest_ensures fuel request hs
  simp only [Ensures, hrun, hempty] at hpost
  obtain ⟨-, hlen, hcarries, -, -⟩ := hpost
  have hforce : ∀ settings, InForce s settings → settings = s.codec.codec.settings :=
    fun _ hsettings => hsettings hr
  have henc : Encodes env (InForce s) := by
    intro settings hsettings
    rw [hforce settings hsettings]
    exact h.encodes
  rw [List.forall₂_map_left_iff]
  refine List.forall₂_iff_get.mpr ⟨?_, fun i hi hi' => ?_⟩
  · have := hframes.length_eq
    simp only [List.length_nil, Nat.zero_max] at hlen
    omega
  · have hi₁ : i < filled.frame.length := by
      rw [hframes.length_eq]
      exact hi'
    have hpad := hframes.get hi₁ hi'
    have hpacked : packs[i]? = some (packs.get ⟨i, hi⟩) := by simp [hi]
    have hc := ((hcarries i _ hpacked).carries henc).mono hforce
    have hget : filled.frame.getD i [] = filled.frame.get ⟨i, hi₁⟩ := by simp [List.getD, hi₁]
    rw [List.getD_nil, hget] at hc
    exact hc.framed h (hnew _ (List.get_mem _ _)) hpad

/-- What is encoded is decoded again, also with padding behind it, but padding alone is an error;
and of the messages packed into frames, a receiver signals those addressed to it, in order and
once each. -/
theorem packed_delivered [DecidableEq Desc] {envA envB : Environment Desc Msg}
    {a b : QueueManager Desc Msg} (hra : a.encryptRules.isEmpty = true)
    (hrb : b.encryptRules.isEmpty = true)
    (hdccl : RoundTrip envA.toLibrary envB.toLibrary a.codec.codec.settings b.codec.codec.settings) :
    (∀ msgs : List (QueuedMessage Msg), (∀ m ∈ msgs, ∃ msgMeta, HasMeta envB b m.dcclMsg msgMeta) →
      ∃ data, encodeRepeated envA msgs a = .ok data a ∧
        ∀ pad, Undecodable envB.toLibrary b.codec.codec.settings pad →
          (msgs ≠ [] ∨ pad = [] → ∃ out, decodeRepeated envB (data ++ pad) b = .ok out b ∧
            List.Forall₂ (ReadBack envB b) msgs out) ∧
          (msgs = [] ∧ pad ≠ [] → ∃ what, decodeRepeated envB (data ++ pad) b = .error (.dccl what) b)) ∧
    ∀ modemId codec calls fuel request filled packs a' transmission,
      a = stateAfter envA modemId codec calls → request.frame = [] →
      handleModemDataRequest envA fuel request a = .ok (filled, packs) a' →
      (∀ packed ∈ packs, ∀ m ∈ packed, m.carried = none) →
      Receiver envB b → transmission.type ≠ .ack →
      List.Forall₂ (Padded envB.toLibrary b.codec.codec.settings) filled.frame transmission.frame →
      ∃ es, handleModemReceive envB transmission b = .ok () (b.logged es) ∧
        es.filterMap Event.received =
          (packs.flatten.map (fun m => m.message.dcclMsg)).filter (takesMsg envB b) := by
  constructor
  · intro msgs hmeta
    obtain ⟨pieces, hencode, hpieces⟩ := encodeRepeated_ok hra (fun msg => hdccl.encodes msg false) msgs
    refine ⟨pieces.flatten, hencode, fun pad hpad => ⟨fun hne => ?_, ?_⟩⟩
    · refine decodeRepeated_ok hrb (framed_of_encode hdccl hpieces hpad) hmeta ?_
      rcases hne with hne | rfl
      · exact .inl hne
      · cases msgs with
        | nil =>
          cases hpieces
          exact .inr rfl
        | cons m msgs => exact .inl (by simp)
    · rintro ⟨rfl, hne⟩
      exact decodeRepeated_error hrb (framed_of_encode hdccl hpieces hpad) (by simp [hne])
  · rintro modemId codec calls fuel request filled packs a' transmission rfl hempty hrun hnew hb ht hframes
    have hframed := handleModemDataRequest_framed (inv_stateAfter modemId codec calls) hra hdccl hempty
      hrun hnew hframes
    obtain ⟨es, hreceive, hes⟩ := receiveFrames_framed hb rfl transmission hframed
    refine ⟨es, by rw [handleModemReceive, if_neg ht, hreceive], ?_⟩
    rw [hes, ← List.map_flatten, List.map_map]
    rfl

/-! An application whose messages are read back from their bytes whatever follows them. -/

structure Ping where
  src : UInt8
  dest : UInt8
  body : UInt8
  deriving DecidableEq

def pingLibrary : Library Unit Ping where
  descriptor _ := ()
  fullName _ := "Ping"
  id _ := 1
  findDescriptor name := if name = "Ping" then some () else none
  newMessage _ := ⟨0, 0, 0⟩
  isInitialized _ := true
  findFieldByName _ name := some ⟨name, false, false⟩
  getValue f m := some (.int32 (if f.name = "src" then m.src else m.dest).toNat)
  typeName _ := "i"
  timeFromString _ := 0
  networkAck _ := ⟨0, 0, 0⟩
  load _ _ := .ok ()
  size _ _ := .ok 4
  encode _ m headerOnly := .ok ([1, m.src, m.dest] ++ if headerOnly then [] else [m.body])
  decode _ bytes headerOnly := match bytes with
    | i :: src :: dest :: rest =>
        if i = 1 then match headerOnly, rest with
          | true, _ => .ok ⟨src, dest, 0⟩
          | false, body :: _ => .ok ⟨src, dest, body⟩
          | false, [] => .error "message too short"
        else .error "unknown message id"
    | _ => .error "message too short"

def pingEnvironment : Environment Unit Ping :=
  { pingLibrary with
    clock := fun n => n
    onDemand := fun _ _ msg => msg
    outRoute := fun _ given _ _ => given
    inRouteConnected := fun _ => true }

def pingEntry : QueuedMessageEntry := { sampleEntry with protobufName := "Ping" }

def pingSender (msg : Ping) (given : Option QueuedMessageMeta) : QueueManager Unit Ping :=
  stateAfter pingEnvironment 0 (DcclCodec.initial "")
    [.setCfg { modemId := some 1, messageEntry := [pingEntry] }, .pushMessage msg given]

def pingReceiver (cfg : QueueManagerConfig) : QueueManager Unit Ping :=
  stateAfter pingEnvironment 0 (DcclCodec.initial "") [.setCfg cfg]

theorem ping_roundTrip (S T : CodecSettings) :
    RoundTrip pingEnvironment.toLibrary pingEnvironment.toLibrary S T := by
  constructor
  · exact fun _ _ => ⟨_, rfl⟩
  · rintro msg bytes rest ⟨⟩
    rfl
  · rintro msg bytes ⟨⟩
    exact ⟨rfl, by simp⟩

def pingNode2 : QueueManager Unit Ping :=
  pingReceiver { modemId := some 2, messageEntry := [pingEntry] }

theorem pingNode2_receiver : Receiver pingEnvironment pingNode2 where
  rules := by decide +kernel
  manips := by decide +kernel
  decoding := by decide +kernel
  configured := by
    intro msg
    have hroles : pingNode2.queues[1]?.map (fun q =>
        (q.roleField .destinationId, q.roleField .sourceId, q.roleField .timestamp)) =
        some (some "dest", some "src", none) := by decide +kernel
    obtain ⟨q, hq, hr⟩ := Option.map_eq_some_iff.mp hroles
    simp only [Prod.mk.injEq] at hr
    obtain ⟨hdest, hsrc, htime⟩ := hr
    have hsplit : splitDots "dest" = ["dest"] ∧ splitDots "src" = ["src"] := by decide +kernel
    obtain ⟨msgMeta, hmeta⟩ : ∃ msgMeta,
        q.metaFromMsg pingLibrary pingNode2.codec.codec.settings msg = .ok msgMeta := by
      simp only [Queue.metaFromMsg, hdest, hsrc, htime, findQueueField, hsplit.1, hsplit.2]
      exact ⟨_, rfl⟩
    have hlib : pingEnvironment.toLibrary = pingLibrary := rfl
    have hid : pingLibrary.id (pingLibrary.descriptor msg) = 1 := rfl
    refine ⟨msgMeta, ?_⟩
    simp only [HasMeta, metaFromMsg, run_bind, run_get, hlib, hid, hq, hmeta, lift, run_pure]

/-- Two messages are read back in front of a byte of padding. The frame with the message to node 2
arrives with two bytes of padding, the empty frame after it with one. -/
theorem packed_delivered_ping :
    (∃ data out, encodeRepeated pingEnvironment [⟨⟨1, 2, 7⟩, {}⟩, ⟨⟨3, 0, 9⟩, {}⟩] (pingSender ⟨1, 2, 7⟩ none) =
        .ok data (pingSender ⟨1, 2, 7⟩ none) ∧
      decodeRepeated pingEnvironment (data ++ [0]) pingNode2 = .ok out pingNode2 ∧
      out.map (fun m => m.dcclMsg) = [⟨1, 2, 7⟩, ⟨3, 0, 9⟩]) ∧
    ∃ es, handleModemReceive pingEnvironment
        { type := .data, frame := [[1, 1, 2, 7, 0, 0], [0]] } pingNode2 = .ok () (pingNode2.logged es) ∧
      es.filterMap Event.received = [⟨1, 2, 7⟩] := by
  have hpad : ∀ n, Undecodable pingEnvironment.toLibrary pingNode2.codec.codec.settings (List.replicate n 0) := by
    rintro (_ | _ | _ | n)
    · exact .inl rfl
    all_goals exact .inr ⟨_, rfl⟩
  obtain ⟨hcode, hdeliver⟩ := packed_delivered
    (show (pingSender ⟨1, 2, 7⟩ none).encryptRules.isEmpty = true by decide +kernel)
    pingNode2_receiver.rules (ping_roundTrip _ _)
  constructor
  · obtain ⟨data, hdata, hback⟩ := hcode [⟨⟨1, 2, 7⟩, {}⟩, ⟨⟨3, 0, 9⟩, {}⟩]
      fun m _ => pingNode2_receiver.configured m.dcclMsg
    obtain ⟨out, hout, hread⟩ := (hback [0] (hpad 1)).1 (.inl (by simp))
    refine ⟨data, out, hdata, hout, ?_⟩
    rcases hread with _ | ⟨⟨h₁, -⟩, _ | ⟨⟨h₂, -⟩, _ | _⟩⟩
    simp [h₁, h₂]
  · have hsent : resultOf (handleModemDataRequest pingEnvironment 9 sampleRequest) (pingSender ⟨1, 2, 7⟩ none)
        (fun r _ => (r.1.frame, r.2.map (List.map fun m => (m.message.dcclMsg, m.carried)))) =
        some ([[1, 1, 2, 7], []], [[(⟨1, 2, 7⟩, none)], []]) := by
      decide +kernel
    obtain ⟨⟨filled, packs⟩, a', hrun, hsent⟩ := resultOf_eq_some.mp hsent
    obtain ⟨hframe, hpacks⟩ := Prod.mk.inj hsent
    have hflat : packs.flatten.map (fun m => (m.message.dcclMsg, m.carried)) = [(⟨1, 2, 7⟩, none)] := by
      rw [List.map_flatten, hpacks]
      rfl
    have hnew : ∀ packed ∈ packs, ∀ m ∈ packed, m.carried = none := by
      intro packed hp m hm
      have hmem := List.mem_map_of_mem (f := fun m => (m.message.dcclMsg, m.carried))
        (List.mem_flatten_of_mem hp hm)
      rw [hflat] at hmem
      exact (Prod.mk.inj (List.mem_singleton.mp hmem)).2
    have hmsgs : packs.flatten.map (fun m => m.message.dcclMsg) = [⟨1, 2, 7⟩] := by
      simpa [Function.comp_def] using congrArg (List.map Prod.fst) hflat
    have htakes : takesMsg pingEnvironment pingNode2 ⟨1, 2, 7⟩ = true := by decide +kernel
    have hes := hdeliver 0 _ _ 9 sampleRequest filled packs a'
      { type := .data, frame := [[1, 1, 2, 7, 0, 0], [0]] } rfl rfl hrun hnew pingNode2_receiver
      (by decide) (by
        rw [hframe]
        exact .cons ⟨[0, 0], rfl, hpad 2⟩ (.cons ⟨[0], rfl, hpad 1⟩ .nil))
    rw [hmsgs, List.filter_cons_of_pos htakes] at hes
    exact hes

def exchange (request : ModemTransmission) (a b : QueueManager Unit Ping) :
    Option (List Ping × List Ping) :=
  (resultOf (handleModemDataRequest pingEnvironment 9 request) a fun r _ =>
    resultOf (handleModemReceive pingEnvironment { r.1 with type := .data }) b fun _ b' =>
      (r.2.flatten.map (fun m => m.message.dcclMsg), b'.log.filterMap Event.received)).join

def throwsQueue {α : Type} : EStateM.Result Failure (QueueManager Unit Ping) α → Bool
  | .error (.queue _) _ => true
  | _ => false

theorem exists_of_throwsQueue {α : Type} {r : EStateM.Result Failure (QueueManager Unit Ping) α}
    (h : throwsQueue r = true) : ∃ what s, r = .error (.queue what) s := by
  unfold throwsQueue at h
  split at h
  · exact ⟨_, _, rfl⟩
  · cases h

/-- What is not delivered: padding without a message in front of it throws, as does a message
without a queue; a receiver may be told not to decode; a receiver with the broadcast address
ignores its own messages to that address; bytes already in a frame hide what is packed behind
them; and a message that was queued with its encoded form is sent in that form. -/
theorem delivery_exceptions :
    (∃ what, decodeRepeated pingEnvironment ([] ++ [0]) pingNode2 = .error (.dccl what) pingNode2) ∧
    (∃ what s, decodeRepeated pingEnvironment [1, 1, 2, 7] (pingReceiver { modemId := some 2 }) =
      .error (.queue what) s) ∧
    exchange sampleRequest (pingSender ⟨1, 2, 7⟩ none) (pingReceiver {
      modemId := some 2
      messageEntry := [pingEntry]
      skipDecoding := some true }) = some ([⟨1, 2, 7⟩], []) ∧
    exchange sampleRequest (pingSender ⟨0, 0, 7⟩ none) (pingReceiver {
      modemId := some 0
      messageEntry := [pingEntry] }) = some ([⟨0, 0, 7⟩], []) ∧
    exchange { sampleRequest with frame := [[0]] } (pingSender ⟨1, 2, 7⟩ none) pingNode2 =
      some ([⟨1, 2, 7⟩], []) ∧
    exchange sampleRequest (pingSender ⟨1, 2, 7⟩ (some {
      dest := some 2
      nonRepeatedSize := some 4
      encodedMessage := some [1, 1, 2, 9] })) pingNode2 = some ([⟨1, 2, 7⟩], [⟨1, 2, 9⟩]) := by
  refine ⟨?_, ?_, by decide +kernel, by decide +kernel, by decide +kernel, by decide +kernel⟩
  · exact decodeRepeated_error pingNode2_receiver.rules ⟨[], [0], rfl, .inr ⟨_, rfl⟩, .nil⟩ (by simp)
  · exact exists_of_throwsQueue (by decide +kernel)

end QueueManager
end Goby
