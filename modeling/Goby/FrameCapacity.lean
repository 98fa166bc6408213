import Goby.FramePacking
import Goby.NextSender
import Goby.QueueManagerRuns
import Goby.QueueProperties

/-! Whether a message fits into what is left of a frame is decided by the size it was stored
with, while the bytes used so far are counted from the sizes that the codec reports. If both
are the size of the encoded message, no frame grows beyond the limit of the request; the sums
stay below the limit, a 32-bit number, so they do not wrap around. Every message takes at
least one byte, so the packing loop ends after at most as many rounds as the limit has bytes. -/

namespace Goby

theorem sizeSub_le {a b : ℕ} (h : b ≤ a) : sizeSub a b ≤ a - b := by
  unfold sizeSub
  omega

/-- The number of bytes that a message takes in a frame, by the encoded message it was queued
with, if any. -/
def wireSize {Msg : Type} (size : Msg → ℕ) (msg : Msg) : Option Bytes → ℕ
  | none => size msg
  | some body => body.length

section Sizes

variable {Desc Msg : Type}

/-- The codec reports the length of what it encodes, which is never empty. -/
structure CodecSizes (env : Environment Desc Msg) (size : Msg → ℕ) : Prop where
  pos : ∀ msg, 1 ≤ size msg
  size_eq : ∀ settings msg n, env.size settings msg = .ok n → n = size msg
  encode_length : ∀ settings msg bytes, env.encode settings msg false = .ok bytes →
    bytes.length = size msg

/-- The header encoded anew is no longer than the encoded message it is put in front of. -/
def HeaderFits (env : Environment Desc Msg) (msg : Msg) (carried : Option Bytes) : Prop :=
  ∀ body, carried = some body → ∀ settings header, env.encode settings msg true = .ok header →
    header.length ≤ body.length

structure Describes (env : Environment Desc Msg) (size : Msg → ℕ) (m : QueuedMessage Msg) : Prop where
  sizeD : m.msgMeta.sizeD = wireSize size m.dcclMsg m.msgMeta.encodedMessage
  header : HeaderFits env m.dcclMsg m.msgMeta.encodedMessage

theorem Describes.of_eq {env : Environment Desc Msg} {size : Msg → ℕ} {m m' : QueuedMessage Msg}
    (h : Describes env size m) (hmsg : m'.dcclMsg = m.dcclMsg)
    (hsize : m'.msgMeta.nonRepeatedSize = m.msgMeta.nonRepeatedSize)
    (hbody : m'.msgMeta.encodedMessage = m.msgMeta.encodedMessage) : Describes env size m' := by
  refine ⟨?_, ?_⟩
  · rw [QueuedMessageMeta.sizeD, hsize, hmsg, hbody]
    exact h.sizeD
  · rw [hmsg, hbody]
    exact h.header

end Sizes

namespace Queue

variable {Desc Msg : Type} {env : Environment Desc Msg} {size : Msg → ℕ} {q q' : Queue Desc Msg}

/-- The queue knows the sizes of its messages, and of those it is given on demand. -/
structure SizesKnown (env : Environment Desc Msg) (size : Msg → ℕ) (q : Queue Desc Msg) : Prop where
  stored : ∀ n ∈ q.messages.nodes, Describes env size n.2
  demanded : ∀ settings msg msgMeta n modemId,
    q.metaFromMsg env.toLibrary settings msg = .ok msgMeta →
    Describes env size ⟨msg, env.outRoute n msgMeta msg modemId⟩

/-- A router that leaves the sizes alone, as it only chooses the next hop, is enough for the
messages made on demand. -/
theorem SizesKnown.of_router (hc : CodecSizes env size) (hroute : ∀ n given msg modemId,
      (env.outRoute n given msg modemId).nonRepeatedSize = given.nonRepeatedSize ∧
      (env.outRoute n given msg modemId).encodedMessage = given.encodedMessage)
    (hstatic : q.staticMeta.encodedMessage = none)
    (hstored : ∀ n ∈ q.messages.nodes, Describes env size n.2) : q.SizesKnown env size := by
  refine ⟨hstored, ?_⟩
  intro settings msg msgMeta n modemId hmeta
  obtain ⟨hsize, hbody⟩ := hroute n msgMeta msg modemId
  have hout := metaFromMsg_outcome env.toLibrary q settings msg
  rw [hmeta] at hout
  obtain ⟨total, htotal, hnonrep, hcarried⟩ := hout
  have hnone : (env.outRoute n msgMeta msg modemId).encodedMessage = none :=
    hbody.trans (hcarried.trans hstatic)
  refine ⟨?_, ?_⟩
  · simp only [QueuedMessageMeta.sizeD, hsize, hnonrep, hnone, wireSize, Option.getD_some]
    exact hc.size_eq _ _ _ htotal
  · intro body hsome
    rw [hnone] at hsome
    cases hsome

theorem SizesKnown.of_nodes (h : q.SizesKnown env size)
    (hroles : q'.roles = q.roles) (hstatic : q'.staticMeta = q.staticMeta)
    (hnodes : ∀ n ∈ q'.messages.nodes, n ∈ q.messages.nodes ∨ Describes env size n.2) :
    q'.SizesKnown env size := by
  refine ⟨fun n hn => (hnodes n hn).elim (h.stored n) id, ?_⟩
  intro settings msg msgMeta n modemId hmeta
  refine h.demanded settings msg msgMeta n modemId ?_
  rw [← hmeta]
  simp only [metaFromMsg, roleField, hroles, hstatic]

theorem store_roles (q : Queue Desc Msg) (m : QueuedMessage Msg) :
    (q.store m).1.roles = q.roles ∧ (q.store m).1.staticMeta = q.staticMeta := by
  unfold store
  dsimp only
  split
  · split <;> exact ⟨rfl, rfl⟩
  · exact ⟨rfl, rfl⟩

theorem SizesKnown.store (h : q.SizesKnown env size) {m : QueuedMessage Msg}
    (hm : Describes env size m) : (q.store m).1.SizesKnown env size := by
  refine h.of_nodes (store_roles q m).1 (store_roles q m).2 fun n hn => ?_
  rcases store_nodes q m n hn with hn | rfl
  · exact .inl hn
  · exact .inr hm

theorem SizesKnown.pushMessage (h : q.SizesKnown env size) {parent : Parent Msg}
    (hroute : parent.outRoute = env.outRoute) {settings : CodecSettings} {msg : Msg}
    {msgMeta : QueuedMessageMeta} (hmeta : q.metaFromMsg env.toLibrary settings msg = .ok msgMeta)
    (clock : ℕ → ℕ) (n : ℕ) : (q.pushMessage parent clock n msg msgMeta).queue.SizesKnown env size := by
  have hm : Describes env size ⟨msg, parent.outRoute n msgMeta msg parent.cfgModemId⟩ :=
    hroute ▸ h.demanded settings msg msgMeta n parent.cfgModemId hmeta
  unfold Queue.pushMessage
  dsimp only
  split_ifs
  all_goals first
    | exact h
    | exact h.store (hm.of_eq rfl rfl rfl)

theorem SizesKnown.giveData (h : q.SizesKnown env size) {frame now it : ℕ}
    {m : QueuedMessage Msg} (hg : q.giveData frame now = some (it, m, q')) : q'.SizesKnown env size := by
  obtain ⟨before, after, m₀, hs, -, -, hm, rfl⟩ := giveData_some hg
  have hm₀ : Describes env size m₀ := h.stored (it, m₀) (mem_searchOrder.mp (by rw [hs]; simp))
  refine h.of_nodes rfl rfl fun n hn => ?_
  obtain ⟨n₀, hn₀, rfl⟩ := List.mem_map.mp hn
  split
  · exact .inr (hm ▸ hm₀.of_eq rfl rfl rfl)
  · exact .inl hn₀

theorem SizesKnown.popMessage (h : q.SizesKnown env size) {popped : Option ℕ}
    (hp : q.popMessage = some (popped, q')) : q'.SizesKnown env size := by
  rcases popMessage_eq hp with rfl | ⟨it, rfl⟩
  · exact h
  · exact h.of_nodes rfl rfl fun n hn => .inl (List.mem_of_mem_filter hn)

end Queue

namespace QueueManager

variable {Desc Msg : Type} {env : Environment Desc Msg} {size : Msg → ℕ}
  {s s' : QueueManager Desc Msg} {max : ℕ} {p : Packing Msg} {k : ℕ} {packed : List (Packed Msg)}
  {S : CodecSettings → Prop} {original data : Bytes}

def SizesKnown (env : Environment Desc Msg) (size : Msg → ℕ) (s : QueueManager Desc Msg) : Prop :=
  ∀ (k : ℕ) (q : Queue Desc Msg), s.queues[k]? = some q → q.SizesKnown env size

theorem SizesKnown.each (h : SizesKnown env size s) : s.Each (Queue.SizesKnown env size) := h

theorem SizesKnown.demanded (hd : Demanded env k s s')
    (h : SizesKnown env size s) : SizesKnown env size s' := by
  rcases hd with hq | ⟨q, settings, msg, msgMeta, parent, n, hq, hmeta, hroute, hs⟩
  · exact h.each.of_queues hq
  · exact h.each.insert ((h k q hq).pushMessage hroute hmeta env.clock n) hs

theorem sizeRepeated_ensures (hc : CodecSizes env size) (ms : List (QueuedMessage Msg))
    (s : QueueManager Desc Msg) :
    Ensures (sizeRepeated env ms) s
      (fun n s' => s' = s ∧ n = (ms.map (fun m => size m.dcclMsg)).sum)
      (fun e _ => e.isReported = true) := by
  induction ms with
  | nil => exact .pure ⟨rfl, rfl⟩
  | cons m rest ih =>
    refine .bind (.get (.bind ((lift_ensures (mapError_dccl _) s).mono ?_ fun _ _ h => h)))
    rintro n _ ⟨rfl, hn⟩
    refine ih.andThen ?_
    rintro total _ ⟨rfl, rfl⟩
    have hsize : n = size m.dcclMsg := hc.size_eq _ _ _ hn
    exact .pure ⟨rfl, by simp [hsize]⟩

def packedSize (size : Msg → ℕ) (packed : List (Packed Msg)) : ℕ :=
  (packed.map (fun m => wireSize size m.message.dcclMsg m.carried)).sum

theorem packedSize_append_singleton (packed : List (Packed Msg)) (m : Packed Msg) :
    packedSize size (packed ++ [m]) =
      packedSize size packed + wireSize size m.message.dcclMsg m.carried := by
  simp [packedSize]

/-- Without encoded messages to pass on, the codec counts the bytes that are taken. -/
theorem packedSize_eq_sum (h : ∀ m ∈ packed, m.carried = none) :
    packedSize size packed =
      ((packed.map (fun m => m.message)).map (fun m => size m.dcclMsg)).sum := by
  rw [packedSize, List.map_map]
  refine congrArg List.sum (List.map_congr_left fun m hm => ?_)
  simp [h m hm, wireSize]

structure Ready (env : Environment Desc Msg) (size : Msg → ℕ) (s : QueueManager Desc Msg) : Prop where
  inv : Inv env s
  sizes : SizesKnown env size s

theorem Ready.quiet (h : Ready env size s) (hq : Quiet s s') : Ready env size s' := by
  have hreach : Reaches env IsPush s s' := hq.reaches
  exact ⟨hreach.inv h.inv, h.sizes.each.of_queues hq.queues⟩

theorem findNextSender_ready (hd : DemandsInPlace env) (request : ModemTransmission) (data : Bytes)
    (hs : Ready env size s) :
    Ensures (findNextSender env request data) s
      (fun next s' => Ready env size s' ∧ ∀ k, next = some k → s'.Offers request data k)
      (fun e _ => e.isReported = true) := by
  have hfind := findNextSender_ensures (J := SizesKnown env size) hd
    (fun _ _ hq h => h.each.of_queues hq.queues)
    (fun _ _ _ h' h => h.demanded h') request data hs.inv hs.sizes
  refine (hfind.and ((findNextSender_reaches request data).ensures s)).mono ?_ fun _ _ h => h.1
  rintro next s' ⟨⟨hsizes, hoffers⟩, hreach⟩
  exact ⟨⟨hreach.inv hs.inv, hsizes⟩, hoffers⟩

theorem takeUserFrame_ready {request : ModemTransmission} {data : Bytes} (hs : Ready env size s)
    (ho : s.Offers request data k) (frame : ℕ) :
    Ensures (takeUserFrame env k frame) s
      (fun r s' => Ready env size s' ∧ Describes env size r.2 ∧
        (request.maxFrameBytes.isSome = true →
          r.2.msgMeta.sizeD ≤ sizeSub request.maxFrameBytesD data.length))
      (fun e _ => e.isReported = true) := by
  obtain ⟨q, it, m, hq, hm, hfit⟩ := ho
  have hg : ∃ given, q.giveData frame (env.clock s.readings) =
      some (it, Queue.givenMessage m (env.clock s.readings), given) := by
    rw [Queue.giveData, hm]
    exact ⟨_, rfl⟩
  obtain ⟨given, hg⟩ := hg
  obtain ⟨s', hrun, hgives, -⟩ := takeUserFrame_run hs.inv hq hg
  have hsizes : (finalState (takeUserFrame env k frame) s).Each _ :=
    each_takeUserFrame (fun h hg => Queue.SizesKnown.giveData h hg)
      (fun h hp => Queue.SizesKnown.popMessage h hp) k frame s hs.sizes.each
  obtain ⟨before, after, horder, -⟩ := Queue.skipWaiting_some hm
  have hstored : Describes env size m :=
    (hs.sizes k q hq).stored (it, m) (Queue.mem_searchOrder.mp (by rw [horder]; simp))
  rw [finalState, hrun] at hsizes
  simp only [Ensures, hrun]
  exact ⟨⟨hgives.reaches.inv hs.inv, hsizes⟩, hstored.of_eq rfl rfl rfl, hfit.room⟩

/-- What is packed fits, and so do the headers of what is passed on. -/
structure Fits (env : Environment Desc Msg) (size : Msg → ℕ) (max : ℕ) (original : Bytes)
    (p : Packing Msg) : Prop where
  limit : p.msg.maxFrameBytes = some max
  total : original.length + packedSize size p.packed ≤ max
  headers : ∀ m ∈ p.packed, HeaderFits env m.message.dcclMsg m.carried

theorem length_resize (data : Bytes) (n : ℕ) : (resize data n).length = n := by
  simp only [resize, List.length_append, List.length_take, List.length_replicate]
  omega

theorem Fits.take {original : Bytes} (hp : Fits env size max original p)
    {taken : Packed Msg} (hheader : HeaderFits env taken.message.dcclMsg taken.carried)
    (hsize : wireSize size taken.message.dcclMsg taken.carried ≤
      max - (original.length + packedSize size p.packed))
    {msg : ModemTransmission} (hlimit : msg.maxFrameBytes = some max) (passthrough : Option Bytes) :
    Fits env size max original ⟨msg, p.packed ++ [taken], passthrough⟩ := by
  refine ⟨hlimit, ?_, ?_⟩
  · have hle := hp.total
    rw [packedSize_append_singleton]
    omega
  · exact List.forall_mem_append.mpr ⟨hp.headers, List.forall_mem_singleton.mpr hheader⟩

theorem Fits.room (hp : Fits env size max original p)
    (hused : data.length = original.length + packedSize size p.packed) {m : QueuedMessage Msg}
    (hm : Describes env size m) (hroom : p.msg.maxFrameBytes.isSome = true →
      m.msgMeta.sizeD ≤ sizeSub p.msg.maxFrameBytesD data.length) :
    wireSize size m.dcclMsg m.msgMeta.encodedMessage ≤
      max - (original.length + packedSize size p.packed) := by
  rw [← hm.sizeD, ← hused]
  refine Nat.le_trans (hroom (by simp [hp.limit])) ?_
  rw [ModemTransmission.maxFrameBytesD, hp.limit]
  exact sizeSub_le (by rw [hused]; exact hp.total)

/-- Each round takes a message of at least one byte, so the bytes left bound the rounds. -/
theorem packLoop_fits (hc : CodecSizes env size) (hd : DemandsInPlace env) (i : ℕ)
    (original : Bytes) (fuel k : ℕ)
    (hs : Ready env size s) (hp : Fits env size max original p) (hi : i < p.msg.frame.length)
    (hcarried : ∀ m ∈ p.packed, m.carried = none)
    (hused : (p.msg.frame.getD i []).length = original.length + packedSize size p.packed)
    (ho : s.Offers p.msg (p.msg.frame.getD i []) k)
    (hfuel : max < original.length + packedSize size p.packed + fuel) :
    Ensures (packLoop env i original fuel k p) s
      (fun p' s' => Ready env size s' ∧ Fits env size max original p')
      (fun e _ => e.isReported = true) := by
  induction fuel generalizing k p s with
  | zero =>
    have := hp.total
    omega
  | succ fuel ih =>
    refine (takeUserFrame_ready hs ho (p.msg.frameStart + i)).andThen ?_
    rintro ⟨it, m⟩ s₁ ⟨hs₁, hm, hroom⟩
    have hsize := hp.room hused hm hroom
    refine .bind ((address_ensures i m p.msg s₁).mono ?_ fun _ _ h => h.elim)
    rintro msg s₂ ⟨h₂, src, dest, haddressed⟩
    have hlimit : msg.maxFrameBytes = p.msg.maxFrameBytes := haddressed ▸ rfl
    have hframe : msg.frame = p.msg.frame := haddressed ▸ rfl
    have hs₂ := hs₁.quiet h₂
    refine (metaFromMsg_ensures m.dcclMsg s₂).andThen ?_
    rintro msgMeta _ rfl
    let taken : Packed Msg := ⟨(k, it), ⟨m.dcclMsg, msgMeta⟩, m.msgMeta.encodedMessage, m.msgMeta⟩
    have htotal : packedSize size (p.packed ++ [taken]) = packedSize size p.packed +
        wireSize size m.dcclMsg m.msgMeta.encodedMessage := packedSize_append_singleton p.packed taken
    have hfits : ∀ msg' : ModemTransmission, msg'.maxFrameBytes = some max →
        Fits env size max original ⟨msg', p.packed ++ [taken], m.msgMeta.encodedMessage⟩ :=
      fun msg' hlimit' => hp.take hm.header hsize hlimit' _
    dsimp only
    split
    · exact .pure ⟨hs₂, hfits msg (hlimit.trans hp.limit)⟩
    next hpass =>
      have hcarried' : ∀ m' ∈ p.packed ++ [taken], m'.carried = none :=
        List.forall_mem_append.mpr ⟨hcarried, List.forall_mem_singleton.mpr (by simpa using hpass)⟩
      refine (sizeRepeated_ensures hc _ _).andThen ?_
      rintro n _ ⟨rfl, hn⟩
      rw [Packing.dcclMsgs, ← packedSize_eq_sum hcarried'] at hn
      have hdata : (resize (msg.frame.getD i []) (n + original.length)).length =
          original.length + packedSize size (p.packed ++ [taken]) := by
        rw [length_resize, hn, Nat.add_comm]
      split
      · refine (findNextSender_ready hd _ _ hs₂).andThen ?_
        rintro next s₃ ⟨hs₃, hoffers⟩
        cases next with
        | none => exact .pure ⟨hs₃, hfits _ (hlimit.trans hp.limit)⟩
        | some k' =>
          have hi' : i < msg.frame.length := hframe ▸ hi
          have hget : (msg.frame.set i (resize (msg.frame.getD i []) (n + original.length))).getD i [] =
              resize (msg.frame.getD i []) (n + original.length) := by
            simp [List.getD, hi']
          have hpos : 1 ≤ wireSize size m.dcclMsg m.msgMeta.encodedMessage := by
            rw [show m.msgMeta.encodedMessage = none from hcarried' taken (by simp)]
            exact hc.pos _
          have hfuel' : max < original.length + packedSize size (p.packed ++ [taken]) + fuel := by omega
          refine ih k' hs₃ (hfits _ (hlimit.trans hp.limit)) (by simpa using hi') hcarried' ?_ ?_ hfuel'
          · exact (congrArg List.length hget).trans hdata
          · dsimp only
            rw [hget]
            exact hoffers k' rfl
      · exact .pure ⟨hs₂, hfits _ (hlimit.trans hp.limit)⟩

theorem EncodedAs.length_eq (hc : CodecSizes env size) {m : Packed Msg}
    {piece : Bytes} (h : EncodedAs env S m piece) (hm : HeaderFits env m.message.dcclMsg m.carried) :
    piece.length = wireSize size m.message.dcclMsg m.carried := by
  obtain ⟨settings, -, h⟩ := h
  cases hbody : m.carried with
  | none =>
    rw [hbody] at h
    exact hc.encode_length settings _ _ h
  | some body =>
    rw [hbody] at h
    obtain ⟨header, hheader, rfl⟩ := h
    have hle : header.length ≤ body.length := hm body hbody settings header hheader
    simp only [wireSize, List.length_append, List.length_drop]
    omega

theorem Carries.length_eq (hc : CodecSizes env size)
    (h : Carries env S original packed data)
    (hm : ∀ m ∈ packed, HeaderFits env m.message.dcclMsg m.carried) :
    data.length = original.length + packedSize size packed := by
  obtain ⟨pieces, rfl, hpieces⟩ := h
  rw [List.length_append, Nat.add_left_cancel_iff]
  induction hpieces with
  | nil => rfl
  | @cons m piece packed pieces hpiece _ ih =>
    have hrest := ih fun m' hm' => hm m' (List.mem_cons_of_mem _ hm')
    have hfirst := hpiece.length_eq hc (hm m List.mem_cons_self)
    simp [packedSize, hfirst] at hrest ⊢
    exact hrest

theorem encode_reports (msg : Msg) (headerOnly : Bool) (s : QueueManager Desc Msg) :
    Ensures (encode env msg headerOnly) s
      (fun bytes _ => ∃ settings, env.encode settings msg headerOnly = .ok bytes)
      (fun e _ => e.isReported = true) := by
  refine .bind (.get ((lift_ensures (mapError_dccl _) s).mono ?_ fun _ _ h => h))
  rintro bytes _ ⟨rfl, h⟩
  exact ⟨_, h⟩

theorem encodeRepeated_reports [DecidableEq Desc] (ms : List (QueuedMessage Msg))
    (s : QueueManager Desc Msg) :
    Ensures (encodeRepeated env ms) s (fun _ _ => True) (fun e _ => e.isReported = true) := by
  induction ms generalizing s with
  | nil => exact .pure trivial
  | cons m rest ih =>
    refine .bind (.modify (.bind ((encode_reports _ _ _).mono ?_ fun _ _ h => h)))
    intro piece s₁ _
    exact .bind ((ih s₁).mono (fun _ _ _ => .pure trivial) fun _ _ h => h)

/-- The header of a message that is passed on is never longer than the message. -/
theorem encodeFrame_reports [DecidableEq Desc] (original : Bytes) (hp : p.Loaded)
    (hm : ∀ m ∈ p.packed, HeaderFits env m.message.dcclMsg m.carried) (s : QueueManager Desc Msg) :
    Ensures (encodeFrame env original p) s (fun _ _ => True) (fun e _ => e.isReported = true) := by
  obtain ⟨front, last, hpacked, -, hpass⟩ := hp
  have hmsg : p.dcclMsgs.getLast? = some last.message := by simp [Packing.dcclMsgs, hpacked]
  unfold encodeFrame
  split
  next body msg hbody hlast =>
    obtain rfl : last.message = msg := by simpa [hmsg] using hlast
    refine (encodeRepeated_reports _ s).andThen ?_
    intro front' s₁ _
    refine (encode_reports _ _ s₁).andThen ?_
    rintro header s₂ ⟨settings, hheader⟩
    have hle : header.length ≤ body.length :=
      hm last (by simp [hpacked]) body (hpass ▸ hbody) settings header hheader
    rw [if_pos hle]
    exact .pure trivial
  · exact .bind ((encodeRepeated_reports _ s).mono (fun _ _ _ => .pure trivial) fun _ _ h => h)

section

variable (hc : CodecSizes env size) (hd : DemandsInPlace env)
include hc hd

theorem packFrame_fits [DecidableEq Desc] (fuel i : ℕ) (msg : ModemTransmission)
    (hs : Ready env size s) (hmax : msg.maxFrameBytes = some max)
    (hframes : ∀ j, (msg.frame.getD j []).length ≤ max) (hi : i ≤ msg.frame.length)
    (hfuel : max < fuel) :
    Ensures (packFrame env fuel i msg) s
      (fun r s' => Ready env size s' ∧ r.1.maxFrameBytes = some max ∧
        (r.1.frame.getD i []).length ≤ max)
      (fun e _ => e.isReported = true) := by
  have hmax' : (opened i msg).maxFrameBytes = some max := by
    obtain ⟨frame, hframe⟩ := opened_eq i msg
    rw [hframe]
    exact hmax
  have hi' : i < (opened i msg).frame.length := by
    have := opened_length hi
    omega
  have hlen : ((opened i msg).frame.getD i []).length ≤ max := by
    rw [opened_getD]
    exact hframes i
  refine (findNextSender_ready hd _ _ hs).andThen ?_
  rintro sender s₁ ⟨hs₁, hoffers⟩
  cases sender with
  | none => exact .bind (.get (.pure ⟨hs₁, hmax', hlen⟩))
  | some k =>
    have hloop := packLoop_fits hc hd i ((opened i msg).frame.getD i []) fuel k (p := { msg := opened i msg }) hs₁
      ⟨hmax', by simpa [packedSize] using hlen, by simp⟩ hi' (by simp) (by simp [packedSize])
      (hoffers k rfl) (by omega)
    refine .bind ((hloop.and (packLoop_ensures i _ fuel k (by simp) hs₁.inv)).mono ?_ fun _ _ h => h.1)
    rintro p s₂ ⟨⟨hs₂, hfits⟩, hsame, hloaded, -⟩
    have hencode : Ensures (encodeFrame env ((opened i msg).frame.getD i []) p) s₂
        (fun data s' => Quiet s₂ s' ∧ data.length ≤ max)
        (fun e s' => Quiet s₂ s' ∧ e.isReported = true) := by
      refine ((encodeFrame_ensures _ hloaded (refl_of KeepsCodec s₂)).and
        (encodeFrame_reports _ hloaded hfits.headers s₂)).mono ?_ ?_
      · rintro data s' ⟨⟨hq, hcarries⟩, -⟩
        exact ⟨hq, hcarries.length_eq hc hfits.headers ▸ hfits.total⟩
      · rintro e s' ⟨⟨hq, -⟩, he⟩
        exact ⟨hq, he⟩
    have hlen' : i < p.msg.frame.length := hsame.length ▸ hi'
    refine .bind ((tryDccl_ensures hencode).mono ?_ fun _ _ h => h.2)
    rintro r s₃ ⟨hq₃, hr⟩
    cases r with
    | ok data => exact .pure ⟨hs₂.quiet hq₃, hfits.limit, by simpa [List.getD, hlen'] using hr⟩
    | error what => exact .pure ⟨hs₂.quiet hq₃, hfits.limit, by simp [List.getD, hlen']⟩

theorem packFrames_fits [DecidableEq Desc] (fuel count i : ℕ) (msg : ModemTransmission)
    (hs : Ready env size s) (hmax : msg.maxFrameBytes = some max)
    (hframes : ∀ j, (msg.frame.getD j []).length ≤ max) (hi : i ≤ msg.frame.length)
    (hfuel : max < fuel) :
    Ensures (packFrames env fuel count i msg) s
      (fun r _ => ∀ j, (r.1.frame.getD j []).length ≤ max) (fun e _ => e.isReported = true) := by
  induction count generalizing i msg s with
  | zero => exact .pure hframes
  | succ count ih =>
    refine .bind (((packFrame_fits hc hd fuel i msg hs hmax hframes hi hfuel).and
      (packFrame_ensures fuel i msg hs.inv hi)).mono ?_ fun _ _ h => h.1)
    rintro ⟨msg₁, packed⟩ s₁ ⟨⟨hs₁, hmax₁, hlen₁⟩, -, hlength, hother, -⟩
    have hframes₁ : ∀ j, (msg₁.frame.getD j []).length ≤ max := by
      intro j
      by_cases hj : j = i
      · exact hj ▸ hlen₁
      · exact hother j hj ▸ hframes j
    dsimp only at hlength
    refine (ih (i + 1) msg₁ hs₁ hmax₁ hframes₁ (by omega)).andThen ?_
    intro r s₂ hr
    exact .pure hr

theorem handleModemDataRequest_fits [DecidableEq Desc] {fuel : ℕ} (msg : ModemTransmission)
    (hs : Ready env size s) (hmax : msg.maxFrameBytes = some max)
    (hframes : ∀ frame ∈ msg.frame, frame.length ≤ max) (hfuel : max < fuel) :
    Ensures (handleModemDataRequest env fuel msg) s
      (fun r _ => ∀ frame ∈ r.1.frame, frame.length ≤ max) (fun e _ => e.isReported = true) := by
  have hframes' : ∀ j, (msg.frame.getD j []).length ≤ max := by
    intro j
    rw [List.getD]
    cases hj : msg.frame[j]? with
    | none => exact Nat.zero_le _
    | some frame => exact hframes frame (List.mem_of_getElem? hj)
  have hkeeps : Guarantees (Preserves (Each (Queue.SizesKnown env size))) (clearPacket env msg) :=
    each_clearPacket (fun h => h.of_nodes rfl rfl fun n hn => .inl hn) msg
  refine .bind (((clearPacket_ensures hs.inv msg).and (hkeeps.ensures s)).mono ?_ fun _ _ h => h.1.elim)
  rintro - s₁ ⟨⟨h₁, -⟩, hsizes⟩
  have hs₁ : Ready env size s₁ := ⟨h₁.inv hs.inv, hsizes hs.sizes⟩
  refine (packFrames_fits hc hd fuel _ 0 msg hs₁ hmax hframes' (Nat.zero_le _) hfuel).andThen ?_
  intro r s₂ hr
  refine .bind (.get (.pure ?_))
  intro frame hframe
  obtain ⟨j, hj⟩ := List.getElem?_of_mem hframe
  simpa [List.getD, hj] using hr j

end

/-- In whatever state a run has led to, a request that returns leaves no frame longer than
its limit, and one that does not return was ended by an exception of the queue or the codec:
neither does the packing loop run on, nor is a header longer than the message it belongs to. -/
theorem frames_within_limit [DecidableEq Desc] (hc : CodecSizes env size) (hd : DemandsInPlace env)
    (modemId : ℤ) (codec : DcclCodec Desc) (calls : List (Call Msg))
    (hs : SizesKnown env size (stateAfter env modemId codec calls)) (msg : ModemTransmission)
    {max fuel : ℕ} (hmax : msg.maxFrameBytes = some max)
    (hframes : ∀ frame ∈ msg.frame, frame.length ≤ max) (hfuel : max < fuel) :
    (∀ r s', handleModemDataRequest env fuel msg (stateAfter env modemId codec calls) = .ok r s' →
      ∀ frame ∈ r.1.frame, frame.length ≤ max) ∧
    ∀ e s', handleModemDataRequest env fuel msg (stateAfter env modemId codec calls) = .error e s' →
      e.isReported = true := by
  have hfits := handleModemDataRequest_fits hc hd msg ⟨inv_stateAfter modemId codec calls, hs⟩ hmax
    hframes hfuel
  refine ⟨fun r s' hr => ?_, fun e s' he => ?_⟩
  · simpa only [Ensures, hr] using hfits
  · simpa only [Ensures, he] using hfits

/-! Node 1 holds a message to be passed on as it was received, and one of its own; a request
brings a byte in its only frame. -/

def relayCalls : List (Call SampleMsg) :=
  [.setCfg { modemId := some 1, messageEntry := [sampleEntry] },
    .pushMessage { src := 1, dest := 3, body := 9 } (some {
      nonRepeatedSize := some 6
      dest := some 3
      encodedMessage := some [1, 1, 3, 20, 21, 22] }),
    .pushMessage { src := 1, dest := 3, body := 7 } none]

def relayRequest : ModemTransmission :=
  { dest := some queryDestinationId, maxFrameBytes := some 11, frame := [[170]] }

def relayState : QueueManager SampleDesc SampleMsg :=
  stateAfter sampleEnvironment 0 sampleCodec relayCalls

theorem codecSizes_sample : CodecSizes sampleEnvironment (fun _ => 4) := by
  refine ⟨fun _ => by decide, ?_, ?_⟩
  · intro settings msg n h
    cases h
    rfl
  · intro settings msg bytes h
    cases h
    rfl

theorem describes_sample {m : QueuedMessage SampleMsg}
    (hsize : m.msgMeta.sizeD = wireSize (fun _ => 4) m.dcclMsg m.msgMeta.encodedMessage)
    (hbody : ∀ body ∈ m.msgMeta.encodedMessage, 3 ≤ body.length) :
    Describes sampleEnvironment (fun _ => 4) m := by
  refine ⟨hsize, ?_⟩
  intro body h settings header hheader
  cases hheader
  exact hbody body h

theorem sizesKnown_relayState : SizesKnown sampleEnvironment (fun _ => 4) relayState := by
  have hstatic : ∀ e ∈ relayState.queues.toList, e.2.staticMeta.encodedMessage = none := by
    decide +kernel
  have hsize : ∀ e ∈ relayState.queues.toList, ∀ n ∈ e.2.messages.nodes,
      n.2.msgMeta.sizeD = wireSize (fun _ => 4) n.2.dcclMsg n.2.msgMeta.encodedMessage := by
    decide +kernel
  have hbody : ∀ e ∈ relayState.queues.toList, ∀ n ∈ e.2.messages.nodes,
      ∀ body ∈ n.2.msgMeta.encodedMessage, 3 ≤ body.length := by
    decide +kernel
  refine each_of_toList fun e he => ?_
  exact .of_router codecSizes_sample (fun _ _ _ _ => ⟨rfl, rfl⟩) (hstatic e he)
    fun n hn => describes_sample (hsize e he n hn) (hbody e he n hn)

/-- The frame is filled to its last byte. -/
theorem frames_within_limit_relay :
    ∃ r s', handleModemDataRequest sampleEnvironment 12 relayRequest relayState = .ok r s' ∧
      r.1.frame = [[170, 1, 1, 3, 7, 1, 1, 3, 20, 21, 22]] ∧ ∀ frame ∈ r.1.frame, frame.length ≤ 11 := by
  have hfits := (frames_within_limit codecSizes_sample (fun _ _ _ => rfl) 0 sampleCodec relayCalls
    sizesKnown_relayState relayRequest rfl (by decide) (show 11 < 12 by decide)).1
  have hframe : resultOf (handleModemDataRequest sampleEnvironment 12 relayRequest) relayState
      (fun r _ => r.1.frame) = some [[170, 1, 1, 3, 7, 1, 1, 3, 20, 21, 22]] := by
    decide +kernel
  obtain ⟨r, s', hrun, hframe⟩ := resultOf_eq_some.mp hframe
  exact ⟨r, s', hrun, hframe, hfits r s' hrun⟩

end QueueManager
end Goby
