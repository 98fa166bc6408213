import Goby.CodecStability
import Goby.DataRequestRefinement

/-! The loop that packs a frame records each message it takes, in order, and the finished
frame holds their encodings one after the other behind the bytes it had before. A request
fills its frames one by one in this way. -/

namespace Goby.QueueManager

variable {Desc Msg : Type} {env : Environment Desc Msg} {P : Event Msg → Prop}
  {packed : List (Packed Msg)} {s₀ s : QueueManager Desc Msg}
  {S S' : CodecSettings → Prop} {original data : Bytes} {gs : List (Given Msg)} {i : ℕ}

/-- The bytes are the message encoded under settings in `S`, or its header followed by the
body that came with it. -/
def EncodedAs (env : Environment Desc Msg) (S : CodecSettings → Prop) (m : Packed Msg)
    (piece : Bytes) : Prop :=
  ∃ settings, S settings ∧ match m.carried with
    | none => env.encode settings m.message.dcclMsg false = .ok piece
    | some body => ∃ header, env.encode settings m.message.dcclMsg true = .ok header ∧
        piece = header ++ body.drop header.length

/-- The frame holds, after its original bytes, the packed messages one after the other. -/
def Carries (env : Environment Desc Msg) (S : CodecSettings → Prop) (original : Bytes)
    (packed : List (Packed Msg)) (data : Bytes) : Prop :=
  ∃ pieces, data = original ++ List.flatten pieces ∧ List.Forall₂ (EncodedAs env S) packed pieces

def Encodes (env : Environment Desc Msg) (S : CodecSettings → Prop) : Prop :=
  ∀ settings, S settings → ∀ msg headerOnly, ∃ bytes, env.encode settings msg headerOnly = .ok bytes

theorem Carries.mono (h : ∀ settings, S settings → S' settings)
    (hc : Carries env S original packed data) :
    Carries env S' original packed data := by
  obtain ⟨pieces, hdata, hpieces⟩ := hc
  refine ⟨pieces, hdata, hpieces.imp ?_⟩
  rintro m piece ⟨settings, hs, hm⟩
  exact ⟨settings, h settings hs, hm⟩

theorem Encodes.mono (h : ∀ settings, S' settings → S settings)
    (he : Encodes env S) : Encodes env S' := fun settings hs => he settings (h settings hs)

/-- The frame holds the packed messages, or encoding failed, which leaves it empty. -/
def CarriesOrEmpty (env : Environment Desc Msg) (S : CodecSettings → Prop) (original : Bytes)
    (packed : List (Packed Msg)) (data : Bytes) : Prop :=
  Carries env S original packed data ∨ data = [] ∧ ¬ Encodes env S

theorem CarriesOrEmpty.mono (h : ∀ settings, S settings → S' settings)
    (hc : CarriesOrEmpty env S original packed data) :
    CarriesOrEmpty env S' original packed data :=
  hc.imp (·.mono h) fun hempty => ⟨hempty.1, fun henc => hempty.2 (henc.mono h)⟩

theorem CarriesOrEmpty.carries {S : CodecSettings → Prop}
    (hc : CarriesOrEmpty env S original packed data)
    (henc : Encodes env S) : Carries env S original packed data :=
  hc.resolve_right fun hempty => hempty.2 henc

def NotDccl (env : Environment Desc Msg) (S : CodecSettings → Prop) (e : Failure) : Prop :=
  Encodes env S → ∀ what, e ≠ .dccl what

theorem encode_ensures (h₀ : KeepsCodec s₀ s) (msg : Msg) (headerOnly : Bool) :
    Ensures (encode env msg headerOnly) s
      (fun bytes s' => s' = s ∧ ∃ settings, InForce s₀ settings ∧
        env.encode settings msg headerOnly = .ok bytes)
      (fun e s' => s' = s ∧ NotDccl env (InForce s₀) e) := by
  have hforce := h₀.inForce (inForce_self s)
  cases h : env.encode s.codec.codec.settings msg headerOnly with
  | ok bytes => exact .of_run (by simp [encode, h, lift, Except.mapError]) ⟨rfl, _, hforce, h⟩
  | error e =>
    simp only [Ensures, encode, h, lift, Except.mapError, run_bind, run_get, run_throw, true_and]
    intro henc
    obtain ⟨bytes, hb⟩ := henc s.codec.codec.settings hforce msg headerOnly
    simp [h] at hb

theorem encodeRepeated_ensures [DecidableEq Desc] {ms : List (Packed Msg)}
    (hms : ∀ m ∈ ms, m.carried = none) (h₀ : KeepsCodec s₀ s) :
    Ensures (encodeRepeated env (ms.map (fun m => m.message))) s
      (fun data s' => (Quiet s s' ∧ KeepsCodec s₀ s') ∧ Carries env (InForce s₀) [] ms data)
      (fun e s' => Quiet s s' ∧ NotDccl env (InForce s₀) e) := by
  induction ms generalizing s with
  | nil => exact .pure ⟨⟨refl_of Quiet s, h₀⟩, [], rfl, .nil⟩
  | cons m rest ih =>
    have h₁ : Quiet s (finalState (applyRule env m.message.msgMeta.destD) s) := quiet_applyRule _ s
    have hk₁ : KeepsCodec s₀ (finalState (applyRule env m.message.msgMeta.destD) s) :=
      trans_of KeepsCodec h₀ (keepsCodec_applyRule _ s)
    refine .bind (.modify (.bind ((encode_ensures hk₁ m.message.dcclMsg false).mono ?_ ?_)))
    · rintro piece _ ⟨rfl, settings, hforce, hpiece⟩
      refine .bind ((ih (fun m' hm' => hms m' (List.mem_cons_of_mem _ hm')) hk₁).mono ?_ ?_)
      · rintro data s₂ ⟨⟨h₂, hk₂⟩, pieces, rfl, hpieces⟩
        have hfirst : EncodedAs env (InForce s₀) m piece := by
          refine ⟨settings, hforce, ?_⟩
          rw [hms m List.mem_cons_self]
          exact hpiece
        exact .pure ⟨⟨trans_of Quiet h₁ h₂, hk₂⟩, piece :: pieces, by simp, .cons hfirst hpieces⟩
      · rintro e s₂ ⟨h₂, he⟩
        exact ⟨trans_of Quiet h₁ h₂, he⟩
    · rintro e _ ⟨rfl, he⟩
      exact ⟨h₁, he⟩

/-- Only the last message of a frame can be passed on untouched. -/
def Packing.Loaded (p : Packing Msg) : Prop :=
  ∃ front last, p.packed = front ++ [last] ∧ (∀ m ∈ front, m.carried = none) ∧
    p.passthrough = last.carried

theorem encodeFrame_ensures [DecidableEq Desc] (original : Bytes) {p : Packing Msg} (hp : p.Loaded)
    (h₀ : KeepsCodec s₀ s) :
    Ensures (encodeFrame env original p) s
      (fun data s' => Quiet s s' ∧ Carries env (InForce s₀) original p.packed data)
      (fun e s' => Quiet s s' ∧ NotDccl env (InForce s₀) e) := by
  obtain ⟨front, last, hpacked, hfront, hpass⟩ := hp
  have hmsgs : p.dcclMsgs.dropLast = front.map (fun m => m.message) := by
    simp [Packing.dcclMsgs, hpacked]
  have hmsg : p.dcclMsgs.getLast? = some last.message := by simp [Packing.dcclMsgs, hpacked]
  unfold encodeFrame
  cases hcarried : last.carried with
  | none =>
    have hall : ∀ m ∈ p.packed, m.carried = none := by
      rw [hpacked]
      exact List.forall_mem_append.mpr ⟨hfront, List.forall_mem_singleton.mpr hcarried⟩
    rw [hpass, hcarried]
    refine (encodeRepeated_ensures hall h₀).andThen ?_
    rintro data s₁ ⟨⟨h₁, -⟩, pieces, rfl, hpieces⟩
    exact .pure ⟨h₁, pieces, by simp, hpieces⟩
  | some body =>
    rw [hpass, hcarried, hmsg, hmsgs]
    refine (encodeRepeated_ensures hfront h₀).andThen ?_
    rintro data s₁ ⟨⟨h₁, hk₁⟩, pieces, rfl, hpieces⟩
    refine .bind ((encode_ensures hk₁ last.message.dcclMsg true).mono ?_ ?_)
    · rintro header _ ⟨rfl, settings, hforce, hheader⟩
      split
      · refine .pure ⟨h₁, pieces ++ [header ++ body.drop header.length], by simp, ?_⟩
        rw [hpacked]
        refine List.rel_append hpieces (.cons ⟨settings, hforce, ?_⟩ .nil)
        rw [hcarried]
        exact ⟨header, hheader, rfl⟩
      · exact .throw ⟨h₁, fun _ => by simp⟩
    · rintro e _ ⟨rfl, he⟩
      exact ⟨h₁, he⟩

/-- Of a block whose failures to encode are caught, a caught failure is one. -/
theorem tryDccl_ensures {α : Type} {m : Code Desc Msg α}
    {R : QueueManager Desc Msg → Prop} {Q : α → Prop} {E : Failure → Prop}
    (h : Ensures m s (fun a s' => R s' ∧ Q a) (fun e s' => R s' ∧ E e)) :
    Ensures (tryDccl m) s
      (fun r s' => R s' ∧ match r with
        | .ok a => Q a
        | .error what => E (.dccl what))
      (fun e s' => R s' ∧ E e) := by
  unfold Ensures tryDccl at *
  cases hm : m s with
  | ok a s' => simpa [hm] using h
  | error e s' => cases e <;> simpa [hm] using h

/-- The transmissions differ in the bytes of frame `i` alone, and perhaps in addresses. -/
structure SameFrames (i : ℕ) (msg msg' : ModemTransmission) : Prop where
  start : msg'.frameStart = msg.frameStart
  length : msg'.frame.length = msg.frame.length
  other : ∀ j, j ≠ i → msg'.frame.getD j [] = msg.frame.getD j []
  acked : msg'.ackedFrame = msg.ackedFrame

theorem SameFrames.trans {a b c : ModemTransmission} (h : SameFrames i a b)
    (h' : SameFrames i b c) : SameFrames i a c :=
  ⟨h'.start.trans h.start, h'.length.trans h.length,
    fun j hj => (h'.other j hj).trans (h.other j hj), h'.acked.trans h.acked⟩

theorem SameFrames.set (msg : ModemTransmission) (data : Bytes) :
    SameFrames i msg { msg with frame := msg.frame.set i data } := by
  refine ⟨rfl, by simp, fun j hj => ?_, rfl⟩
  simp [List.getD, Ne.symm hj]

theorem address_ensures (i : ℕ) (m : QueuedMessage Msg) (msg : ModemTransmission)
    (s : QueueManager Desc Msg) :
    Ensures (address i m msg) s
      (fun msg' s' => Quiet s s' ∧ ∃ src dest, msg' = { msg with src := src, dest := dest })
      (fun _ _ => False) := by
  unfold address
  split
  · refine .bind (.get (.bind (.modify (.pure ⟨?_, ?_⟩))))
    · split
      · exact ⟨rfl, rfl, rfl, rfl⟩
      · exact refl_of Quiet s
    · split <;> split <;> exact ⟨_, _, rfl⟩
  · exact .pure ⟨refl_of Quiet s, _, _, rfl⟩

theorem Gives.quiet {s s₁ s₂ : QueueManager Desc Msg}
    (h : Gives env P gs s s₁) (h' : Quiet s₁ s₂) : Gives env P gs s s₂ := by
  have h₂ : Gives env P [] s₁ s₂ :=
    fun _ => ⟨[], .single (.signals (by simp) h'.queues h'.waiting), by simp [h'.log], by simp, rfl⟩
  simpa using h.trans h₂

theorem Gives.push {frame : ℕ} {s s₁ s₂ : QueueManager Desc Msg}
    (h : Gives env (IsPack frame) gs s s₁) (h' : Reaches env IsPush s₁ s₂) :
    Gives env (IsPack frame) gs s s₂ := by
  have h₂ : Gives env (IsPack frame) [] s₁ s₂ :=
    (h'.gives fun _ => IsPush.givenBy).mono fun _ => IsPush.isPack
  simpa using h.trans h₂

def Packed.given (m : Packed Msg) (frame : ℕ) : Given Msg := ⟨m.origin, frame, m.message.dcclMsg⟩

/-- The loop records every message it gives to the frame, in order. -/
theorem packLoop_ensures (i : ℕ) (original : Bytes) (fuel k : ℕ) {p : Packing Msg}
    (hp : ∀ m ∈ p.packed, m.carried = none) (hs : Inv env s) :
    Ensures (packLoop env i original fuel k p) s
      (fun p' s' => SameFrames i p.msg p'.msg ∧ p'.Loaded ∧ ∃ new, p'.packed = p.packed ++ new ∧
        Gives env (IsPack (p.msg.frameStart + i)) (new.map (·.given (p.msg.frameStart + i))) s s')
      (fun _ s' => Reaches env (IsPack (p.msg.frameStart + i)) s s') := by
  induction fuel generalizing k p s with
  | zero => exact .throw (refl_of (Reaches env _) s)
  | succ fuel ih =>
    refine .bind ((takeUserFrame_ensures hs k (p.msg.frameStart + i)).mono ?_ ?_)
    swap
    · rintro e _ rfl
      exact refl_of (Reaches env _) _
    rintro ⟨it, m⟩ s₁ ⟨h₁, -⟩
    refine .bind ((address_ensures i m p.msg s₁).mono ?_ fun _ _ h => h.elim)
    rintro msg s₂ ⟨h₂, src, dest, haddressed⟩
    have hmsg : SameFrames i p.msg msg := haddressed ▸ ⟨rfl, rfl, fun _ _ => rfl, rfl⟩
    refine .bind (((reads_metaFromMsg m.dcclMsg).ensures s₂).mono ?_
      fun _ _ h => ((h₁.quiet h₂).quiet h).reaches)
    intro msgMeta s₃ h₃
    have hg₃ := (h₁.quiet h₂).quiet h₃
    let taken : Packed Msg := ⟨(k, it), ⟨m.dcclMsg, msgMeta⟩, m.msgMeta.encodedMessage, m.msgMeta⟩
    have hloaded : ∀ msg' : ModemTransmission,
        Packing.Loaded ⟨msg', p.packed ++ [taken], m.msgMeta.encodedMessage⟩ :=
      fun _ => ⟨p.packed, taken, rfl, hp, rfl⟩
    dsimp only
    split
    · exact .pure ⟨hmsg, hloaded _, [taken], rfl, hg₃⟩
    next hpass =>
      have hcarried : ∀ m' ∈ p.packed ++ [taken], m'.carried = none :=
        List.forall_mem_append.mpr ⟨hp, List.forall_mem_singleton.mpr (by simpa using hpass)⟩
      refine .bind (((reads_sizeRepeated _).ensures s₃).mono ?_ fun _ _ h => (hg₃.quiet h).reaches)
      intro size s₄ h₄
      have hg₄ := hg₃.quiet h₄
      split
      · refine .bind (((findNextSender_reaches _ _).ensures s₄).mono ?_
          fun _ _ h => (hg₄.push h).reaches)
        intro next s₅ h₅
        have hg₅ := hg₄.push h₅
        cases next with
        | none => exact .pure ⟨hmsg.trans (.set msg _), hloaded _, [taken], rfl, hg₅⟩
        | some k' =>
          have hstart : msg.frameStart = p.msg.frameStart := hmsg.start
          refine (ih k' hcarried (hg₅.reaches.inv hs)).mono ?_ ?_
          · rintro p' s₆ ⟨hp', hlast, new, hnew, hg₆⟩
            refine ⟨(hmsg.trans (.set msg _)).trans hp', hlast, taken :: new, by simpa using hnew, ?_⟩
            simp only [hstart] at hg₆
            exact hg₅.trans hg₆
          · intro e s₆ h₆
            simp only [hstart] at h₆
            exact trans_of (Reaches env _) hg₅.reaches h₆
      · exact .pure ⟨hmsg.trans (.set msg _), hloaded _, [taken], rfl, hg₄⟩

def opened (i : ℕ) (msg : ModemTransmission) : ModemTransmission :=
  if i < msg.frame.length then msg else { msg with frame := msg.frame ++ [[]] }

theorem opened_eq (i : ℕ) (msg : ModemTransmission) : ∃ frame, opened i msg = { msg with frame := frame } := by
  unfold opened
  split
  · exact ⟨msg.frame, rfl⟩
  · exact ⟨msg.frame ++ [[]], rfl⟩

theorem opened_length {msg : ModemTransmission} (hi : i ≤ msg.frame.length) :
    (opened i msg).frame.length = max msg.frame.length (i + 1) := by
  unfold opened
  split
  · omega
  · simp only [List.length_append, List.length_singleton]
    omega

theorem opened_getD (i : ℕ) (msg : ModemTransmission) (j : ℕ) :
    (opened i msg).frame.getD j [] = msg.frame.getD j [] := by
  unfold opened
  split
  · rfl
  · rcases Nat.lt_trichotomy j msg.frame.length with hj | rfl | hj
    · simp [List.getD, List.getElem?_append_left hj]
    · simp
    · simp [List.getD, List.getElem?_eq_none (show (msg.frame ++ [[]]).length ≤ j by simp; omega),
        List.getElem?_eq_none (Nat.le_of_lt hj)]

theorem packFrame_eq [DecidableEq Desc] (fuel i : ℕ) (msg : ModemTransmission) :
    packFrame env fuel i msg = (do
      match ← findNextSender env (opened i msg) ((opened i msg).frame.getD i []) with
      | none => pure ({ opened i msg with dest := some (← get).packetDest }, [])
      | some k => do
          let p ← packLoop env i ((opened i msg).frame.getD i []) fuel k { msg := opened i msg }
          match ← tryDccl (encodeFrame env ((opened i msg).frame.getD i []) p) with
          | .ok data => pure ({ p.msg with frame := p.msg.frame.set i data }, p.packed)
          | .error _ => pure ({ p.msg with frame := p.msg.frame.set i [] }, p.packed)) := rfl

/-- The events of one frame, and what the returned transmission holds in it. -/
theorem packFrame_ensures [DecidableEq Desc] (fuel i : ℕ) (msg : ModemTransmission) (hs : Inv env s)
    (hi : i ≤ msg.frame.length) :
    Ensures (packFrame env fuel i msg) s
      (fun r s' => (r.1.frameStart = msg.frameStart ∧ r.1.ackedFrame = msg.ackedFrame) ∧
        r.1.frame.length = max msg.frame.length (i + 1) ∧
        (∀ j, j ≠ i → r.1.frame.getD j [] = msg.frame.getD j []) ∧
        CarriesOrEmpty env (InForce s) (msg.frame.getD i []) r.2 (r.1.frame.getD i []) ∧
        Gives env (IsPack (msg.frameStart + i)) (r.2.map (·.given (msg.frameStart + i))) s s')
      (fun _ s' => Reaches env (IsPack (msg.frameStart + i)) s s') := by
  have hopened : (opened i msg).frameStart = msg.frameStart ∧
      (opened i msg).ackedFrame = msg.ackedFrame := by
    obtain ⟨frame, hframe⟩ := opened_eq i msg
    exact hframe ▸ ⟨rfl, rfl⟩
  have hstart := hopened.1
  have hlen := opened_length hi
  have hget := opened_getD i msg
  rw [packFrame_eq]
  refine .bind ((((findNextSender_reaches _ _).ensures s).and
    ((keepsCodec_findNextSender _ _).ensures s)).mono ?_ fun _ _ h => h.1.mono fun _ => IsPush.isPack)
  rintro sender s₁ ⟨h₁, hk₁⟩
  have hg₁ : Gives env (IsPack (msg.frameStart + i)) [] s s₁ :=
    (h₁.gives fun _ => IsPush.givenBy).mono fun _ => IsPush.isPack
  cases sender with
  | none =>
    refine .bind (.get (.pure ⟨hopened, hlen, fun j _ => hget j, .inl ⟨[], ?_, .nil⟩, hg₁⟩))
    simpa using hget i
  | some k =>
    refine .bind (((packLoop_ensures i _ fuel k (by simp) (h₁.inv hs)).and
      ((keepsCodec_packLoop i _ fuel k { msg := opened i msg }).ensures s₁)).mono ?_ ?_)
    · rintro p s₂ ⟨⟨hframes, hloaded, new, hnew, hg₂⟩, hk₂⟩
      have hpacked : p.packed = new := hnew
      rw [hstart, ← hpacked] at hg₂
      have hg := hg₁.trans hg₂
      have hlen' : i < p.msg.frame.length := by
        have hsame : p.msg.frame.length = (opened i msg).frame.length := hframes.length
        omega
      have hset : ∀ data, SameFrames i (opened i msg) { p.msg with frame := p.msg.frame.set i data } :=
        fun data => hframes.trans (.set p.msg data)
      have hsame : ∀ data, ({ p.msg with frame := p.msg.frame.set i data } : ModemTransmission).frameStart =
          msg.frameStart ∧ p.msg.ackedFrame = msg.ackedFrame :=
        fun data => ⟨(hset data).start.trans hstart, hframes.acked.trans hopened.2⟩
      refine .bind (.mono (tryDccl_ensures
        (encodeFrame_ensures _ hloaded (trans_of KeepsCodec hk₁ hk₂))) ?_ ?_)
      · rintro r s₃ ⟨h₃, hr⟩
        cases r with
        | ok data =>
          refine .pure ⟨hsame data, (hset data).length.trans hlen,
            fun j hj => ((hset data).other j hj).trans (hget j), .inl ?_, hg.quiet h₃⟩
          rw [← hget i]
          simpa [List.getD, hlen'] using hr
        | error e =>
          refine .pure ⟨hsame [], (hset []).length.trans hlen,
            fun j hj => ((hset []).other j hj).trans (hget j), .inr ⟨?_, fun henc => ?_⟩, hg.quiet h₃⟩
          · simp [List.getD, hlen']
          · exact hr henc e rfl
      · rintro e s₃ ⟨h₃, -⟩
        exact (hg.quiet h₃).reaches
    · rintro e s₂ ⟨h₂, -⟩
      rw [hstart] at h₂
      exact trans_of (Reaches env _) hg₁.reaches h₂

def placed : ℕ → List (List (Packed Msg)) → List (Given Msg)
  | _, [] => []
  | frame, packed :: rest => packed.map (·.given frame) ++ placed (frame + 1) rest

theorem mem_placed {frame : ℕ} {packs : List (List (Packed Msg))} {g : Given Msg}
    (h : g ∈ placed frame packs) :
    frame ≤ g.frame ∧ ∃ packed, packs[g.frame - frame]? = some packed ∧
      ∃ m ∈ packed, m.given g.frame = g := by
  induction packs generalizing frame with
  | nil => simp [placed] at h
  | cons packed rest ih =>
    rcases List.mem_append.mp h with h | h
    · obtain ⟨m, hm, rfl⟩ := List.mem_map.mp h
      exact ⟨Nat.le_refl _, packed, by rw [Packed.given, Nat.sub_self]; rfl, m, hm, rfl⟩
    · obtain ⟨hle, p, hp, hm⟩ := ih h
      refine ⟨by omega, p, ?_, hm⟩
      rw [show g.frame - frame = g.frame - (frame + 1) + 1 by omega, List.getElem?_cons_succ]
      exact hp

def IsPackRange (start count : ℕ) : Event Msg → Prop
  | .queue _ (.gave _ f _) | .queue _ (.popped _ f) => start ≤ f ∧ f < start + count
  | e => IsPush e

theorem IsPack.range {frame start count : ℕ} (h : start ≤ frame ∧ frame < start + count)
    {e : Event Msg} (he : IsPack frame e) : IsPackRange start count e := by
  cases e with
  | queue k e => cases e <;> first | exact he.elim | trivial | (cases he; exact h)
  | _ => exact he

theorem packFrames_ensures [DecidableEq Desc] (fuel count i : ℕ) (msg : ModemTransmission)
    (hs : Inv env s) (hi : i ≤ msg.frame.length) (start n : ℕ)
    (hlow : start ≤ msg.frameStart + i) (hhigh : msg.frameStart + i + count ≤ start + n) :
    Ensures (packFrames env fuel count i msg) s
      (fun r s' => (r.2.length = count ∧ r.1.ackedFrame = msg.ackedFrame) ∧
        r.1.frame.length = max msg.frame.length (i + count) ∧
        (∀ j, j < i → r.1.frame.getD j [] = msg.frame.getD j []) ∧
        (∀ j packed, r.2[j]? = some packed → CarriesOrEmpty env (InForce s)
          (msg.frame.getD (i + j) []) packed (r.1.frame.getD (i + j) [])) ∧
        Gives env (IsPackRange start n) (placed (msg.frameStart + i) r.2) s s')
      (fun _ s' => Reaches env (IsPackRange start n) s s') := by
  induction count generalizing i msg s with
  | zero =>
    refine .pure ⟨⟨rfl, rfl⟩, by simpa using hi, fun _ _ => rfl, by simp, fun _ => ⟨[], .refl s, by simp, by simp, rfl⟩⟩
  | succ count ih =>
    have hrange : ∀ e : Event Msg, IsPack (msg.frameStart + i) e → IsPackRange start n e :=
      fun e he => he.range ⟨hlow, by omega⟩
    refine .bind (((packFrame_ensures fuel i msg hs hi).and
      ((keepsCodec_packFrame fuel i msg).ensures s)).mono ?_ fun _ _ h => h.1.mono hrange)
    rintro ⟨msg₁, packed⟩ s₁ ⟨⟨⟨hstart, hacked⟩, hlen, hother, hcarry, hg₁⟩, hk₁⟩
    have hg₁' := hg₁.mono hrange
    dsimp only at hstart hlen hother hcarry hg₁'
    refine .bind ((ih (i + 1) msg₁ (hg₁.reaches.inv hs) (by omega) (by omega) (by omega)).mono ?_
      fun _ _ h => trans_of (Reaches env _) hg₁'.reaches h)
    rintro ⟨msg₂, rest⟩ s₂ ⟨⟨hrest, hacked₂⟩, hlen₂, hlower, hcarries, hg₂⟩
    dsimp only at hrest hlen₂ hlower hcarries hg₂
    refine .pure ⟨⟨by simp [hrest], hacked₂.trans hacked⟩, ?_, ?_, ?_, ?_⟩
    · rw [hlen₂, hlen]
      omega
    · intro j hj
      exact (hlower j (by omega)).trans (hother j (by omega))
    · intro j p hp
      cases j with
      | zero =>
        obtain rfl : packed = p := by simpa using hp
        rw [Nat.add_zero, hlower i (by omega)]
        exact hcarry
      | succ j =>
        have hj := (hcarries j p (by simpa using hp)).mono fun _ => hk₁.inForce
        rw [hother _ (by omega)] at hj
        rwa [show i + (j + 1) = i + 1 + j by omega]
    · rw [hstart] at hg₂
      exact hg₁'.trans hg₂

/-- Filling frames clears no entries, so it gives no message twice. -/
theorem Gives.nodup {start count : ℕ} {s s' : QueueManager Desc Msg}
    (h : Gives env (IsPackRange start count) gs s s') (hs : Inv env s) :
    (gs.map Given.origin).Nodup := by
  obtain ⟨es, hsteps, -, hes, rfl⟩ := h hs
  exact (hsteps.given_nodup fun k it frame hm => hes _ hm).1

theorem IsClear.givenBy {e : Event Msg} (h : IsClear e) : givenBy e = none := by
  cases e with
  | queue k e => cases e <;> first | exact h.elim | rfl
  | _ => rfl

def IsRequest (start count : ℕ) (e : Event Msg) : Prop := IsClear e ∨ IsPackRange start count e

/-- After a request, an acknowledgment is only awaited under a frame number below its
first one, or for a message that the request gave. -/
def Requested (env : Environment Desc Msg) (start count : ℕ) (s s' : QueueManager Desc Msg) : Prop :=
  Inv env s → ∃ es, Steps env s es s' ∧ s'.log = s.log ++ es ∧
    (∀ e ∈ es, IsRequest start count e) ∧
    ∀ k f it, (f, it) ∈ (s'.contents k).waitingForAck → f < start ∨ ∃ msg, .queue k (.gave it f msg) ∈ es

theorem frameCount_le (msg : ModemTransmission) : frameCount msg ≤ msg.maxNumFrames := by
  have := Nat.mod_le (msg.maxNumFrames + msg.frameStart) (2 ^ 32)
  unfold frameCount
  omega

theorem handleModemDataRequest_ensures [DecidableEq Desc] (fuel : ℕ) (msg : ModemTransmission)
    (hs : Inv env s) :
    Ensures (handleModemDataRequest env fuel msg) s
      (fun r s' => (Requested env msg.frameStart msg.maxNumFrames s s' ∧
          r.1.ackedFrame = msg.ackedFrame ∧ r.2.length ≤ msg.maxNumFrames) ∧
        r.1.frame.length = max msg.frame.length r.2.length ∧
        (∀ j packed, r.2[j]? = some packed →
          CarriesOrEmpty env (InForce s) (msg.frame.getD j []) packed (r.1.frame.getD j [])) ∧
        ((placed msg.frameStart r.2).map Given.origin).Nodup ∧
        Gives env (IsRequest msg.frameStart msg.maxNumFrames) (placed msg.frameStart r.2) s s')
      (fun _ s' => Requested env msg.frameStart msg.maxNumFrames s s') := by
  refine .bind (((clearPacket_ensures hs msg).and ((keepsCodec_clearPacket msg).ensures s)).mono ?_
    fun _ _ h => h.1.elim)
  rintro - s₁ ⟨⟨h₁, hlt⟩, hk₁⟩
  have hpack : ∀ s₂, Reaches env (IsPackRange msg.frameStart msg.maxNumFrames) s₁ s₂ →
      Requested env msg.frameStart msg.maxNumFrames s s₂ := by
    intro s₂ h₂ _
    obtain ⟨es, hsteps, hlog, hes⟩ := h₁ hs
    obtain ⟨fs, hsteps', hlog', hfs⟩ := h₂ (h₁.inv hs)
    refine ⟨es ++ fs, hsteps.trans hsteps', by rw [hlog', hlog, List.append_assoc], ?_, ?_⟩
    · exact List.forall_mem_append.mpr ⟨fun e he => .inl (hes e he), fun e he => .inr (hfs e he)⟩
    · intro k f it hm
      rcases (hsteps'.project k).mem_waiting hm with hm | hm
      · exact .inl (hlt k _ hm)
      · obtain ⟨msg, hm⟩ := hm
        exact .inr ⟨msg, List.mem_append_right _ (Event.mem_queueEvents.mp hm)⟩
  have hcount := frameCount_le msg
  refine .bind ((packFrames_ensures fuel (frameCount msg) 0 msg (h₁.inv hs) (Nat.zero_le _)
    msg.frameStart msg.maxNumFrames (by omega) (by omega)).mono ?_
    fun _ s₂ h₂ => hpack s₂ h₂)
  rintro ⟨filled, packs⟩ s₂ ⟨⟨hpacks, hacked⟩, hframes, -, hcarry, hg₂⟩
  have hg₁ : Gives env (IsRequest msg.frameStart msg.maxNumFrames) [] s s₁ :=
    (h₁.gives fun _ => IsClear.givenBy).mono fun _ => .inl
  refine .bind (.get (.pure ⟨⟨hpack s₂ hg₂.reaches, hacked, hpacks.trans_le hcount⟩, ?_, ?_,
    hg₂.nodup (h₁.inv hs), ?_⟩))
  · simpa [hpacks] using hframes
  · intro j packed hj
    have hframe := hcarry j packed hj
    rw [Nat.zero_add] at hframe
    exact hframe.mono fun _ => hk₁.inForce
  · exact hg₁.trans (hg₂.mono fun _ => .inr)

end Goby.QueueManager
