import Goby.QueueManagerRefinement

/-! What a request for data does is put together from a few parts: a relation that these guarantee,
a frame guarantees. Finding the next sender changes the queues, the readings of the clock and
the log, and nothing else. Only the encryption rules make the manager change its codec. Everything
that a request for data does besides encoding leaves the rules and the codec alone, and without
rules encoding does so too. -/

namespace Goby.QueueManager

variable {Desc Msg : Type} {env : Environment Desc Msg}

variable {R : QueueManager Desc Msg → QueueManager Desc Msg → Prop} [IsPreorder _ R]

section Search

variable (hreadings : ∀ n, Guarantees R (setReadings n : Code Desc Msg Unit))
  (hdemand : ∀ request, Guarantees R (emit [.dataOnDemand request] : Code Desc Msg Unit))
  (hpush : ∀ msg given, Guarantees R (pushMessage env msg given))
include hreadings hdemand hpush

theorem guarantees_encodeOnDemand (request : ModemTransmission) (k : ℕ) :
    Guarantees R (encodeOnDemand env request k) := by
  refine .bind (reads_getQueue k) fun q => .bind .get fun s => ?_
  split
  · refine .bind ?_ fun wanted => ?_
    · unfold needsData
      split
      · exact .pure _
      · exact .bind .get fun _ => .bind (hreadings _) fun _ => .pure _
    · split
      · refine .bind .get fun t => .bind (hreadings _) fun _ => .bind (hdemand _) fun _ => ?_
        split
        · exact hpush _ _
        · exact .pure _
      · exact .pure _
  · exact .pure _

theorem guarantees_findNextSender (request : ModemTransmission) (data : Bytes) :
    Guarantees R (findNextSender env request data) := by
  have hcontest : ∀ ks w, Guarantees R (contest env request data ks w) := by
    intro ks
    induction ks with
    | nil => exact fun _ => .pure _
    | cons k rest ih =>
      intro w
      refine .bind (guarantees_encodeOnDemand hreadings hdemand hpush request k) fun _ =>
        .bind (reads_getQueue k) fun q => .bind .get fun s => ?_
      split
      · exact .throw _
      · exact .bind (hreadings _) fun _ => ih _
  exact .bind .get fun _ => .bind (hcontest _ _) fun _ => .pure _

end Search

section Frames

variable (htake : ∀ k frame, Guarantees R (takeUserFrame env k frame))
  (haddress : ∀ i m msg, Guarantees R (address i m msg : Code Desc Msg _))
  (hfind : ∀ request data, Guarantees R (findNextSender env request data))
include htake haddress hfind

theorem guarantees_packLoop (i : ℕ) (original : Bytes) (fuel k : ℕ) (p : Packing Msg) :
    Guarantees R (packLoop env i original fuel k p) := by
  induction fuel generalizing k p with
  | zero => exact .throw _
  | succ fuel ih =>
    refine .bind (htake _ _) fun r => .bind (haddress _ _ _) fun msg =>
      .bind (reads_metaFromMsg _) fun msgMeta => ?_
    dsimp only
    split
    · exact .pure _
    · refine .bind (reads_sizeRepeated _) fun size => ?_
      split
      · refine .bind (hfind _ _) fun next => ?_
        cases next with
        | none => exact .pure _
        | some k' => exact ih _ _
      · exact .pure _

variable [DecidableEq Desc] (hrule : ∀ modem, Guarantees R (applyRule env modem))

omit htake haddress hfind in
include hrule in
theorem guarantees_encodeFrame (original : Bytes) (p : Packing Msg) :
    Guarantees R (encodeFrame env original p) := by
  unfold encodeFrame
  split
  · refine .bind (guarantees_encodeRepeated hrule _) fun front => .bind (reads_encode _ _) fun header => ?_
    split
    · exact .pure _
    · exact .throw _
  · exact .bind (guarantees_encodeRepeated hrule _) fun _ => .pure _

include hrule

theorem guarantees_packFrame (fuel i : ℕ) (msg : ModemTransmission) :
    Guarantees R (packFrame env fuel i msg) := by
  refine .bind (hfind _ _) fun sender => ?_
  cases sender with
  | none => exact .bind .get fun _ => .pure _
  | some k =>
    refine .bind (guarantees_packLoop htake haddress hfind _ _ _ _ _) fun p =>
      .bind (guarantees_tryDccl (guarantees_encodeFrame hrule _ p)) fun r => ?_
    cases r with
    | ok data => exact .pure _
    | error e => exact .pure _

theorem guarantees_packFrames (fuel count i : ℕ) (msg : ModemTransmission) :
    Guarantees R (packFrames env fuel count i msg) := by
  induction count generalizing i msg with
  | zero => exact .pure _
  | succ count ih =>
    exact .bind (guarantees_packFrame htake haddress hfind hrule _ _ _) fun _ => .bind (ih _ _) fun _ => .pure _

end Frames

/-- The relation leaves the queues, the readings of the clock and the log free. -/
def Overlooks (R : QueueManager Desc Msg → QueueManager Desc Msg → Prop) : Prop :=
  ∀ s queues readings log, R s { s with queues := queues, readings := readings, log := log }

namespace Overlooks

variable (h : Overlooks R)
include h

omit [IsPreorder _ R] in
theorem emit (events : List (Event Msg)) : Guarantees R (emit events : Code Desc Msg Unit) :=
  .modify fun s => h s _ _ _

omit [IsPreorder _ R] in
theorem putQueue (k : ℕ) (q : Queue Desc Msg) (events : List (QueueEvent Msg)) :
    Guarantees R (putQueue k q events) := .modify fun s => h s _ _ _

omit [IsPreorder _ R] in
theorem setReadings (n : ℕ) : Guarantees R (setReadings n : Code Desc Msg Unit) :=
  .modify fun s => h s _ _ _

theorem qsize (k : ℕ) : Guarantees R (qsize env k) := .bind (reads_getQueue k) fun _ => h.emit _

theorem pushMessage (msg : Msg) (given : Option QueuedMessageMeta) :
    Guarantees R (pushMessage env msg given) := by
  refine .bind .get fun s => ?_
  split
  · exact .throw _
  next q _ =>
    refine .bind ?_ fun msgMeta => ?_
    · cases given with
      | some given => exact .pure _
      | none => exact .bind .get fun _ => reads_lift _
    · exact .bind .get fun _ => .bind (h.setReadings _) fun _ => .bind (h.emit _)
        fun _ => .bind (h.emit _) fun _ => .bind (h.putQueue _ _ _) fun _ => h.qsize _

theorem findNextSender (request : ModemTransmission) (data : Bytes) :
    Guarantees R (findNextSender env request data) :=
  guarantees_findNextSender h.setReadings (fun _ => h.emit _) h.pushMessage request data

end Overlooks

/-- The manipulators and the rules stay, and the codec stays if there are no rules. -/
structure KeepsCodec (s s' : QueueManager Desc Msg) : Prop where
  manips : s'.manips = s.manips
  rules : s'.encryptRules = s.encryptRules
  codec : s.encryptRules.isEmpty = true → s'.codec = s.codec

instance : IsPreorder (QueueManager Desc Msg) KeepsCodec where
  refl _ := ⟨rfl, rfl, fun _ => rfl⟩
  trans _ _ _ h h' := ⟨h'.manips.trans h.manips, h'.rules.trans h.rules,
    fun he => (h'.codec (h.rules ▸ he)).trans (h.codec he)⟩

theorem keepsCodec_modify {f : QueueManager Desc Msg → QueueManager Desc Msg}
    (h : ∀ s, (f s).manips = s.manips ∧ (f s).encryptRules = s.encryptRules ∧ (f s).codec = s.codec) :
    Guarantees KeepsCodec (modify f : Code Desc Msg PUnit) :=
  .modify fun s => ⟨(h s).1, (h s).2.1, fun _ => (h s).2.2⟩

theorem keepsCodec_overlooks : Overlooks (@KeepsCodec Desc Msg) :=
  fun _ _ _ _ => ⟨rfl, rfl, fun _ => rfl⟩

theorem keepsCodec_findNextSender (request : ModemTransmission) (data : Bytes) :
    Guarantees KeepsCodec (findNextSender env request data) :=
  keepsCodec_overlooks.findNextSender request data

theorem keepsCodec_clearPacket (msg : ModemTransmission) : Guarantees KeepsCodec (clearPacket env msg) := by
  have hclear : ∀ es, Guarantees KeepsCodec (clearEntries env msg.frameStart es) := by
    intro es
    induction es with
    | nil => exact .pure _
    | cons e rest ih =>
      refine .bind ?_ fun _ => .bind ih fun _ => .pure _
      refine .bind (reads_getQueue _) fun q => .bind .get fun s => ?_
      split
      · exact .throw _
      · exact .bind (keepsCodec_overlooks.setReadings _) fun _ =>
          .bind (keepsCodec_overlooks.putQueue _ _ _) fun _ => .pure _
  exact .bind .get fun _ => .bind (hclear _) fun _ => keepsCodec_modify fun _ => ⟨rfl, rfl, rfl⟩

theorem keepsCodec_takeUserFrame (k frame : ℕ) : Guarantees KeepsCodec (takeUserFrame env k frame) := by
  refine .bind (reads_getQueue k) fun q => .bind .get fun s => ?_
  split
  · exact .throw _
  next it m given _ =>
    refine .bind (keepsCodec_overlooks.setReadings _) fun _ =>
      .bind (keepsCodec_overlooks.putQueue _ _ _) fun _ =>
      .bind ?_ fun _ => .bind ?_ fun _ => .bind (keepsCodec_modify fun _ => ⟨rfl, rfl, rfl⟩)
        fun _ => .pure _
    · refine .bind .get fun t => ?_
      split
      · exact keepsCodec_overlooks.emit _
      · exact .pure _
    · unfold settleGiven
      split
      · exact keepsCodec_modify fun _ => ⟨rfl, rfl, rfl⟩
      · unfold popGiven
        split
        · exact .throw _
        · exact keepsCodec_overlooks.qsize _
        · exact .bind (keepsCodec_overlooks.putQueue _ _ _) fun _ => keepsCodec_overlooks.qsize _

theorem keepsCodec_address (i : ℕ) (m : QueuedMessage Msg) (msg : ModemTransmission) :
    Guarantees KeepsCodec (address i m msg : Code Desc Msg _) := by
  unfold address
  split
  · refine .bind .get fun s => .bind (keepsCodec_modify fun t => ?_) fun _ => .pure _
    split <;> exact ⟨rfl, rfl, rfl⟩
  · exact .pure _

theorem keepsCodec_packLoop (i : ℕ) (original : Bytes) (fuel k : ℕ) (p : Packing Msg) :
    Guarantees KeepsCodec (packLoop env i original fuel k p) :=
  guarantees_packLoop keepsCodec_takeUserFrame keepsCodec_address keepsCodec_findNextSender i original fuel k p

theorem keepsCodec_applyRule [DecidableEq Desc] (modem : ℤ) :
    Guarantees KeepsCodec (applyRule env modem) := by
  refine .modify fun s => ?_
  split
  · exact refl_of KeepsCodec s
  next hne => exact ⟨rfl, rfl, fun he => absurd he hne⟩

theorem keepsCodec_packFrame [DecidableEq Desc] (fuel i : ℕ) (msg : ModemTransmission) :
    Guarantees KeepsCodec (packFrame env fuel i msg) :=
  guarantees_packFrame keepsCodec_takeUserFrame keepsCodec_address keepsCodec_findNextSender
    keepsCodec_applyRule fuel i msg

/-- The settings that a message may be encoded with: without rules, those of the codec. -/
def InForce (s : QueueManager Desc Msg) (settings : CodecSettings) : Prop :=
  s.encryptRules.isEmpty = true → settings = s.codec.codec.settings

theorem KeepsCodec.inForce {s s' : QueueManager Desc Msg} (h : KeepsCodec s s')
    {settings : CodecSettings}
    (hs : InForce s' settings) : InForce s settings := by
  intro he
  rw [← h.codec he]
  exact hs (h.rules ▸ he)

theorem inForce_self (s : QueueManager Desc Msg) : InForce s s.codec.codec.settings := fun _ => rfl

end Goby.QueueManager
