import Goby.BenthosReception

/-! A line that announces a packet brings the machine into `ReceiveData`, where nothing but the
lines of the packet matters until its end. Then one message is handed over, and the machine
returns to the state it was in. -/

namespace Goby

namespace BenthosFsm

variable {codec : BenthosHeaderCodec} {lexicalCastFloat : Bytes → Option ℚ} {line : Bytes}

/-- The machine that frames messages with a codec and reads packets. -/
def framed (codec : BenthosHeaderCodec) (lexicalCastFloat : Bytes → Option ℚ)
    (env : BenthosEnv ReceiveData) : BenthosEnv ReceiveData :=
  { env with
    serialize := fun msg => serializeBenthosModemMessage codec msg.toModemTransmission
    receiveStart := ReceiveData.receiveStart
    receiveLine := ReceiveData.receiveLine codec lexicalCastFloat }

def BenthosCall.text? : BenthosCall → Option Bytes
  | .line _ text => some text
  | _ => none

section

variable {ρ : Type} {env : BenthosEnv ρ} {m : BenthosFsm ρ} {r r' : ρ}
  {received : List DriverTransmission} {e : BenthosEvent}

/-- The states in which `Active` reads lines, that is all but `Range`. -/
structure Receptive (m : BenthosFsm ρ) : Prop where
  posted : m.posted = []
  state : (∃ leaf atOut, m.state = .command leaf atOut ∧ leaf ≠ .range) ∨ ∃ leaf, m.state = .online leaf

structure Reading (r : ρ) (received : List DriverTransmission) (m : BenthosFsm ρ) : Prop where
  state : m.state = .receiveData (some r)
  posted : m.posted = []
  received : m.received = received

theorem drain_nil (h : m.posted = []) (fuel : ℕ) : drain env fuel m = m := by
  cases fuel with
  | zero => rfl
  | succ fuel => rw [drain, h]

theorem Receptive.react_rxSerial (h : Receptive m) :
    m.react env (.rxSerial line) = m.activeLine line := by
  rcases h.state with ⟨leaf, atOut, hstate, hleaf⟩ | ⟨leaf, hstate⟩
  · simp only [react, hstate]
    cases leaf <;> first | rfl | exact absurd rfl hleaf
  · simp only [react, hstate]
    cases leaf <;> rfl

theorem Receptive.react_receive (h : Receptive m) {first : Bytes} :
    m.react env (.receive first) = m.exit.receiveStep (env.receiveStart first) := by
  rcases h.state with ⟨leaf, atOut, hstate, -⟩ | ⟨leaf, hstate⟩
  · simp only [react, hstate]
    cases leaf <;> rfl
  · simp only [react, hstate]
    cases leaf <;> rfl

theorem exit_received (m : BenthosFsm ρ) : m.exit.received = m.received ∧ m.exit.posted = m.posted := by
  unfold exit
  split <;> exact ⟨rfl, rfl⟩

section

variable (h : Receptive m) (hdata : ascii "DATA" <+: trimCopy line)
  (hstart : env.receiveStart (trimCopy line) = .more r)
include h hdata hstart

theorem Receptive.processEvent_announcement :
    Reading r m.received (m.processEvent env (.rxSerial line)) := by
  have hactive : m.activeLine line = m.post (.receive (trimCopy line)) := if_pos hdata
  have hposted : (m.post (.receive (trimCopy line))).posted = [.receive (trimCopy line)] := by
    rw [posted_post, h.posted, List.nil_append]
  have hback : { m.post (.receive (trimCopy line)) with posted := [] } = m := by
    rw [post, ← h.posted]
  obtain ⟨hreceived, hexit⟩ := exit_received m
  rw [processEvent, h.react_rxSerial, hactive, drain_cons 4 hposted, hback, h.react_receive, hstart]
  have hreading : Reading r m.received (m.exit.receiveStep (.more r)) :=
    ⟨rfl, hexit.trans h.posted, hreceived⟩
  rw [drain_nil hreading.posted]
  exact hreading

theorem Receptive.announced (now : ℚ) : Reading r m.received (m.perform env (.line now line)) :=
  Receptive.processEvent_announcement (m := { m with now := now }) ⟨h.posted, h.state⟩ hdata hstart

end

theorem Reading.processEvent_other (h : Reading r received m)
    (hline : ∀ line, e ≠ .rxSerial line) (hcomplete : e ≠ .receiveComplete) :
    m.processEvent env e = m := by
  have hreact : m.react env e = m := by
    simp only [react, h.state]
    cases e with
    | rxSerial line => exact absurd rfl (hline line)
    | receiveComplete => exact absurd rfl hcomplete
    | _ => rfl
  rw [processEvent, hreact, drain_nil h.posted]

/-- While a packet is read, what the driver does otherwise has no effect on it. -/
theorem Reading.perform_other (h : Reading r received m) {c : BenthosCall} (hc : c.text? = none) :
    Reading r received (m.perform env c) := by
  cases c with
  | send msg =>
    have hm : Reading r received { m with dataOut := circularPush 5 m.dataOut msg } :=
      ⟨h.state, h.posted, h.received⟩
    rw [perform, send, hm.processEvent_other (e := .dial msg.destD msg.rateD) nofun nofun]
    exact hm
  | trySerialTx now =>
    have hm : Reading r received { m with now := now } := ⟨h.state, h.posted, h.received⟩
    rw [perform, trySerialTx, hm.processEvent_other (e := .txSerial) nofun nofun]
    exact ⟨h.state, h.posted, h.received⟩
  | line now text => exact absurd hc nofun
  | range dest =>
    rw [perform, h.processEvent_other (e := .range dest) nofun nofun]
    exact h
  | reset =>
    rw [perform, h.processEvent_other (e := .reset) nofun nofun]
    exact h
  | requestLowPower =>
    rw [perform, h.processEvent_other (e := .requestLowPower) nofun nofun]
    exact h

theorem Reading.react_line (h : Reading r received m) (line : Bytes) :
    m.react env (.rxSerial line) = m.receiveStep (env.receiveLine r line) := by
  simp only [react, h.state, receiveReact]

theorem Reading.processEvent_line (h : Reading r received m) {text : Bytes}
    (hmore : env.receiveLine r text = .more r') :
    Reading r' received (m.processEvent env (.rxSerial text)) := by
  have hreading : Reading r' received (m.receiveStep (.more r')) := ⟨rfl, h.posted, h.received⟩
  rw [processEvent, h.react_line, hmore, drain_nil hreading.posted]
  exact hreading

theorem enterOnline_received (m : BenthosFsm ρ) (leaf : OnlineLeaf) :
    (m.enterOnline leaf).received = m.received := by
  cases leaf
  · simp only [enterOnline]
    split <;> rfl
  · rfl

theorem enterHistory_received (m : BenthosFsm ρ) (e : BenthosEvent) :
    (m.enterHistory env e).received = m.received := by
  unfold enterHistory
  split
  · rfl
  · rfl
  · exact enterOnline_received m _

/-- The events that follow the end of a packet hand over no other message. -/
theorem received_react_inner (m : BenthosFsm ρ) (he : e.Inner) :
    (m.react env e).received = m.received := by
  cases hstate : m.state with
  | command leaf atOut =>
    simp only [react, hstate]
    cases e with
    | atEmpty | lowPower | rangingComplete =>
      cases leaf <;> first | rfl | exact (exit_received m).1
    | reset => cases leaf <;> exact (exit_received m).1
    | noCarrier | transmit | transmitBegun | receiveComplete => cases leaf <;> rfl
    | _ => exact he.elim
  | online leaf =>
    simp only [react, hstate]
    cases e with
    | transmit =>
      cases leaf with
      | listen => exact (enterOnline_received m.exit .transmitData).trans (exit_received m).1
      | transmitData => rfl
    | transmitBegun | reset => cases leaf <;> first | rfl | exact (exit_received m).1
    | atEmpty | lowPower | rangingComplete | noCarrier | receiveComplete => cases leaf <;> rfl
    | _ => exact he.elim
  | receiveData packet =>
    simp only [react, hstate]
    cases e with
    | receiveComplete => exact enterHistory_received m _
    | rxSerial line => exact he.elim
    | _ => rfl
  | terminated => simp only [react, hstate]

/-- At the end of a packet the message is handed over. -/
theorem Reading.processEvent_last (h : Reading r received m) {text : Bytes} {msg : DriverTransmission}
    (hdone : env.receiveLine r text = .done (some msg)) :
    (m.processEvent env (.rxSerial text)).received = circularPush 10 received msg := by
  rw [processEvent, h.react_line, hdone]
  refine drain_induction (P := fun m' => m'.received = circularPush 10 received msg) (closed_inner env)
    (fun _ _ h => h) (fun e m' he h => (received_react_inner m' he).trans h) 5 _ ?_ ?_
  · intro e he
    change e ∈ m.posted ++ [.receiveComplete] at he
    rw [h.posted, List.nil_append, List.mem_singleton] at he
    exact he ▸ trivial
  · change circularPush 10 m.received msg = _
    rw [h.received]

theorem Reading.at (h : Reading r received m) (now : ℚ) : Reading r received { m with now := now } :=
  ⟨h.state, h.posted, h.received⟩

end

variable {env : BenthosEnv ReceiveData} {m : BenthosFsm ReceiveData} {r r' : ReceiveData}
  {received : List DriverTransmission}

/-- Up to the end of a packet, its lines are read whatever the driver does between them. -/
theorem Reading.run {calls : List BenthosCall} {lines : List Bytes} (h : Reading r received m)
    (hcalls : calls.filterMap BenthosCall.text? = lines)
    (hlines : ReceiveData.receiveLines codec lexicalCastFloat r lines = some r') :
    Reading r' received (calls.foldl (perform (framed codec lexicalCastFloat env)) m) := by
  induction calls generalizing r m lines with
  | nil =>
    subst hcalls
    exact Option.some.inj hlines ▸ h
  | cons c calls ih =>
    subst hcalls
    cases hc : c.text? with
    | none =>
      rw [List.filterMap_cons_none hc] at hlines
      exact ih (h.perform_other hc) rfl hlines
    | some text =>
      rw [List.filterMap_cons_some hc, ReceiveData.receiveLines] at hlines
      obtain ⟨now, rfl⟩ : ∃ now, c = .line now text := by
        cases c with
        | line now text' => exact ⟨now, congrArg _ (Option.some.inj hc)⟩
        | _ => cases hc
      split at hlines
      next r'' hmore => exact ih ((h.at now).processEvent_line hmore) rfl hlines
      · cases hlines

/-- The driver reads the lines of a packet, and does anything else between them. -/
structure ReadsPacket {bytes : Bytes} {src dest : ℕ}
    (p : PrintedPacket lexicalCastFloat bytes src dest) where
  started : ℚ
  calls : List BenthosCall
  ended : ℚ
  calls_text : calls.filterMap BenthosCall.text? = p.data ++ [p.addresses, p.statistics]

namespace ReadsPacket

variable {bytes : Bytes} {src dest : ℕ} {p : PrintedPacket lexicalCastFloat bytes src dest}

def run (reads : ReadsPacket p) (env : BenthosEnv ReceiveData) (m : BenthosFsm ReceiveData) :
    BenthosFsm ReceiveData :=
  (BenthosCall.line reads.started p.first :: reads.calls ++ [BenthosCall.line reads.ended p.last]).foldl
    (perform env) m

/-- One message is handed over, parsed from the bytes and with the addresses that were printed. -/
theorem received_run (reads : ReadsPacket p) (env : BenthosEnv ReceiveData) (hm : Receptive m)
    (hsize : 1 ≤ bytes.length ∧ bytes.length ≤ 9999) (hsrc : src < 1000) (hdest : dest < 1000)
    {msg : ModemTransmission}
    (hparse : parseBenthosModemMessage codec bytes { src := src, dest := some (dest : ℤ) } = some msg) :
    (reads.run (framed codec lexicalCastFloat env) m).received =
      circularPush 10 m.received { toModemTransmission := msg } := by
  obtain ⟨r, stats, hstart, hcrc, hlines⟩ := p.receiveLines codec hsize hsrc hdest
  have hdata : ascii "DATA" <+: trimCopy p.first := by
    obtain ⟨head, body, pieces, -, hfirst, -⟩ := p.prints_data
    have hlabel : ascii "DATA" <+: ascii "DATA(" := by decide +kernel
    rw [hfirst, announcement, List.append_assoc, List.append_assoc]
    exact hlabel.trans (List.prefix_append ..)
  have hreading : Reading { ReceiveData.addressed bytes src dest with rxStats := stats } m.received
      (reads.calls.foldl (perform (framed codec lexicalCastFloat env))
        (m.perform (framed codec lexicalCastFloat env) (.line reads.started p.first))) :=
    Reading.run (hm.announced hdata hstart reads.started) reads.calls_text hlines
  have hlast : (framed codec lexicalCastFloat env).receiveLine
      { ReceiveData.addressed bytes src dest with rxStats := stats } p.last =
        .done (some { toModemTransmission := msg }) :=
    ReceiveData.receiveLine_last hcrc hparse p.prints_last
  rw [run, List.cons_append, List.foldl_cons, List.foldl_append]
  exact (hreading.at reads.ended).processEvent_last hlast

end ReadsPacket

end BenthosFsm

/-- Node 2 sends a message, whose bytes are printed on two lines. -/
def sampleTransmission (dest : ℤ) : ModemTransmission :=
  { gappedTransmission with
    src := 2
    dest := some dest }

def sampleBytes : Bytes :=
  (serializeBenthosModemMessage byteBenthosCodec gappedTransmission).toOption.getD []

def sampleCast (s : Bytes) : Option ℚ := if s.all isDigit then some (digitsValue s) else none

def sampleLines (dest : ℕ) (h : dest = 3 ∨ dest = 0) :
    PrintedPacket sampleCast sampleBytes 2 (benthosAddress dest).toNat where
  first := announcement sampleBytes.length ++ ascii " " ++ hexEncode (sampleBytes.take 4) false
  data := [hexEncode (sampleBytes.drop 4) true ++ ascii " \r"]
  addresses := addressToken "Source:" 2 ++ ascii "  " ++
    addressToken "Destination:" (benthosAddress dest).toNat ++ ascii "\r"
  statistics := ascii "CRC:Pass AGC:91"
  last := ascii "<EOP>"
  prints_data :=
    ⟨sampleBytes.take 4, ascii " " ++ hexEncode (sampleBytes.take 4) false, [sampleBytes.drop 4],
      by decide +kernel, by decide +kernel, ⟨false, by decide +kernel⟩,
      .cons ⟨true, by decide +kernel⟩ .nil⟩
  prints_addresses := by
    refine ⟨1, ?_⟩
    rcases h with rfl | rfl <;> decide +kernel
  prints_statistics := by
    have hsplit : splitBlanks (ascii " AGC:91") = [ascii "AGC:91"] := by decide +kernel
    refine ⟨ascii " AGC:91", by decide +kernel, .inr ⟨ascii "AGC:91", by decide +kernel⟩, ?_⟩
    intro token htoken
    rw [hsplit, List.mem_singleton] at htoken
    exact ⟨"AGC", by decide, ascii "91", htoken.trans (by decide +kernel), by decide +kernel⟩
  prints_last := by decide +kernel

def sampleReads (dest : ℕ) (h : dest = 3 ∨ dest = 0) : BenthosFsm.ReadsPacket (sampleLines dest h) where
  started := 0
  calls := .trySerialTx 1 :: ((sampleLines dest h).data ++
    [(sampleLines dest h).addresses, (sampleLines dest h).statistics]).map (.line 2)
  ended := 3
  calls_text := rfl

def sampleReception : BenthosEnv ReceiveData where
  date _ := []
  serialize _ := .ok []
  receiveStart := ReceiveData.receiveStart
  receiveLine := ReceiveData.receiveLine byteBenthosCodec sampleCast
  rangeReply _ := none

def listening : BenthosFsm ReceiveData where
  state := .online .listen

theorem benthosAddress_eq_iff {dest : ℤ} : benthosAddress dest = dest ↔ dest ≠ broadcastId := by
  unfold benthosAddress
  split
  next h =>
    subst h
    exact iff_of_false (by decide) (not_not.mpr rfl)
  next h => exact iff_of_true rfl h

open BenthosFsm in
/-- What was sent is received once, to the address that was dialed. That is the destination
unless the message is a broadcast. -/
theorem printedPacket_received (codec : BenthosHeaderCodec) (lexicalCastFloat : Bytes → Option ℚ)
    (env : BenthosEnv ReceiveData) {m : ModemTransmission} {src dest : ℕ} {bytes : Bytes}
    (hrange : (benthosHeader m).InRange) (hsrc : m.src = src ∧ src ≤ 254)
    (hdest : m.dest = some (dest : ℤ) ∧ dest ≤ 254)
    (hbytes : serializeBenthosModemMessage codec m = .ok bytes)
    (hsize : 1 ≤ bytes.length ∧ bytes.length ≤ 9999)
    (p : PrintedPacket lexicalCastFloat bytes src (benthosAddress dest).toNat) (reads : ReadsPacket p)
    {fsm : BenthosFsm ReceiveData} (hfsm : Receptive fsm) :
    ∃ received : DriverTransmission,
      (reads.run (framed codec lexicalCastFloat env) fsm).received =
        circularPush 10 fsm.received received ∧
      received.src = m.src ∧ received.type = m.type ∧ received.ackRequested = m.ackRequested ∧
      received.ackedFrame = m.ackedFrame ∧ received.frame = m.frame.takeWhile (· ≠ []) ∧
      received.dest = some (benthosAddress dest) ∧
      (received.dest = m.dest ↔ (dest : ℤ) ≠ broadcastId) := by
  obtain ⟨bytes', hbytes', hparse⟩ := parse_serializeBenthosModemMessage codec hrange
    { src := src, dest := some (((benthosAddress dest).toNat : ℕ) : ℤ) }
  obtain rfl : bytes = bytes' := Except.ok.inj (hbytes.symm.trans hbytes')
  have haddress : 0 ≤ benthosAddress dest ∧ benthosAddress dest < 1000 := by
    unfold benthosAddress benthosBroadcastId
    split <;> omega
  have hreceived := reads.received_run env hfsm hsize (by omega) (by omega) hparse
  have hto : (((benthosAddress dest).toNat : ℕ) : ℤ) = benthosAddress dest :=
    Int.toNat_of_nonneg haddress.1
  refine ⟨_, hreceived, hsrc.1.symm, rfl, Option.or_none, rfl, rfl, congrArg some hto, ?_⟩
  change some (((benthosAddress dest).toNat : ℕ) : ℤ) = m.dest ↔ _
  rw [hto, hdest.1, Option.some_inj, benthosAddress_eq_iff]

open BenthosFsm in
theorem printedPacket_received_sample :
    ∃ received : DriverTransmission,
      ((sampleReads 3 (.inl rfl)).run (framed byteBenthosCodec sampleCast sampleReception)
        listening).received = circularPush 10 [] received ∧
      received.src = 2 ∧ received.type = .data ∧ received.ackRequested = some true ∧
      received.ackedFrame = [7, 0] ∧ received.frame = [[13, 0], [255]] ∧ received.dest = some 3 ∧
      (received.dest = some 3 ↔ (3 : ℤ) ≠ broadcastId) := by
  have hrange : (benthosHeader (sampleTransmission 3)).InRange := ⟨by decide, by decide⟩
  have hsrc : (sampleTransmission 3).src = ((2 : ℕ) : ℤ) ∧ 2 ≤ 254 := ⟨rfl, by decide⟩
  have hdest : (sampleTransmission 3).dest = some ((3 : ℕ) : ℤ) ∧ 3 ≤ 254 := ⟨rfl, by decide⟩
  have hbytes : serializeBenthosModemMessage byteBenthosCodec (sampleTransmission 3) = .ok sampleBytes :=
    rfl
  have hsize : 1 ≤ sampleBytes.length ∧ sampleBytes.length ≤ 9999 := by decide +kernel
  have hlistening : Receptive listening := ⟨rfl, .inr ⟨.listen, rfl⟩⟩
  exact printedPacket_received byteBenthosCodec sampleCast sampleReception hrange hsrc hdest hbytes
    hsize (sampleLines 3 (.inl rfl)) (sampleReads 3 (.inl rfl)) hlistening

open BenthosFsm in
/-- A broadcast is received, but to the address 255. -/
theorem broadcast_readdressed :
    serializeBenthosModemMessage byteBenthosCodec (sampleTransmission broadcastId) = .ok sampleBytes ∧
      (sampleTransmission broadcastId).dest = some broadcastId ∧
      ((sampleReads 0 (.inr rfl)).run (framed byteBenthosCodec sampleCast sampleReception)
        listening).received.map (·.dest) = [some 255] ∧ some 255 ≠ some broadcastId := by
  refine ⟨rfl, rfl, ?_, by decide⟩
  decide +kernel

end Goby
