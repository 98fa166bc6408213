import Goby.SbdBuffer
import Goby.SbdLines

/-! The modem answers `+SBDRB` with a size, the data of a short burst and a checksum, and the driver
reads the answer line by line. The carriage returns that divide it into lines are lost, and what
has been read is discarded whenever the driver looks for something to send. So the data is
collected as it was sent if it has no carriage return. A packet has one at its end; there the
first byte of the checksum takes its place, and since the parser drops the last byte, the message
is still the same if the driver does nothing between the lines. -/

namespace Goby

open IridiumCommand LineReader

/-- The answer to `+SBDRB`, which may begin with the end of the last line. -/
structure SbdReply where
  leftOver : Bool
  payload : Bytes
  checksum : UInt8 × UInt8
  short : payload.length < 65536

namespace SbdReply

def sizeField (r : SbdReply) : Bytes := [UInt8.ofNat (r.payload.length / 256), UInt8.ofNat r.payload.length]

def lead (r : SbdReply) : Bytes := if r.leftOver then [0x0A] else []

def text (r : SbdReply) : Bytes := r.lead ++ r.sizeField ++ r.payload ++ [r.checksum.1, r.checksum.2]

/-- The first byte of the size is not taken for the end of the last line. -/
def Starts (r : SbdReply) : Prop := r.leftOver = true ∨ r.sizeField.head? ≠ some 0x0A

def Whole (r : SbdReply) : Prop := carriageReturn ∉ r.sizeField ++ r.payload

/-- The data has a carriage return at its end only, and the checksum is not made of them. -/
def Packet (r : SbdReply) : Prop :=
  ∃ body, r.payload = body ++ [carriageReturn] ∧ carriageReturn ∉ r.sizeField ++ body ∧
    r.checksum ≠ (carriageReturn, carriageReturn)

variable {r : SbdReply} {chunks : List Bytes}

theorem accumulate_start (h : r.Starts) (rest : Bytes) :
    accumulate [] (r.lead ++ r.sizeField ++ rest) = r.sizeField ++ rest := by
  unfold Starts at h
  cases hl : r.leftOver with
  | true => simp [accumulate, lead, hl]
  | false =>
    have hne : ¬(r.lead ++ r.sizeField ++ rest).head? = some 0x0A := by
      simpa [lead, hl, sizeField] using h
    rw [accumulate, if_neg fun h => hne h.2]
    simp [lead, hl]

theorem size_sizeField (r : SbdReply) :
    (UInt8.ofNat (r.payload.length / 256)).toNat * 256 + (UInt8.ofNat r.payload.length).toNat =
      r.payload.length := by
  have hshort := r.short
  simp only [UInt8.toNat_ofNat']
  omega

theorem announced_sizeField (r : SbdReply) (rest : Bytes) :
    announced (r.sizeField ++ rest) =
      if rest.length < r.payload.length then none else some (rest.take r.payload.length) := by
  change (if rest.length < _ then none else some (rest.take _)) = _
  rw [size_sizeField]

/-- The lines of a text without carriage returns and two bytes after it. -/
def endLines (text : Bytes) (a b : UInt8) : List Bytes :=
  if a = carriageReturn then
    if b = carriageReturn then [text, [], []] else [text, [b]]
  else if b = carriageReturn then [text ++ [a], []] else [text ++ [a, b]]

theorem terminated_endLines (text : Bytes) (a b : UInt8) :
    terminated carriageReturn (endLines text a b) = text ++ [a, b, carriageReturn] := by
  unfold endLines
  split
  · split
    · simp_all
    · simp_all
  · split
    · simp_all
    · simp

theorem clean_endLines {text : Bytes} (h : carriageReturn ∉ text) {a b : UInt8} :
    ∀ line ∈ endLines text a b, carriageReturn ∉ line := by
  have hone : ∀ {c : UInt8}, c ≠ carriageReturn → carriageReturn ∉ [c] := fun hc =>
    List.not_mem_cons_of_ne_of_not_mem hc.symm List.not_mem_nil
  have hadd : ∀ {s : Bytes}, carriageReturn ∉ s → carriageReturn ∉ text ++ s := fun hs hmem =>
    (List.mem_append.mp hmem).elim h hs
  unfold endLines
  split
  · split
    next => simp [h]
    next hb => exact List.forall_mem_cons.mpr ⟨h, List.forall_mem_singleton.mpr (hone hb)⟩
  next ha =>
    split
    next => exact List.forall_mem_cons.mpr ⟨hadd (hone ha), by simp⟩
    next hb =>
      refine List.forall_mem_singleton.mpr (hadd ?_)
      exact List.not_mem_cons_of_ne_of_not_mem (Ne.symm ha) (hone hb)

theorem carriageReturn_not_mem_lead (r : SbdReply) : carriageReturn ∉ r.lead := by
  unfold lead
  split <;> decide

theorem Whole.lines (h : r.Whole) (hchunks : chunks.flatten = r.text ++ [carriageReturn]) :
    (receiveAll crDelimiter {} chunks).lines =
      endLines (r.lead ++ r.sizeField ++ r.payload) r.checksum.1 r.checksum.2 := by
  refine receiveAll_lines rfl (clean_endLines ?_) ?_
  · have hlead := r.carriageReturn_not_mem_lead
    unfold Whole at h
    simp_all
  · rw [hchunks, terminated_endLines, text, List.append_assoc _ [_, _]]
    rfl

theorem packet_lines {body : Bytes} (hbody : r.payload = body ++ [carriageReturn])
    (h : carriageReturn ∉ r.sizeField ++ body)
    (hchunks : chunks.flatten = r.text ++ [carriageReturn]) :
    (receiveAll crDelimiter {} chunks).lines =
      (r.lead ++ r.sizeField ++ body) :: endLines [] r.checksum.1 r.checksum.2 := by
  refine receiveAll_lines rfl ?_ ?_
  · intro line hline
    rcases List.mem_cons.mp hline with rfl | hline
    · have hlead := r.carriageReturn_not_mem_lead
      simp_all
    · exact clean_endLines List.not_mem_nil line hline
  · rw [hchunks, terminated_cons, terminated_endLines, text, hbody]
    simp

end SbdReply

inductive SerialInput where
  | line (now : ℚ) (text : Bytes)
  | tick (now : ℚ)

namespace SerialInput

def run (env : MobileEnv) : SerialInput → FsmM Unit
  | .line now text => IridiumFsm.processEvent env now (.rxSerial text)
  | .tick now => IridiumFsm.processEvent env now .txSerial

def line? : SerialInput → Option Bytes
  | .line _ text => some text
  | .tick _ => none

@[simp] theorem line?_line (now : ℚ) (text : Bytes) : (line now text).line? = some text := rfl

def runAll (env : MobileEnv) : List SerialInput → FsmM Unit
  | [] => pure ()
  | i :: inputs => do
      i.run env
      runAll env inputs

/-- Nothing but ticks comes before the first line and after the last one. -/
def Contiguous (inputs : List SerialInput) : Prop :=
  ∃ before lines after, inputs = before ++ lines ++ after ∧ (∀ i ∈ before, i.line? = none) ∧
    (∀ i ∈ lines, i.line? ≠ none) ∧ ∀ i ∈ after, i.line? = none

theorem exists_line {inputs : List SerialInput} (h : ∀ i ∈ inputs, i.line? ≠ none) {text : Bytes}
    {texts : List Bytes} (htexts : inputs.filterMap line? = text :: texts) :
    ∃ now rest, inputs = .line now text :: rest ∧ (∀ i ∈ rest, i.line? ≠ none) ∧
      rest.filterMap line? = texts := by
  cases inputs with
  | nil => cases htexts
  | cons i rest =>
    obtain ⟨hi, hrest⟩ := List.forall_mem_cons.mp h
    cases i with
    | tick now => exact absurd rfl hi
    | line now text' =>
      rw [List.filterMap_cons_some (line?_line now text')] at htexts
      obtain ⟨rfl, rfl⟩ := List.cons.inj htexts
      exact ⟨now, rest, rfl, hrest, rfl⟩

end SerialInput

namespace IridiumFsm

open SbdReply SerialInput

variable {env : MobileEnv} {s : IridiumFsm} {c : IridiumCommand} {msg : DriverTransmission}
  {inputs : List SerialInput} {r : SbdReply} {received : List DriverTransmission}
  {rest : List Bytes}

/-- One message is added to those received, and `+SBDRB` is done with. -/
def Delivers (env : MobileEnv) (inputs : List SerialInput) (msg : DriverTransmission)
    (s : IridiumFsm) : Prop :=
  ∃ s', runAll env inputs s = .ok () s' ∧ s'.received = circularPush 10 s.received msg ∧
    s'.command.bind front? ≠ some sbdRead

def collected (s : IridiumFsm) (line : Bytes) : Option Bytes :=
  match s.command with
  | some c => if c.front? = some sbdRead then announced (accumulate c.sbdRxBuffer line) else none
  | none => none

def Collects (env : MobileEnv) (inputs : List SerialInput) (data : Bytes) (s : IridiumFsm) : Prop :=
  ∃ before now line after s', inputs = before ++ .line now line :: after ∧
    runAll env before s = .ok () s' ∧ s'.collected line = some data

/-- `+SBDRB` was sent, once, and nothing has been read since. -/
structure Awaiting (env : MobileEnv) (c : IridiumCommand) (s : IridiumFsm) : Prop extends Awaits c s where
  buffer : c.sbdRxBuffer = []
  alone : ∀ a ∈ c.atOut.tail, a.command ≠ sbdRead
  config : sbdRead ∉ env.config

/-- No tick before the first line sends the command again. -/
def Waits (c : IridiumCommand) (inputs : List SerialInput) : Prop :=
  ∀ now, .tick now ∈ inputs.takeWhile (fun i => i.line?.isNone) →
    ∀ sent ∈ c.atOut.head?, now ≤ sent.lastSendTime + 2

theorem Waits.of_tick {now : ℚ} (h : Waits c (.tick now :: inputs)) :
    (∀ sent ∈ c.atOut.head?, now ≤ sent.lastSendTime + 2) ∧ Waits c inputs :=
  ⟨h now List.mem_cons_self, fun now' hmem => h now' (List.mem_cons_of_mem _ hmem)⟩

theorem Quiet.front (h : Quiet received s) : s.command.bind front? ≠ some sbdRead := by
  obtain ⟨c, hc, -, hout⟩ := h.command
  rw [hc]
  intro hfront
  obtain ⟨a, ha, hcommand⟩ := Option.map_eq_some_iff.mp hfront
  exact hout a (List.mem_of_mem_head? ha) hcommand

/-- The rest of the checksum and later ticks do nothing to what has been received. -/
theorem Quiet.runAll (h : Quiet received s)
    (hposted : s.posted = [])
    (hconfig : sbdRead ∉ env.config) (hshort : ∀ text ∈ inputs.filterMap line?, text.length ≤ 1) :
    ∃ s', runAll env inputs s = .ok () s' ∧ Quiet received s' := by
  induction inputs generalizing s with
  | nil => exact ⟨s, rfl, h⟩
  | cons i inputs ih =>
    have hstep : ∃ s', i.run env s = .ok () s' ∧ Quiet received s' ∧ s'.posted = [] := by
      cases i with
      | line now text => exact h.processEvent hposted hconfig now (hshort text (by simp))
      | tick now => exact h.processEvent hposted hconfig now trivial
    obtain ⟨s', hrun, hs', hnil⟩ := hstep
    have hrest : ∀ text ∈ inputs.filterMap line?, text.length ≤ 1 := by
      intro text htext
      obtain ⟨j, hj, hjt⟩ := List.mem_filterMap.mp htext
      exact hshort text (List.mem_filterMap.mpr ⟨j, List.mem_cons_of_mem _ hj, hjt⟩)
    obtain ⟨t, ht, hquiet⟩ := ih hs' hnil hrest
    refine ⟨t, ?_, hquiet⟩
    rw [SerialInput.runAll, run_bind, hrun]
    exact ht

theorem Awaits.delivers (h : Awaits c s) (halone : ∀ a ∈ c.atOut.tail, a.command ≠ sbdRead)
    (hconfig : sbdRead ∉ env.config) {line data : Bytes} (hline : ¬(c.sbdRxBuffer = [] ∧ line = []))
    (hdata : announced (accumulate c.sbdRxBuffer line) = some data) (hmsg : DecodesTo env data msg)
    (hshort : ∀ text ∈ inputs.filterMap line?, text.length ≤ 1) (now : ℚ) :
    Delivers env (.line now line :: inputs) msg s := by
  have hquiet : Quiet (circularPush 10 s.received msg) (completed c line msg s) := by
    refine ⟨⟨_, rfl, rfl, fun a ha => ?_⟩, rfl⟩
    rcases mem_circularPush ha with ha | rfl
    · exact halone a ha
    · decide
  obtain ⟨s', hrun, hs'⟩ := hquiet.runAll h.posted hconfig hshort
  refine ⟨s', ?_, hs'.received, hs'.front⟩
  rw [SerialInput.runAll, run_bind, SerialInput.run, h.line_complete hline hdata hmsg]
  exact hrun

theorem Awaiting.run_tick (h : Awaiting env c s) {now : ℚ}
    (hnow : ∀ sent ∈ c.atOut.head?, now ≤ sent.lastSendTime + 2) :
    SerialInput.run env (.tick now) s = .ok () s := by
  obtain ⟨sent, hsent, -⟩ := Option.map_eq_some_iff.mp h.front
  have hsame : s.setCommand { c with sbdRxBuffer := [] } = s := by
    have hc : { c with sbdRxBuffer := [] } = c := by
      rw [← h.buffer]
    rw [hc, setCommand, ← h.command]
  rw [SerialInput.run, h.tick hsent (hnow sent hsent), hsame]

theorem Awaiting.runAll_ticks (h : Awaiting env c s) {before later : List SerialInput}
    (hbefore : ∀ i ∈ before, i.line? = none) (hwaits : Waits c (before ++ later))
    (after : List SerialInput) :
    SerialInput.runAll env (before ++ after) s = SerialInput.runAll env after s := by
  induction before with
  | nil => rfl
  | cons i before ih =>
    obtain ⟨hi, hrest⟩ := List.forall_mem_cons.mp hbefore
    cases i with
    | line now text => cases hi
    | tick now =>
      obtain ⟨hnow, hlater⟩ := Waits.of_tick hwaits
      rw [List.cons_append, SerialInput.runAll, run_bind, h.run_tick hnow]
      exact ih hrest hlater

/-- A reply that is complete with its first line is received whatever ticks there are. -/
theorem Awaiting.first_line (h : Awaiting env c s) (hwaits : Waits c inputs)
    {first data : Bytes} (hlines : inputs.filterMap line? = first :: rest)
    (hne : first ≠ []) (hdata : announced (accumulate [] first) = some data)
    (hmsg : DecodesTo env data msg) (hshort : ∀ text ∈ rest, text.length ≤ 1) :
    Delivers env inputs msg s ∧ Collects env inputs data s := by
  obtain ⟨before, i, after, rfl, hbefore, hi, rfl⟩ := List.filterMap_eq_cons_iff.mp hlines
  cases i with
  | tick now => cases hi
  | line now text =>
    obtain rfl := Option.some.inj hi
    have hticks := h.runAll_ticks hbefore hwaits
    obtain ⟨s', hrun, hdelivered⟩ := h.delivers h.alone h.config (fun hnil => hne hnil.2)
      (by rwa [h.buffer]) hmsg hshort now
    refine ⟨⟨s', (hticks _).trans hrun, hdelivered⟩, before, now, text, after, s, rfl, ?_, ?_⟩
    · simpa [SerialInput.runAll, run_pure] using hticks []
    · simp only [collected, h.command, h.front, if_true, h.buffer, hdata]

theorem parseRudicsPacket_last (crc : Bytes → UInt32) (body : Bytes) (a b : UInt8) :
    parseRudicsPacket crc (body ++ [a]) = parseRudicsPacket crc (body ++ [b]) := by
  simp [parseRudicsPacket]

def untilReturn (r : SbdReply) (body : Bytes) (c : IridiumCommand) : IridiumCommand :=
  { c with sbdRxBuffer := r.sizeField ++ body }

section Packet

variable {r : SbdReply} {body : Bytes} (hbody : r.payload = body ++ [carriageReturn])

include hbody

theorem announced_body : announced (r.sizeField ++ body) = none := by
  rw [announced_sizeField, if_pos]
  rw [hbody, List.length_append]
  exact Nat.lt_succ_self _

theorem announced_next (b : UInt8) (rest : Bytes) :
    announced (accumulate (r.sizeField ++ body) (b :: rest)) = some (body ++ [b]) := by
  have haccumulate : accumulate (r.sizeField ++ body) (b :: rest) = r.sizeField ++ (body ++ b :: rest) := by
    rw [accumulate, if_neg fun h => absurd h.1 (by simp [sizeField]), List.append_assoc]
  have hlen : r.payload.length = body.length + 1 := by rw [hbody, List.length_append]; rfl
  rw [haccumulate, announced_sizeField, if_neg, hlen]
  · simp [List.take_append]
  · rw [hlen, List.length_append, List.length_cons]
    omega

section

variable (h : Awaiting env c s) (hmsg : DecodesTo env r.payload msg)
include h hmsg

theorem packet_end (now : ℚ) (b : UInt8) (rest : Bytes) {inputs : List SerialInput}
    (hshort : ∀ text ∈ inputs.filterMap line?, text.length ≤ 1) :
    Delivers env (.line now (b :: rest) :: inputs) msg (s.setCommand (untilReturn r body c)) := by
  have hdecodes : DecodesTo env (body ++ [b]) msg := by
    obtain ⟨bytes, hparse, hmsg⟩ := hmsg
    rw [hbody, parseRudicsPacket_last env.crc body carriageReturn b] at hparse
    exact ⟨bytes, hparse, hmsg⟩
  have hawaits : Awaits (untilReturn r body c) (s.setCommand (untilReturn r body c)) :=
    ⟨rfl, h.front, h.sbd, h.posted⟩
  exact hawaits.delivers h.alone h.config (by simp) (announced_next hbody b rest) hdecodes hshort now

/-- Lines after the first one complete a packet, one way or another. -/
theorem packet_rest (hne : r.checksum ≠ (carriageReturn, carriageReturn)) {lines after : List SerialInput}
    (hall : ∀ i ∈ lines, i.line? ≠ none) (hafter : ∀ i ∈ after, i.line? = none)
    (hlines : lines.filterMap line? = endLines [] r.checksum.1 r.checksum.2) :
    Delivers env (lines ++ after) msg (s.setCommand (untilReturn r body c)) := by
  have hticks : after.filterMap line? = [] := List.filterMap_eq_nil_iff.mpr hafter
  unfold endLines at hlines
  split at hlines
  next ha =>
    split at hlines
    next hb => exact absurd (Prod.ext ha hb) hne
    next hb =>
      -- the first line is empty, and the last byte of the checksum completes the packet
      obtain ⟨now, rest, rfl, hall, hrest⟩ := exists_line hall hlines
      obtain ⟨now', rest', rfl, -, hnil⟩ := exists_line hall hrest
      have hawaits : Awaits (untilReturn r body c) (s.setCommand (untilReturn r body c)) :=
        ⟨rfl, h.front, h.sbd, h.posted⟩
      have hsame : accumulate (r.sizeField ++ body) [] = r.sizeField ++ body := by simp [accumulate]
      have hshort : ∀ text ∈ (rest' ++ after).filterMap line?, text.length ≤ 1 := by simp [hnil, hticks]
      obtain ⟨s', hrun, hdelivered⟩ := packet_end hbody h hmsg now' r.checksum.2 [] hshort
      refine ⟨s', ?_, hdelivered⟩
      rw [List.cons_append, SerialInput.runAll, run_bind, SerialInput.run,
        hawaits.line_more (by simp [untilReturn, sizeField]) (by rw [untilReturn, hsame, announced_body hbody])]
      simp only [untilReturn, hsame]
      exact hrun
  next ha =>
    split at hlines
    all_goals
      obtain ⟨now, rest, rfl, hall, hrest⟩ := exists_line hall hlines
      exact packet_end hbody h hmsg now _ _ (by simp [hrest, hticks])

end

end Packet

theorem length_endLines (text : Bytes) (a b : UInt8) :
    ∃ added rest, endLines text a b = (text ++ added) :: rest ∧ ∀ line ∈ rest, line.length ≤ 1 := by
  unfold endLines
  split
  · split
    · exact ⟨[], [[], []], by rw [List.append_nil], by simp⟩
    · exact ⟨[], [[b]], by rw [List.append_nil], by simp⟩
  · split
    · exact ⟨[a], [[]], rfl, by simp⟩
    · exact ⟨[a, b], [], rfl, by simp⟩

/-- The first line of a reply without carriage returns has all of its data. -/
theorem announced_first (hr : r.Starts) (added : Bytes) :
    announced (accumulate [] (r.lead ++ r.sizeField ++ r.payload ++ added)) = some r.payload := by
  rw [List.append_assoc, accumulate_start hr, announced_sizeField, if_neg (by simp), List.take_left]

theorem Awaiting.whole (h : Awaiting env c s) (hr : r.Starts)
    (hmsg : DecodesTo env r.payload msg) (hwaits : Waits c inputs) {added : Bytes}
    (hlines : inputs.filterMap line? = (r.lead ++ r.sizeField ++ r.payload ++ added) :: rest)
    (hshort : ∀ line ∈ rest, line.length ≤ 1) :
    Delivers env inputs msg s ∧ Collects env inputs r.payload s :=
  h.first_line hwaits hlines (by simp [sizeField]) (announced_first hr added) hmsg hshort

theorem Awaiting.packet (h : Awaiting env c s) (hr : r.Starts) (hp : r.Packet)
    (hmsg : DecodesTo env r.payload msg) {chunks : List Bytes}
    (hchunks : chunks.flatten = r.text ++ [carriageReturn])
    (hlines : inputs.filterMap line? = (receiveAll crDelimiter {} chunks).lines)
    (hwaits : Waits c inputs) (hcontiguous : Contiguous inputs) : Delivers env inputs msg s := by
  obtain ⟨body, hbody, hclean, hne⟩ := hp
  obtain ⟨before, lines, after, rfl, hbefore, hall, hafter⟩ := hcontiguous
  rw [packet_lines hbody hclean hchunks, List.append_assoc, List.filterMap_append,
    List.filterMap_append, List.filterMap_eq_nil_iff.mpr hbefore, List.filterMap_eq_nil_iff.mpr hafter,
    List.nil_append, List.append_nil] at hlines
  obtain ⟨now, rest, rfl, hall, hrest⟩ := exists_line hall hlines
  obtain ⟨s', hrun, hdelivered⟩ := packet_rest hbody h hmsg hne hall hafter hrest
  have hread : accumulate c.sbdRxBuffer (r.lead ++ r.sizeField ++ body) = r.sizeField ++ body := by
    rw [h.buffer, accumulate_start hr]
  refine ⟨s', ?_, hdelivered⟩
  rw [List.append_assoc] at hwaits ⊢
  rw [h.runAll_ticks hbefore hwaits, List.cons_append, SerialInput.runAll, run_bind, SerialInput.run,
    h.line_more (by simp [sizeField]) (by rw [hread, announced_body hbody]), hread]
  exact hrun

theorem Clean.runAll (h : Clean s) (hlines : ∀ text ∈ inputs.filterMap line?, carriageReturn ∉ text) :
    StaysClean (SerialInput.runAll env inputs) s := by
  induction inputs generalizing s with
  | nil => exact h
  | cons i inputs ih =>
    have hstep : StaysClean (i.run env) s := by
      cases i with
      | line now text =>
        refine h.processEvent (fun line heq => ?_) now
        rw [← IridiumEvent.rxSerial.inj heq]
        exact hlines text (by simp)
      | tick now =>
        have hclean : CleanEvent .txSerial := fun line heq => IridiumEvent.noConfusion heq
        exact h.processEvent hclean now
    refine Ensures.bind (Ensures.mono hstep (fun _ t ht => ih ht fun text htext => ?_) fun _ _ _ => trivial)
    obtain ⟨j, hj, hjt⟩ := List.mem_filterMap.mp htext
    exact hlines text (List.mem_filterMap.mpr ⟨j, List.mem_cons_of_mem _ hj, hjt⟩)

theorem whole_of_announced {buffer : Bytes} (h : announced buffer = some r.payload)
    (hclean : carriageReturn ∉ buffer) : r.Whole := by
  match buffer with
  | [] => cases h
  | [_] => cases h
  | high :: low :: rest =>
    have hsize : ¬rest.length < high.toNat * 256 + low.toNat ∧
        rest.take (high.toNat * 256 + low.toNat) = r.payload := by
      change (if rest.length < _ then none else some (rest.take _)) = _ at h
      split at h
      · cases h
      next hle => exact ⟨hle, Option.some.inj h⟩
    obtain ⟨hle, hpayload⟩ := hsize
    have hlen : r.payload.length = high.toNat * 256 + low.toNat := by
      rw [← hpayload, List.length_take]
      omega
    have hfield : r.sizeField = [high, low] := by
      have hlow := low.toNat_lt
      have hhigh : r.payload.length / 256 = high.toNat := by omega
      have hlast : UInt8.ofNat r.payload.length = low := by
        apply UInt8.toNat.inj
        rw [UInt8.toNat_ofNat']
        omega
      rw [sizeField, hhigh, hlast, UInt8.ofNat_toNat]
    rw [Whole, hfield]
    intro hmem
    rcases List.mem_append.mp hmem with hmem | hmem
    · exact hclean (List.mem_append_left rest hmem)
    · rw [← hpayload] at hmem
      exact hclean (List.mem_cons_of_mem _ (List.mem_cons_of_mem _ (List.mem_of_mem_take hmem)))

theorem Awaiting.whole_of_collects (h : Awaiting env c s)
    (hlines : ∀ text ∈ inputs.filterMap line?, carriageReturn ∉ text)
    (hcollects : Collects env inputs r.payload s) : r.Whole := by
  obtain ⟨before, now, line, after, s', rfl, hrun, hcollected⟩ := hcollects
  have hstart : Clean s := by
    refine ⟨?_, fun e he => ?_⟩
    · rw [← replyBuffer_eq h.command, h.buffer]
      exact List.not_mem_nil
    · rw [h.posted] at he
      cases he
  rw [List.filterMap_append, List.filterMap_cons_some (line?_line now line)] at hlines
  have hclean : StaysClean (SerialInput.runAll env before) s :=
    hstart.runAll fun text htext => hlines text (List.mem_append_left _ htext)
  unfold StaysClean Ensures at hclean
  rw [hrun] at hclean
  have hline : carriageReturn ∉ line := hlines line (by simp)
  unfold collected at hcollected
  split at hcollected
  next c' hc' =>
    split at hcollected
    · exact whole_of_announced hcollected (accumulate_clean (replyBuffer_eq hc' ▸ hclean.buffer) hline)
    · cases hcollected
  next => cases hcollected

/-- In one piece, the reply is received as it is. In lines, its data is collected as it was sent if
and only if neither it nor its size has a carriage return, and then the message is received
whatever ticks there are. It is also received if the only carriage return ends the data and no
tick comes between the lines. -/
theorem sbd_reply_received (h : Awaiting env c s) {r : SbdReply} (hr : r.Starts)
    (hmsg : DecodesTo env r.payload msg) :
    (∀ now, Delivers env [.line now r.text] msg s ∧ Collects env [.line now r.text] r.payload s) ∧
    ∀ (chunks : List Bytes) (inputs : List SerialInput),
      chunks.flatten = r.text ++ [carriageReturn] →
      inputs.filterMap line? = (receiveAll crDelimiter {} chunks).lines → Waits c inputs →
      (r.Whole → Delivers env inputs msg s) ∧ (Collects env inputs r.payload s ↔ r.Whole) ∧
      (r.Packet → Contiguous inputs → Delivers env inputs msg s) := by
  refine ⟨fun now => ?_, fun chunks inputs hchunks hlines hwaits => ?_⟩
  · have hwaits : Waits c [.line now r.text] := fun now' hmem => (List.not_mem_nil hmem).elim
    have hlines : [SerialInput.line now r.text].filterMap line? =
        (r.lead ++ r.sizeField ++ r.payload ++ [r.checksum.1, r.checksum.2]) :: [] := rfl
    exact h.whole hr hmsg hwaits hlines fun line hline => nomatch hline
  · have hwhole : r.Whole → Delivers env inputs msg s ∧ Collects env inputs r.payload s := by
      intro hw
      obtain ⟨added, rest, hrest, hshort⟩ :=
        length_endLines (r.lead ++ r.sizeField ++ r.payload) r.checksum.1 r.checksum.2
      rw [hw.lines hchunks, hrest] at hlines
      exact h.whole hr hmsg hwaits hlines hshort
    refine ⟨fun hw => (hwhole hw).1, ⟨fun hc => h.whole_of_collects ?_ hc, fun hw => (hwhole hw).2⟩, ?_⟩
    · rw [hlines]
      exact (receiveAll_reads crDelimiter chunks).1.clean
    · exact fun hp => h.packet hr hp hmsg hchunks hlines hwaits

/-- The environment, message and reply of an example: a short burst from modem 1 to modem 2. -/
def sampleMobile : MobileEnv where
  codec := byteHeaderCodec
  crc := crc32
  modemId := 2

def sampleBurst : DriverTransmission where
  src := 1
  dest := some 2
  type := .data
  frame := [[0x61]]

def sampleReply : SbdReply where
  leftOver := true
  payload := serializeRudicsPacket crc32 [1, 2, 0, 1, 0, 0, 0, 0, 0, 0, 0, 0x61]
  checksum := (5, 6)
  short := by decide +kernel

def sampleCommand : IridiumCommand where
  leaf := .ready
  sbd := .receive
  atOut := [{ command := sbdRead, lastSendTime := 10, tries := 1 }]

def sampleFsm : IridiumFsm := { command := some sampleCommand }

theorem sample_awaiting : Awaiting sampleMobile sampleCommand sampleFsm where
  command := rfl
  front := rfl
  sbd := rfl
  posted := rfl
  buffer := rfl
  alone := fun _ ha => nomatch ha
  config := List.not_mem_nil

theorem sample_decodes : DecodesTo sampleMobile sampleReply.payload sampleBurst :=
  ⟨[1, 2, 0, 1, 0, 0, 0, 0, 0, 0, 0, 0x61], by decide +kernel, by decide +kernel⟩

def sampleLines : List Bytes :=
  [sampleReply.lead ++ sampleReply.sizeField ++ sampleReply.payload.dropLast, [5, 6]]

theorem sampleLines_eq :
    (receiveAll crDelimiter {} [sampleReply.text ++ [carriageReturn]]).lines = sampleLines :=
  packet_lines (by decide +kernel) (by decide +kernel) (by simp)

theorem sbd_reply_received_sample :
    Delivers sampleMobile (sampleLines.map (.line 11)) sampleBurst sampleFsm := by
  refine ((sbd_reply_received sample_awaiting (.inl rfl) sample_decodes).2
    [sampleReply.text ++ [carriageReturn]] _ (by simp) ?_ ?_).2.2 ?_ ?_
  · rw [sampleLines_eq]
    rfl
  · exact fun now hmem => (List.not_mem_nil hmem).elim
  · exact ⟨sampleReply.payload.dropLast, by decide +kernel, by decide +kernel, by decide⟩
  · exact ⟨[], sampleLines.map (.line 11), [], by simp, by simp, by simp, by simp⟩

/-- A tick between the two lines, which does not send the command again, and the message of the
reply is not received. -/
theorem reply_discarded :
    Awaiting sampleMobile sampleCommand sampleFsm ∧ sampleReply.Starts ∧
      DecodesTo sampleMobile sampleReply.payload sampleBurst ∧
      Delivers sampleMobile [.line 11 sampleReply.text] sampleBurst sampleFsm ∧
      sampleLines = (receiveAll crDelimiter {} [sampleReply.text ++ [carriageReturn]]).lines ∧
      ∃ s', SerialInput.runAll sampleMobile
          [.line 11 (sampleLines.headD []), .tick 11, .line 11 (sampleLines.tail.headD [])] sampleFsm =
            .ok () s' ∧
        s'.received = [] ∧ s'.command.bind front? = some sbdRead ∧ s'.serialTx = [] := by
  have hone : Delivers sampleMobile [.line 11 sampleReply.text] sampleBurst sampleFsm :=
    sample_awaiting.delivers sample_awaiting.alone sample_awaiting.config (by decide +kernel)
      (by decide +kernel) sample_decodes (by simp) 11
  -- the first line is kept until the tick, and the checksum is then taken for a size
  have hawaits : ∀ buffer, Awaits { sampleCommand with sbdRxBuffer := buffer }
      (sampleFsm.setCommand { sampleCommand with sbdRxBuffer := buffer }) := fun _ => ⟨rfl, rfl, rfl, rfl⟩
  have hfirst : processEvent sampleMobile 11 (.rxSerial (sampleLines.headD [])) sampleFsm =
      .ok () (sampleFsm.setCommand { sampleCommand with
        sbdRxBuffer := accumulate [] (sampleLines.headD []) }) :=
    sample_awaiting.line_more (by decide +kernel) (by decide +kernel)
  have htick : processEvent sampleMobile 11 .txSerial (sampleFsm.setCommand { sampleCommand with
      sbdRxBuffer := accumulate [] (sampleLines.headD []) }) =
      .ok () (sampleFsm.setCommand { sampleCommand with sbdRxBuffer := [] }) :=
    (hawaits _).tick rfl (by norm_num)
  have hsecond : processEvent sampleMobile 11 (.rxSerial (sampleLines.tail.headD []))
      (sampleFsm.setCommand { sampleCommand with sbdRxBuffer := [] }) =
      .ok () (sampleFsm.setCommand { sampleCommand with sbdRxBuffer := [5, 6] }) :=
    (hawaits []).line_more (by decide +kernel) (by decide +kernel)
  refine ⟨sample_awaiting, .inl rfl, sample_decodes, hone, sampleLines_eq.symm,
    sampleFsm.setCommand { sampleCommand with sbdRxBuffer := [5, 6] }, ?_, rfl, rfl, rfl⟩
  simp only [SerialInput.runAll, SerialInput.run, run_bind, hfirst, htick, hsecond, run_pure]

end IridiumFsm

end Goby
