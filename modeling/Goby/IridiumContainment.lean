import Goby.IridiumCalls
import Goby.MobileContainment
import Goby.SbdReplies

/-! The shore driver catches bad packets on calls and in short bursts, but not a header that cannot be
decoded, on either path. Together with the mobile driver: malformed input is contained if and only
if no packet with a good checksum has a bad header, and answers to `+SBDRB` are good packets. -/

namespace Goby

namespace IridiumShore

variable {env : ShoreEnv} {now : ℚ} {s : IridiumShore} {msg : DriverTransmission} {c : ShoreCall}
  {data : Bytes}

namespace ShoreCall

theorem run_throws (hc : ¬c.Contained env) : ∃ e, c.run env s = .error (.thrown e) s := by
  cases c with
  | line now data connection =>
    obtain ⟨hgreeting, hheader⟩ := not_or.mp hc
    obtain ⟨hgoby, hbye⟩ := not_or.mp hgreeting
    obtain ⟨e, he⟩ := not_forall.mp hheader
    refine ⟨e, ?_⟩
    simp only [run, rudicsLine, if_neg hgoby, if_neg hbye, not_not.mp he, run_throw]
  | sbd now payload =>
    obtain ⟨e, he⟩ := not_forall.mp hc
    refine ⟨e, ?_⟩
    simp only [run, receiveSbdMo, not_not.mp he, run_throw]
  | connect connection => exact absurd trivial hc
  | disconnect connection => exact absurd trivial hc
  | doWork now signals => exact absurd trivial hc
  | initiate now signals msg => exact absurd trivial hc

/-- The shore driver returns from an event that keeps its books if and only if it is contained. -/
theorem run_iff (hs : Booked s) (hacks : AcksEncode env) (hr : IridiumShore.Regular env s c)
    (hsend : c.Encodable env) : ReturnsIff (c.run env) s (c.Contained env) Booked := by
  by_cases hc : c.Contained env
  · have hkeeps : KeepsBooks False (c.run env) s := run_keepsBooks hs hr (.inr ⟨hacks, hsend, hc⟩)
    unfold KeepsBooks Ensures at hkeeps
    cases hrun : c.run env s with
    | ok a s' =>
      rw [hrun] at hkeeps
      exact .returns hrun hkeeps hc
    | error e s' =>
      rw [hrun] at hkeeps
      exact hkeeps.1.2.elim
  · obtain ⟨e, he⟩ := run_throws (s := s) hc
    exact .throws he hc

end ShoreCall

def ShoreCall.packet? : ShoreCall → Option Bytes
  | .line _ data _ => if IsGreeting data then none else some data
  | .sbd _ payload => some payload
  | .connect _ => none
  | .disconnect _ => none
  | .doWork _ _ => none
  | .initiate _ _ _ => none

/-- A message that is received is the last thing that the driver tells of. -/
def Receives (msg : DriverTransmission) (m : ShoreM Unit) (s : IridiumShore) : Prop :=
  Ensures m s (fun _ s' => s'.out.getLast? = some (.received msg)) fun _ _ => True

theorem receive_receives (msg : DriverTransmission) : Receives msg (receive env now msg) s :=
  Ensures.bind_any fun _ _ => List.getLast?_concat

theorem ShoreCall.run_receives {c : ShoreCall}
    (hdata : c.packet? = some data) (hmsg : decodePacket env data = .ok (.ok msg)) :
    Receives msg (c.run env) s := by
  cases c with
  | line now data' connection =>
    change (if IsGreeting data' then none else some data') = some data at hdata
    split at hdata
    · cases hdata
    next hgreeting =>
      cases hdata
      obtain ⟨hgoby, hbye⟩ := not_or.mp hgreeting
      rw [run, rudicsLine, if_neg hgoby, if_neg hbye, hmsg]
      exact Ensures.bind_any fun _ _ => Ensures.bind_any fun _ _ => Ensures.bind_any fun _ _ =>
        receive_receives msg
  | sbd now payload =>
    cases hdata
    rw [run, receiveSbdMo, hmsg]
    exact receive_receives msg
  | connect connection => cases hdata
  | disconnect connection => cases hdata
  | doWork now signals => cases hdata
  | initiate now signals msg => cases hdata

end IridiumShore

open IridiumFsm IridiumCommand MobileDriver

/-- As long as what is sent can be encoded, and on shore no event confuses the calls: the mobile
driver returns from its work if and only if it can take the lines that it reads; it then takes a
later packet on a call, and is done with `+SBDRB` as soon as the data is complete. The shore driver
returns from an event if and only if the header of a packet that is not bad can be decoded, and
then hands over the message. -/
theorem malformed_input_contained {env : MobileEnv} {shore : ShoreEnv} (hacks : IridiumFsm.AcksEncode env)
    (hacks' : IridiumShore.AcksEncode shore) :
    (∀ d, MobileRuns env d →
      (∀ c : MobileCall, c.Regular env → ((∃ u d', c.run env d = .ok u d') ↔ c.Contained env d)) ∧
      (∀ now line msg, d.fsm.command = none → d.fsm.onCall ≠ none → ¬IsText line →
        DecodesTo env line msg → ∃ s', processEvent env now (.rxSerial line) d.fsm = .ok () s' ∧
          s'.received = circularPush 10 d.fsm.received msg) ∧
      ∀ now line c data, Awaits c d.fsm → IridiumFsm.Contained env line d.fsm →
        announced (accumulate c.sbdRxBuffer line) = some data →
        ∃ msg s', processEvent env now (.rxSerial line) d.fsm = .ok () s' ∧
          s'.received = circularPush 10 d.fsm.received msg ∧
          s'.command.map atOut = some (circularPush 100 c.atOut.tail { command := [] })) ∧
    ∀ s, IridiumShore.ShoreRuns shore s → ∀ c, IridiumShore.Regular shore s c → c.Encodable shore →
      ((∃ u s', c.run shore s = .ok u s') ↔ c.Contained shore) ∧
      ∀ data msg, c.packet? = some data → IridiumShore.decodePacket shore data = .ok (.ok msg) →
        ∀ u s', c.run shore s = .ok u s' → s'.out.getLast? = some (.received msg) := by
  refine ⟨fun d hd => ⟨fun c hc => ?_, fun now line msg hcommand hcall htext hmsg => ?_,
    fun now line c data hc hline hdata => ?_⟩, fun s hs c hr hsend => ⟨?_, fun data msg hdata hmsg u s' hrun => ?_⟩⟩
  · exact (MobileCall.run_iff (idle_of_runs hacks hd) hacks hc).iff
  · obtain ⟨call, hcall⟩ := Option.ne_none_iff_exists'.mp hcall
    obtain ⟨s', hrun, -, hreceived⟩ :=
      call_good_packet now (idle_of_runs hacks hd) hacks hcommand hcall htext hmsg
    exact ⟨s', hrun, hreceived⟩
  · simp only [IridiumFsm.Contained, hc.command, hc.front, forall_const] at hline
    obtain ⟨msg, hmsg⟩ := hline.2 data hdata
    exact ⟨msg, _, hc.line_complete hline.1 hdata hmsg, rfl, rfl⟩
  · exact (IridiumShore.ShoreCall.run_iff (IridiumShore.booked_of_runs hs) hacks' hr hsend).iff
  · have hreceives := IridiumShore.ShoreCall.run_receives (s := s) hdata hmsg
    unfold IridiumShore.Receives Ensures at hreceives
    rw [hrun] at hreceives
    exact hreceives

def sampleWork : MobileCall := .doWork 11 {} [ascii "CONNECT 2400\r", ascii "junk\r", sampleReply.payload]

/-- The mobile driver is called, and takes the packet behind some junk; the shore driver takes a bad
packet. -/
theorem malformed_input_contained_sample :
    (finalState (sampleWork.run sampleMobile) { fsm := initiate sampleMobile }).delivered = [sampleBurst] ∧
      sampleWork.Contained sampleMobile { fsm := initiate sampleMobile } ∧
      ∃ u s', (IridiumShore.ShoreCall.line 0 [0x61] 7).run IridiumShore.sampleShoreEnv {} = .ok u s' := by
  have hacks : IridiumFsm.AcksEncode sampleMobile := fun _ _ _ _ _ => ⟨_, rfl⟩
  have hacks' : IridiumShore.AcksEncode IridiumShore.sampleShoreEnv := fun _ _ _ _ _ => ⟨_, rfl⟩
  have hbad : IridiumShore.decodePacket IridiumShore.sampleShoreEnv [0x61] =
      .error ⟨"Packet too short for CRC32"⟩ := by decide +kernel
  have hregular : sampleWork.Regular sampleMobile := fun _ _ _ => ⟨_, rfl⟩
  have hnone : failureOf (sampleWork.run sampleMobile) { fsm := initiate sampleMobile } = none := by
    decide +kernel
  have hreturns : ∃ u d', sampleWork.run sampleMobile { fsm := initiate sampleMobile } = .ok u d' := by
    unfold failureOf at hnone
    split at hnone
    next u d' hrun => exact ⟨u, d', hrun⟩
    next => cases hnone
  refine ⟨by decide +kernel, ?_, ?_⟩
  · exact (((malformed_input_contained hacks hacks').1 _ .start).1 _ hregular).mp hreturns
  · refine ((malformed_input_contained hacks hacks').2 {} .start (.line 0 [0x61] 7) ?_ trivial).1.mpr (.inr ?_)
    · intro msg hmsg
      rw [hbad] at hmsg
      cases hmsg
    · intro e he
      rw [hbad] at he
      cases he

def shortHeader : Bytes := serializeRudicsPacket crc32 [0x01]

def sampleOnCall : IridiumFsm where
  command := none
  onCall := some { lastTxTime := 0 }

def badReply : SbdReply where
  leftOver := true
  payload := ascii "bad"
  checksum := (1, 39)
  short := by decide

/-- Neither driver survives a header that is too short: the mobile driver on a call, where some junk
came before the carriage return, and the shore driver on a call and in a short burst. The mobile
driver does not survive an answer to `+SBDRB` that is no packet, either, or an empty line before
it. -/
theorem malformed_input_thrown :
    failureOf (MobileDriver.doWork sampleMobile 0 {} [shortHeader.dropLast ++ [0x00]])
        { fsm := sampleOnCall } = some (.thrown (.dccl "too short")) ∧
    failureOf (IridiumShore.rudicsLine IridiumShore.sampleShoreEnv 0 shortHeader 7) {} =
        some (.thrown (.dccl "too short")) ∧
    failureOf (IridiumShore.receiveSbdMo IridiumShore.sampleShoreEnv 0 shortHeader) {} =
        some (.thrown (.dccl "too short")) ∧
    failureOf (MobileDriver.doWork sampleMobile 11 {} [badReply.text]) { fsm := sampleFsm } =
        some (.rudicsPacket ⟨"Packet too short for CRC32"⟩) ∧
    failureOf (MobileDriver.doWork sampleMobile 11 {} [[]]) { fsm := sampleFsm } =
        some (.thrown .outOfRange) := by
  decide +kernel

end Goby
