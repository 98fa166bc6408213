import Goby.TransmissionMessages
import Mathlib.Data.List.Infix

/-! Datagrams wait in a deque, whose front is being written. That a write is in progress is taken
from the deque: a datagram is only queued behind others, and starts a write when it is the first.
The handlers are run one at a time by the I/O service, in any order, and no write fails. -/

namespace Goby

structure Datagram where
  data : Bytes
  dest : Option String := none
deriving DecidableEq, Repr

def Datagram.elsewhere (remote : String) (d : Datagram) : Bool :=
  match d.dest with
  | some dest => dest != remote
  | none => false

/-- The deque `out_`, the calls of `write_start` that are posted, the datagrams that are being
written and those that have been. -/
structure LineWriter where
  out : List Datagram := []
  posted : ℕ := 0
  outstanding : List Datagram := []
  written : List Datagram := []
deriving DecidableEq, Repr

namespace LineWriter

/-- There is no result without a datagram: the front of an empty deque is not defined. -/
def writeStart (remote : String) (w : LineWriter) : Option LineWriter :=
  match w.out with
  | [] => none
  | d :: rest =>
    if d.elsewhere remote then some { w with out := rest }
    else some { w with outstanding := w.outstanding ++ [d] }

/-- The write of `d` has completed. The front is removed from the deque, whichever it is. -/
def writeComplete (remote : String) (d : Datagram) (w : LineWriter) : Option LineWriter :=
  let w' := { w with outstanding := w.outstanding.erase d, written := w.written ++ [d] }
  match w.out with
  | [] => none
  | [_] => some { w' with out := [] }
  | _ :: rest => writeStart remote { w' with out := rest }

def doStart (w : LineWriter) : LineWriter :=
  if w.out.isEmpty then w else { w with posted := w.posted + 1 }

def doWrite (d : Datagram) (w : LineWriter) : LineWriter :=
  { w with
    out := w.out ++ [d]
    posted := if w.out.isEmpty then w.posted + 1 else w.posted }

/-- `socket_write` of a connection to a server, which does not post the call of `write_start`. -/
def socketWrite (remote : String) (d : Datagram) (w : LineWriter) : Option LineWriter :=
  if w.out.isEmpty then writeStart remote { w with out := w.out ++ [d] }
  else some { w with out := w.out ++ [d] }

inductive Handler where
  | doStart
  | doWrite (d : Datagram)
  | socketWrite (d : Datagram)
  | writeStart
  | writeComplete (d : Datagram)
deriving Repr

/-- A start or a datagram can be posted by the program at any time. -/
def Pending (w : LineWriter) : Handler → Prop
  | .writeStart => 0 < w.posted
  | .writeComplete d => d ∈ w.outstanding
  | _ => True

instance (w : LineWriter) (e : Handler) : Decidable (w.Pending e) := by
  cases e <;> simp only [Pending] <;> infer_instance

def perform (remote : String) (w : LineWriter) : Handler → Option LineWriter
  | .doStart => some w.doStart
  | .doWrite d => some (w.doWrite d)
  | .socketWrite d => w.socketWrite remote d
  | .writeStart => writeStart remote { w with posted := w.posted - 1 }
  | .writeComplete d => w.writeComplete remote d

def Handler.given (given : List Datagram) : Handler → List Datagram
  | .doWrite d => given ++ [d]
  | .socketWrite d => given ++ [d]
  | _ => given

/-- The states of a connection to `remote`, with the datagrams given to it, after handlers that
are all allowed. -/
inductive Runs (remote : String) (allowed : LineWriter → Handler → Prop) :
    List Datagram → LineWriter → Prop
  | new : Runs remote allowed [] {}
  | handle {given : List Datagram} {w w' : LineWriter} (e : Handler)
    (h : Runs remote allowed given w) (hp : w.Pending e) (he : allowed w e)
    (hw : w.perform remote e = some w') : Runs remote allowed (e.given given) w'

def ours (remote : String) (ds : List Datagram) : List Datagram :=
  ds.filter fun d => !d.elsewhere remote

/-- The datagrams are written once and in order, by one write at a time, and a datagram that
waits is waiting for a write. -/
structure Delivers (remote : String) (given : List Datagram) (w : LineWriter) : Prop where
  begun : w.written ++ w.outstanding <+: ours remote given
  kept : w.written ++ ours remote w.out = ours remote given
  single : w.outstanding.length ≤ 1
  moving : w.out ≠ [] → w.outstanding ≠ [] ∨ 0 < w.posted

/-- A client is started only while its deque is empty, and a datagram for another endpoint is
discarded only when it is the last. -/
def Orderly (remote : String) (w : LineWriter) : Handler → Prop
  | .doStart => w.out = []
  | .writeStart => ∀ d rest, w.out = d :: rest → d.elsewhere remote → rest = []
  | .writeComplete _ => ∀ d d' rest, w.out = d :: d' :: rest → d'.elsewhere remote → rest = []
  | _ => True

/-- As many writes are scheduled or outstanding as the deque calls for. -/
def OneWrite (w : LineWriter) : Prop :=
  w.posted + w.outstanding.length = if w.out = [] then 0 else 1

variable {remote : String} {given : List Datagram} {w w' : LineWriter} {d : Datagram}

theorem ours_append (ds ds' : List Datagram) :
    ours remote (ds ++ ds') = ours remote ds ++ ours remote ds' := List.filter_append ..

theorem ours_cons_of_elsewhere (h : d.elsewhere remote = true) (ds : List Datagram) :
    ours remote (d :: ds) = ours remote ds := by simp [ours, h]

theorem ours_cons_of_not_elsewhere (h : d.elsewhere remote = false)
    (ds : List Datagram) : ours remote (d :: ds) = d :: ours remote ds := by simp [ours, h]

/-- Nothing, about to write the front of the deque, or writing it. -/
inductive Phase (remote : String) : LineWriter → Prop
  | idle (written : List Datagram) : Phase remote ⟨[], 0, [], written⟩
  | scheduled (d : Datagram) (rest written : List Datagram) :
    Phase remote ⟨d :: rest, 1, [], written⟩
  | writing (d : Datagram) (rest written : List Datagram) (hd : d.elsewhere remote = false) :
    Phase remote ⟨d :: rest, 0, [d], written⟩

theorem Phase.oneWrite (h : Phase remote w) : w.OneWrite := by
  cases h <;> simp [OneWrite]

theorem phase_writeStart {rest : List Datagram}
    (h : d.elsewhere remote → rest = []) (written : List Datagram) :
    ∃ w', writeStart remote ⟨d :: rest, 0, [], written⟩ = some w' ∧ Phase remote w' ∧
      w'.written ++ ours remote w'.out = written ++ ours remote (d :: rest) := by
  cases hd : d.elsewhere remote with
  | true =>
    obtain rfl := h hd
    refine ⟨⟨[], 0, [], written⟩, by simp [writeStart, hd], .idle written, ?_⟩
    rw [ours_cons_of_elsewhere hd]
  | false =>
    exact ⟨⟨d :: rest, 0, [d], written⟩, by simp [writeStart, hd], .writing d rest written hd, rfl⟩

/-- A handler that is run as it should be has a result, and what is still to be written is what
was and what the handler adds. -/
theorem Phase.perform (h : Phase remote w) {e : Handler} (hp : w.Pending e)
    (he : Orderly remote w e) : ∃ w', w.perform remote e = some w' ∧ Phase remote w' ∧
      w'.written ++ ours remote w'.out = w.written ++ ours remote (e.given w.out) := by
  cases e with
  | doStart =>
    have hout : w.out = [] := he
    exact ⟨w, by simp [LineWriter.perform, doStart, hout], h, rfl⟩
  | doWrite d =>
    refine ⟨w.doWrite d, rfl, ?_, rfl⟩
    cases h with
    | idle written => exact .scheduled d [] written
    | scheduled d₀ rest written => exact .scheduled d₀ (rest ++ [d]) written
    | writing d₀ rest written hd => exact .writing d₀ (rest ++ [d]) written hd
  | socketWrite d =>
    cases h with
    | idle written => exact phase_writeStart (fun _ => rfl) written
    | scheduled d₀ rest written => exact ⟨_, rfl, .scheduled d₀ (rest ++ [d]) written, rfl⟩
    | writing d₀ rest written hd => exact ⟨_, rfl, .writing d₀ (rest ++ [d]) written hd, rfl⟩
  | writeStart =>
    cases h with
    | idle written => exact absurd hp (Nat.lt_irrefl 0)
    | scheduled d rest written => exact phase_writeStart (he d rest rfl) written
    | writing d rest written hd => exact absurd hp (Nat.lt_irrefl 0)
  | writeComplete d =>
    cases h with
    | idle written => cases hp
    | scheduled d rest written => cases hp
    | writing d₀ rest written hd =>
      obtain rfl : d = d₀ := List.mem_singleton.mp hp
      have hkept : written ++ ours remote (d :: rest) = (written ++ [d]) ++ ours remote rest := by
        rw [ours_cons_of_not_elsewhere hd, List.append_assoc, List.singleton_append]
      cases rest with
      | nil =>
        refine ⟨⟨[], 0, [], written ++ [d]⟩, ?_, .idle _, hkept.symm⟩
        simp [LineWriter.perform, writeComplete]
      | cons d' rest =>
        obtain ⟨w', hw', hphase, hours⟩ := phase_writeStart (he d d' rest rfl) (written ++ [d])
        refine ⟨w', ?_, hphase, hours.trans hkept.symm⟩
        simpa [LineWriter.perform, writeComplete] using hw'

theorem given_append (e : Handler) (given ds : List Datagram) :
    ∃ new, e.given given = given ++ new ∧ e.given ds = ds ++ new := by
  cases e with
  | doWrite d => exact ⟨[d], rfl, rfl⟩
  | socketWrite d => exact ⟨[d], rfl, rfl⟩
  | doStart | writeStart | writeComplete d =>
    exact ⟨[], (List.append_nil _).symm, (List.append_nil _).symm⟩

theorem Runs.phase (h : Runs remote (Orderly remote) given w) :
    Phase remote w ∧ w.written ++ ours remote w.out = ours remote given := by
  induction h with
  | new => exact ⟨.idle [], rfl⟩
  | @handle given w w' e _ hp he hw ih =>
    obtain ⟨w₁, hw₁, hphase, hours⟩ := ih.1.perform hp he
    obtain rfl : w₁ = w' := Option.some.inj (hw₁.symm.trans hw)
    obtain ⟨new, hgiven, hout⟩ := given_append e given w.out
    refine ⟨hphase, ?_⟩
    calc w₁.written ++ ours remote w₁.out
        = (w.written ++ ours remote w.out) ++ ours remote new := by
          rw [hours, hout, ours_append, List.append_assoc]
      _ = ours remote (e.given given) := by rw [ih.2, hgiven, ours_append]

theorem Phase.delivers (h : Phase remote w)
    (hkept : w.written ++ ours remote w.out = ours remote given) : Delivers remote given w := by
  cases h with
  | idle written =>
    refine ⟨?_, hkept, by simp, by simp⟩
    rw [← hkept]
    exact List.prefix_rfl
  | scheduled d rest written =>
    refine ⟨?_, hkept, by simp, by simp⟩
    rw [← hkept]
    exact (List.prefix_append_right_inj _).mpr List.nil_prefix
  | writing d rest written hd =>
    refine ⟨?_, hkept, by simp, by simp⟩
    rw [← hkept, ours_cons_of_not_elsewhere hd]
    exact (List.prefix_append_right_inj _).mpr ⟨ours remote rest, rfl⟩

/-- A datagram that is discarded with others behind it leaves them without a write. -/
theorem not_oneWrite_writeStart {rest written : List Datagram}
    (hd : d.elsewhere remote) (hrest : rest ≠ [])
    (hw : writeStart remote ⟨d :: rest, 0, [], written⟩ = some w') : ¬w'.OneWrite := by
  obtain rfl : (⟨rest, 0, [], written⟩ : LineWriter) = w' := by simpa [writeStart, hd] using hw
  simp [OneWrite, hrest]

theorem Phase.orderly_of_oneWrite (h : Phase remote w) {e : Handler} (hp : w.Pending e)
    (hw : w.perform remote e = some w') (hone : w'.OneWrite) : Orderly remote w e := by
  cases e with
  | doStart =>
    obtain rfl : w.doStart = w' := Option.some.inj hw
    cases h with
    | idle written => rfl
    | scheduled d rest written => simp [OneWrite, doStart] at hone
    | writing d rest written hd => simp [OneWrite, doStart] at hone
  | doWrite d => trivial
  | socketWrite d => trivial
  | writeStart =>
    intro d rest hout hd
    by_contra hrest
    cases h with
    | idle written => cases hout
    | scheduled d₀ rest₀ written =>
      cases hout
      exact not_oneWrite_writeStart hd hrest hw hone
    | writing d₀ rest₀ written hd₀ => exact absurd hp (Nat.lt_irrefl 0)
  | writeComplete d =>
    intro d₁ d₂ rest hout hd
    by_contra hrest
    cases h with
    | idle written => cases hout
    | scheduled d₀ rest₀ written => cases hp
    | writing d₀ rest₀ written hd₀ =>
      cases hout
      obtain rfl : d = d₁ := List.mem_singleton.mp hp
      have hnext : writeStart remote ⟨d₂ :: rest, 0, [], written ++ [d]⟩ = some w' := by
        simpa [LineWriter.perform, writeComplete] using hw
      exact not_oneWrite_writeStart hd hrest hnext hone

/-- In every run in which a client is started only while its deque is empty and a datagram for
another endpoint is discarded only when it is the last, the datagrams are written once and in
order, none of them waits without a write, and the next such handler finds the datagram it is
for. And only such a handler leaves as many writes as the deque calls for. -/
theorem lines_written (h : Runs remote (Orderly remote) given w) :
    Delivers remote given w ∧ ∀ e, w.Pending e →
      (Orderly remote w e → (w.perform remote e).isSome) ∧
      ∀ w', w.perform remote e = some w' → (Orderly remote w e ↔ w'.OneWrite) := by
  obtain ⟨hphase, hkept⟩ := h.phase
  refine ⟨hphase.delivers hkept, fun e hp => ⟨fun he => ?_, fun w' hw => ⟨fun he => ?_, fun hone => ?_⟩⟩⟩
  · obtain ⟨w', hw', -⟩ := hphase.perform hp he
    simp [hw']
  · obtain ⟨w₁, hw₁, hphase₁, -⟩ := hphase.perform hp he
    obtain rfl : w₁ = w' := Option.some.inj (hw₁.symm.trans hw)
    exact hphase₁.oneWrite
  · exact hphase.orderly_of_oneWrite hp hw hone

def performAll (remote : String) (w : LineWriter) : List Handler → Option LineWriter
  | [] => some w
  | e :: es => if w.Pending e then w.perform remote e >>= fun w' => performAll remote w' es else none

theorem Runs.performAll {allowed : LineWriter → Handler → Prop} (h : Runs remote allowed given w)
    (hall : ∀ w e, allowed w e) {es : List Handler} (hw : performAll remote w es = some w') :
    Runs remote allowed (es.foldl Handler.given given) w' := by
  induction es generalizing given w with
  | nil =>
    obtain rfl : w = w' := Option.some.inj hw
    exact h
  | cons e es ih =>
    rw [LineWriter.performAll] at hw
    split_ifs at hw with hp
    obtain ⟨w₁, hw₁, hrest⟩ := Option.bind_eq_some_iff.mp hw
    exact ih (.handle e h hp (hall w e) hw₁) hrest

def sampleRemote : String := "10.0.0.1:50000"

def sampleLine : Datagram := ⟨[0x41], none⟩

def sampleOther : Datagram := ⟨[0x42], some "10.0.0.2:50000"⟩

/-- A client that is started, writes a line and discards one for another endpoint. -/
theorem lines_written_started :
    Delivers sampleRemote [sampleLine, sampleOther] ⟨[], 0, [], [sampleLine]⟩ := by
  have hstart : Runs sampleRemote (Orderly sampleRemote) [sampleLine] ⟨[sampleLine], 1, [], []⟩ :=
    .handle (.doWrite sampleLine) (.handle .doStart .new trivial rfl rfl) trivial trivial rfl
  have hbegun : Runs sampleRemote (Orderly sampleRemote) [sampleLine]
      ⟨[sampleLine], 0, [sampleLine], []⟩ :=
    .handle .writeStart hstart Nat.one_pos (by rintro _ _ ⟨⟩ _; rfl) rfl
  have hwritten : Runs sampleRemote (Orderly sampleRemote) [sampleLine] ⟨[], 0, [], [sampleLine]⟩ :=
    .handle (.writeComplete sampleLine) hbegun (List.mem_singleton.mpr rfl) (by rintro _ _ _ ⟨⟩) rfl
  have hother : Runs sampleRemote (Orderly sampleRemote) [sampleLine, sampleOther]
      ⟨[sampleOther], 1, [], [sampleLine]⟩ :=
    .handle (.doWrite sampleOther) hwritten trivial trivial rfl
  exact (lines_written (.handle .writeStart hother Nat.one_pos (by rintro _ _ ⟨⟩ _; rfl)
    (by decide))).1

/-- A client that is started after a line was given to it writes the line twice at once, and a
line behind one that is discarded waits for good. -/
theorem lines_not_written :
    (∃ w, Runs sampleRemote (fun _ _ => True) [sampleLine] w ∧
      w.outstanding = [sampleLine, sampleLine] ∧ ¬Delivers sampleRemote [sampleLine] w) ∧
    ∃ w, Runs sampleRemote (fun _ _ => True) [sampleOther, sampleLine] w ∧
      w.out = [sampleLine] ∧ w.outstanding = [] ∧ w.posted = 0 ∧
      ¬Delivers sampleRemote [sampleOther, sampleLine] w := by
  have htwice : performAll sampleRemote {} [.doWrite sampleLine, .doStart, .writeStart, .writeStart] =
      some ⟨[sampleLine], 0, [sampleLine, sampleLine], []⟩ := by decide
  have hstuck : performAll sampleRemote {} [.doWrite sampleOther, .doWrite sampleLine, .writeStart] =
      some ⟨[sampleLine], 0, [], []⟩ := by decide
  constructor
  · refine ⟨_, Runs.new.performAll (fun _ _ => trivial) htwice, rfl, fun h => ?_⟩
    exact absurd h.single (by decide)
  · refine ⟨_, Runs.new.performAll (fun _ _ => trivial) hstuck, rfl, rfl, rfl, fun h => ?_⟩
    exact absurd (h.moving (by decide)) (by decide)

end LineWriter

end Goby
