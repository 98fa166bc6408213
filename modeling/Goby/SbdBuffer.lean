import Goby.IridiumReactions

/-! What has been read of a reply to `+SBDRB` is kept with the commands. Only a line that is read
while that command is in front adds to it, so that it never has a carriage return, at which lines
are divided. -/

namespace Goby.IridiumFsm

open IridiumCommand

variable {env : MobileEnv} {now : ℚ} {s s' : IridiumFsm} {c : IridiumCommand} {e : IridiumEvent}

/-- What has been read of a reply has no carriage return, and no line is posted. -/
structure Clean (s : IridiumFsm) : Prop where
  buffer : carriageReturn ∉ s.replyBuffer
  posted : ∀ e ∈ s.posted, ∀ line, e ≠ .rxSerial line

def CleanEvent (e : IridiumEvent) : Prop := ∀ line, e = .rxSerial line → carriageReturn ∉ line

theorem Clean.of_posts (h : Clean s) {n : ℕ} (hposts : Posts n s s') : Clean s' := by
  obtain ⟨es, hes, hlight⟩ := hposts.posted
  refine ⟨?_, fun e he line heq => ?_⟩
  · rcases hposts.buffer with heq | hnil
    · rw [heq]
      exact h.buffer
    · rw [hnil]
      exact List.not_mem_nil
  · rw [hes] at he
    rcases List.mem_append.mp he with he | he
    · exact h.posted e he line heq
    · exact (heq ▸ hlight.internal e he : (IridiumEvent.rxSerial line).Internal)

theorem Clean.post (h : Clean s) (he : ∀ line, e ≠ .rxSerial line) : Clean (s.post e) := by
  exact ⟨h.buffer, List.forall_mem_append.mpr ⟨h.posted, List.forall_mem_singleton.mpr he⟩⟩

theorem Clean.calmReact (h : Clean s) (env : MobileEnv) (now : ℚ) (e : IridiumEvent) :
    Clean (s.calmReact env now e) := by
  by_cases hposts : e.Internal ∨ s.command ≠ none
  · exact h.of_posts (calmReact_posts env now hposts)
  · obtain ⟨hlines, hcommand⟩ := not_or.mp hposts
    cases e with
    | rxSerial line =>
      simp only [IridiumFsm.calmReact, not_not.mp hcommand]
      exact h.post fun _ => IridiumEvent.noConfusion
    | rxOnCallSerial line => exact h
    | _ => exact absurd trivial hlines

theorem accumulate_clean {buffer line : Bytes} (h : carriageReturn ∉ buffer)
    (hline : carriageReturn ∉ line) :
    carriageReturn ∉ accumulate buffer line := by
  unfold accumulate
  split
  · exact fun hmem => hline (List.mem_of_mem_tail hmem)
  · exact fun hmem => (List.mem_append.mp hmem).elim h hline

/-- Whether or not they throw, reactions keep carriage returns out. -/
def StaysClean (m : FsmM Unit) (s : IridiumFsm) : Prop := Ensures m s (fun _ => Clean) fun _ _ => True

theorem Clean.handleSbdRx (h : Clean s) (hc : s.command = some c) {line : Bytes}
    (hline : carriageReturn ∉ line) : StaysClean (handleSbdRx env line c) s := by
  have haccumulated := accumulate_clean (replyBuffer_eq hc ▸ h.buffer) hline
  have hread : Clean (s.setCommand { c with sbdRxBuffer := accumulate c.sbdRxBuffer line }) :=
    ⟨haccumulated, h.posted⟩
  unfold IridiumFsm.handleSbdRx
  split
  · trivial
  · refine Ensures.modify_bind ?_
    split
    · exact hread
    · refine Ensures.bind ?_
      unfold parsePacket
      split
      · trivial
      · split
        · trivial
        · refine Ensures.pure (.modify ?_)
          refine Clean.post (s := IridiumFsm.setCommand _ _) ?_ fun _ => IridiumEvent.noConfusion
          exact ⟨haccumulated, h.posted⟩

theorem Clean.onCallRx (h : Clean s) (now : ℚ) (line : Bytes) (call : OnCall) :
    StaysClean (onCallRx env now line call) s := by
  unfold IridiumFsm.onCallRx
  split
  · exact h.post fun _ => IridiumEvent.noConfusion
  · split
    · exact h
    · split
      · exact ⟨h.buffer, h.posted⟩
      · unfold onCallPacket
        split
        · exact h
        · split
          · trivial
          · exact ⟨h.buffer, h.posted⟩

theorem Clean.onCallTx (h : Clean s) (now : ℚ)
    (call : OnCall) : StaysClean (onCallTx env now call) s := by
  refine Ensures.get_bind ?_
  split
  · exact h
  · split
    · split
      · trivial
      · exact ⟨h.buffer, h.posted⟩
    · exact h

theorem Clean.react (h : Clean s) (he : CleanEvent e) (now : ℚ) : StaysClean (react env now e) s := by
  refine Ensures.get_bind ?_
  split
  next line c hc =>
    split
    · exact h.handleSbdRx hc (he line rfl)
    · exact h.calmReact env now _
  next line call hcall => exact h.onCallRx now line call
  next call hcall => exact h.onCallTx now call
  next => exact h.calmReact env now _

theorem Clean.drain (h : Clean s) (now : ℚ) (fuel : ℕ) : StaysClean (drain env now fuel) s := by
  induction fuel generalizing s with
  | zero =>
    refine Ensures.get_bind ?_
    split
    · exact h
    · trivial
  | succ fuel ih =>
    refine Ensures.get_bind ?_
    split
    · exact h
    next e es hes =>
      have hposted : ∀ e' ∈ e :: es, ∀ line, e' ≠ .rxSerial line := hes ▸ h.posted
      obtain ⟨hfirst, hrest⟩ := List.forall_mem_cons.mp hposted
      have hs : Clean { s with posted := es } := ⟨h.buffer, hrest⟩
      refine Ensures.bind (.set (Ensures.bind ?_))
      have hreact : StaysClean (IridiumFsm.react env now e) { s with posted := es } :=
        hs.react (fun line heq => absurd heq (hfirst line)) now
      exact Ensures.mono hreact (fun _ _ ht => ih ht) fun _ _ _ => trivial

theorem Clean.processEvent (h : Clean s) (he : CleanEvent e) (now : ℚ) :
    StaysClean (processEvent env now e) s :=
  Ensures.bind (Ensures.mono (h.react he now) (fun _ _ ht => ht.drain now 9) fun _ _ _ => trivial)

end Goby.IridiumFsm
