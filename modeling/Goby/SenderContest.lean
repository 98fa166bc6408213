import Goby.NextSender
import Goby.QueueManagerRuns

/-! A contest is won by a queue that no other one beats, by a higher priority or by the same
priority and an older last message, each as it was when the queue was asked. -/

namespace Goby

theorem Double.eq_of_eq {a b : Double} (h : a.eq b = true) : a = b := by
  cases a <;> cases b <;> simp_all [Double.eq]

theorem Double.lt_trans {a b c : Double} (h : a.lt b = true) (h' : b.lt c = true) :
    a.lt c = true := by
  cases a <;> cases b <;> cases c <;> simp_all [Double.lt]
  exact h.trans h'

theorem Ptime.lt_trans {a b c : Ptime} (h : a.lt b = true) (h' : b.lt c = true) :
    a.lt c = true := by
  cases a <;> cases b <;> cases c <;> simp_all [Ptime.lt]
  omega

namespace Queue.PriorityValues

variable {u v w : PriorityValues}

def beats (v w : PriorityValues) : Bool :=
  w.priority.lt v.priority || (v.priority.eq w.priority && v.lastSendTime.lt w.lastSendTime)

theorem not_beats_self (v : PriorityValues) : v.beats v = false := by
  have hpriority : v.priority.lt v.priority = false := by cases v.priority <;> simp [Double.lt]
  have htime : v.lastSendTime.lt v.lastSendTime = false := by cases v.lastSendTime <;> simp [Ptime.lt]
  simp [beats, hpriority, htime]

/-- Who does not beat a queue does not beat one that does. -/
theorem not_beats_of_beats (hv : v.beats w = true) (hu : u.beats w = false) : u.beats v = false := by
  simp only [beats, Bool.or_eq_true, Bool.and_eq_true, Bool.or_eq_false_iff] at hu hv
  refine Bool.eq_false_iff.mpr fun h => ?_
  simp only [beats, Bool.or_eq_true, Bool.and_eq_true] at h
  rcases hv with hlt | ⟨heq, htime⟩
  · have hlt' : w.priority.lt u.priority = true := by
      rcases h with h | ⟨h, -⟩
      · exact Double.lt_trans hlt h
      · rwa [Double.eq_of_eq h]
    simp [hlt'] at hu
  · rw [Double.eq_of_eq heq] at h
    rcases h with h | ⟨h, htime'⟩
    · simp [h] at hu
    · simp [h, Ptime.lt_trans htime' htime] at hu

end Queue.PriorityValues

namespace QueueManager

variable {Desc Msg : Type} {env : Environment Desc Msg} {request : ModemTransmission} {data : Bytes}
  {asked : List (ℕ × Queue.PriorityValues)}

/-- The queues are asked one after the other, each after its data on demand. -/
inductive Asked (env : Environment Desc Msg) (request : ModemTransmission) (data : Bytes) :
    List ℕ → QueueManager Desc Msg → List (ℕ × Queue.PriorityValues) → QueueManager Desc Msg → Prop
  | nil (s : QueueManager Desc Msg) : Asked env request data [] s [] s
  | cons {k : ℕ} {rest : List ℕ} {s s₁ s' : QueueManager Desc Msg} {q : Queue Desc Msg}
      {v : Queue.PriorityValues} {asked : List (ℕ × Queue.PriorityValues)}
      (hdemand : encodeOnDemand env request k s = .ok () s₁) (hq : s₁.queues[k]? = some q)
      (hv : q.getPriorityValues env.clock s₁.readings request data = some v)
      (hrest : Asked env request data rest { s₁ with readings := v.readings } asked s') :
      Asked env request data (k :: rest) s ((k, v) :: asked) s'

def Unbeaten (asked : List (ℕ × Queue.PriorityValues)) (v : Queue.PriorityValues) : Prop :=
  ∀ e ∈ asked, e.2.available = true → e.2.beats v = false

/-- Of the queues asked, the winner was available and none that was available beats it. -/
def Best (asked : List (ℕ × Queue.PriorityValues)) : Option ℕ → Prop
  | none => ∀ e ∈ asked, e.2.available = false
  | some k => ∃ v, (k, v) ∈ asked ∧ v.available = true ∧ Unbeaten asked v

/-- The winner so far, with the values that a queue has to beat. -/
def Leads (asked : List (ℕ × Queue.PriorityValues)) : Winner → Prop
  | none => Best asked none
  | some (k, priority, lastSendTime) => ∃ v, (k, v) ∈ asked ∧ v.available = true ∧
      Unbeaten asked v ∧ v.priority = priority ∧ v.lastSendTime = lastSendTime

theorem Unbeaten.concat {v : Queue.PriorityValues} (h : Unbeaten asked v)
    {e : ℕ × Queue.PriorityValues} (he : e.2.available = true → e.2.beats v = false) :
    Unbeaten (asked ++ [e]) v :=
  List.forall_mem_append.mpr ⟨h, List.forall_mem_singleton.mpr he⟩

theorem Leads.concat {w : Winner} (h : Leads asked w) (e : ℕ × Queue.PriorityValues) :
    Leads (asked ++ [e]) (if e.2.available && w.beatenBy e.2 then
      some (e.1, e.2.priority, e.2.lastSendTime) else w) := by
  split
  next hwin =>
    obtain ⟨havailable, hbeaten⟩ := Bool.and_eq_true_iff.mp hwin
    have hun : Unbeaten asked e.2 := by
      intro e' he' hav
      cases w with
      | none => simp [h e' he'] at hav
      | some leader =>
        obtain ⟨v, -, -, hun, hpriority, htime⟩ := h
        rw [Winner.beatenBy, ← hpriority, ← htime] at hbeaten
        exact Queue.PriorityValues.not_beats_of_beats hbeaten (hun e' he' hav)
    exact ⟨e.2, by simp, havailable, hun.concat fun _ => e.2.not_beats_self, rfl, rfl⟩
  next hwin =>
    cases w with
    | none =>
      have hlast : e.2.available = false := by simpa [Winner.beatenBy] using hwin
      exact List.forall_mem_append.mpr ⟨h, List.forall_mem_singleton.mpr hlast⟩
    | some leader =>
      obtain ⟨v, hv, hav, hun, hpriority, htime⟩ := h
      rw [Winner.beatenBy, ← hpriority, ← htime] at hwin
      refine ⟨v, List.mem_append_left _ hv, hav, hun.concat fun he => ?_, hpriority, htime⟩
      rw [he, Bool.true_and] at hwin
      exact Bool.eq_false_of_not_eq_true hwin

theorem Leads.best {w : Winner} (h : Leads asked w) : Best asked (w.map fun leader => leader.1) := by
  cases w with
  | none => exact h
  | some leader =>
    obtain ⟨v, hv, hav, hun, -⟩ := h
    exact ⟨v, hv, hav, hun⟩

/-- The contest asks the queues, and the winner leads those asked. -/
theorem contest_leads {ks : List ℕ} {w w' : Winner} {s s' : QueueManager Desc Msg}
    (hw : Leads asked w) (h : contest env request data ks w s = .ok w' s') :
    ∃ new, Asked env request data ks s new s' ∧ Leads (asked ++ new) w' := by
  induction ks generalizing asked s w with
  | nil =>
    cases h
    exact ⟨[], .nil _, by simpa using hw⟩
  | cons k rest ih =>
    rw [contest, run_bind] at h
    cases hdemand : encodeOnDemand env request k s with
    | error e t => simp [hdemand] at h
    | ok _ s₁ =>
      cases hq : s₁.queues[k]? with
      | none => simp [hdemand, getQueue, hq] at h
      | some q =>
        cases hv : q.getPriorityValues env.clock s₁.readings request data with
        | none => simp [hdemand, getQueue_run hq, hv] at h
        | some v =>
          simp only [hdemand, run_bind, getQueue_run hq, run_get, hv, setReadings, run_modify] at h
          obtain ⟨new, hasked, hleads⟩ := ih (hw.concat (k, v)) h
          exact ⟨(k, v) :: new, .cons hdemand hq hv hasked, by simpa using hleads⟩

/-- After any calls, the search for the next sender finds the best of all queues, which still
offers a message that suits the request; if it fails, the error is reported. -/
theorem findNextSender_best [DecidableEq Desc] (hd : DemandsInPlace env) (modemId : ℤ)
    (codec : DcclCodec Desc) (calls : List (Call Msg)) {s : QueueManager Desc Msg}
    (hs : stateAfter env modemId codec calls = s) (request : ModemTransmission) (data : Bytes) :
    (∀ next s', findNextSender env request data s = .ok next s' →
      (∃ asked, Asked env request data s.queues.keys s asked s' ∧ Best asked next) ∧
        ∀ k, next = some k → s'.Offers request data k) ∧
    ∀ e s', findNextSender env request data s = .error e s' → e.isReported = true := by
  have hinv : Inv env s := hs ▸ inv_stateAfter modemId codec calls
  have hoffers := findNextSender_ensures (J := fun _ => True) hd (fun _ _ _ _ => trivial)
    (fun _ _ _ _ _ => trivial) request data hinv trivial
  constructor
  · intro next s' hrun
    simp only [Ensures, hrun] at hoffers
    refine ⟨?_, hoffers.2⟩
    cases hcontest : contest env request data s.queues.keys none s with
    | error e t => simp [findNextSender, hcontest] at hrun
    | ok w t =>
      simp only [findNextSender, run_bind, run_get, hcontest, run_pure] at hrun
      cases hrun
      have hnone : Leads [] none := by simp [Leads, Best]
      obtain ⟨asked, hasked, hleads⟩ := contest_leads hnone hcontest
      exact ⟨asked, hasked, hleads.best⟩
  · intro e s' hrun
    simpa only [Ensures, hrun] using hoffers

/-- The only queue that has a message wins. -/
theorem findNextSender_best_sample :
    ∃ k s', findNextSender sampleEnvironment sampleRequest [] sampleState = .ok (some k) s' ∧
      ∃ asked, Asked sampleEnvironment sampleRequest [] sampleState.queues.keys sampleState asked s' ∧
        Best asked (some k) := by
  have hfound : (match findNextSender sampleEnvironment sampleRequest [] sampleState with
      | .ok next _ => next.isSome
      | .error _ _ => false) = true := by
    decide +kernel
  cases hrun : findNextSender sampleEnvironment sampleRequest [] sampleState with
  | error e s' => simp [hrun] at hfound
  | ok next s' =>
    simp only [hrun] at hfound
    obtain ⟨k, rfl⟩ := Option.isSome_iff_exists.mp hfound
    exact ⟨k, s', rfl, ((findNextSender_best (fun _ _ _ => rfl) 0 sampleCodec (sampleCalls.take 2) rfl
      sampleRequest []).1 _ _ hrun).1⟩

end QueueManager
end Goby
