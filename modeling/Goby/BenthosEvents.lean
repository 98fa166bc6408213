import Goby.BenthosFsm

/-! Reactions post events, which are processed before the next one is given to the machine. Only a
line from the modem posts events that others than reactions may post too, and nothing is written
but on the event to write. -/

namespace Goby

def BenthosEvent.weight : BenthosEvent → ℕ
  | .rxSerial _ => 6
  | .ack _ | .receive _ => 3
  | .txSerial | .connect | .receiveComplete | .shellPrompt => 2
  | _ => 1

def BenthosEvent.Inner : BenthosEvent → Prop
  | .atEmpty | .reset | .lowPower | .noCarrier | .transmit | .transmitBegun | .receiveComplete
  | .rangingComplete => True
  | _ => False

namespace BenthosFsm

variable {ρ : Type} {e : BenthosEvent}

def load (events : List BenthosEvent) : ℕ := (events.map BenthosEvent.weight).sum

@[simp] theorem load_nil : load [] = 0 := rfl

@[simp] theorem load_cons (e : BenthosEvent) (events : List BenthosEvent) :
    load (e :: events) = e.weight + load events := by simp [load]

theorem load_append (events events' : List BenthosEvent) :
    load (events ++ events') = load events + load events' := by simp [load]

theorem weight_pos (e : BenthosEvent) : 0 < e.weight := by
  cases e <;> simp [BenthosEvent.weight]

theorem weight_le (e : BenthosEvent) : e.weight ≤ 6 := by
  cases e <;> simp [BenthosEvent.weight]

/-- Events of some kind are posted, with a bound on what is processed for them. -/
def Posts (kind : BenthosEvent → Prop) (n : ℕ) (m m' : BenthosFsm ρ) : Prop :=
  ∃ new, m'.posted = m.posted ++ new ∧ load new ≤ n ∧ ∀ e ∈ new, kind e

/-- Nothing is written, and events are posted. -/
structure Quiet (kind : BenthosEvent → Prop) (n : ℕ) (m m' : BenthosFsm ρ) : Prop where
  posts : Posts kind n m m'
  serialTx : m'.serialTx = m.serialTx

variable {env : BenthosEnv ρ} {m m' m'' : BenthosFsm ρ} {kind : BenthosEvent → Prop} {n : ℕ}
  {atOut : List PendingCommand} {P : BenthosFsm ρ → Prop} {leaf : CommandLeaf}

theorem Posts.none (h : m'.posted = m.posted) : Posts kind n m m' :=
  ⟨[], by simpa using h, Nat.zero_le n, by simp⟩

theorem Posts.load_le (h : Posts kind n m m') : load m'.posted ≤ load m.posted + n := by
  obtain ⟨new, hnew, hload, -⟩ := h
  rw [hnew, load_append]
  omega

structure SameOutput (m m' : BenthosFsm ρ) : Prop where
  posted : m'.posted = m.posted
  serialTx : m'.serialTx = m.serialTx

section

variable (hposted : m'.posted = m.posted) (hserial : m'.serialTx = m.serialTx)
include hposted hserial

theorem Quiet.none : Quiet kind n m m' := ⟨.none hposted, hserial⟩

theorem Quiet.post (hn : e.weight ≤ n) (he : kind e) : Quiet kind n m (m'.post e) :=
  ⟨⟨[e], congrArg (· ++ [e]) hposted, by simpa using hn, by simpa using he⟩, hserial⟩

end

theorem Quiet.mono {n' : ℕ} (h : Quiet kind n m m') (hn : n ≤ n') : Quiet kind n' m m' := by
  obtain ⟨⟨new, hnew, hload, hkind⟩, hserial⟩ := h
  exact ⟨⟨new, hnew, hload.trans hn, hkind⟩, hserial⟩

theorem Quiet.of_inner (h : Quiet BenthosEvent.Inner n m m') : Quiet (· ≠ .txSerial) n m m' := by
  obtain ⟨⟨new, hnew, hload, hkind⟩, hserial⟩ := h
  refine ⟨⟨new, hnew, hload, ?_⟩, hserial⟩
  rintro e he rfl
  exact hkind _ he

@[simp] theorem posted_post (m : BenthosFsm ρ) (e : BenthosEvent) :
    (m.post e).posted = m.posted ++ [e] := rfl

theorem exit_same (m : BenthosFsm ρ) : SameOutput m m.exit := by
  unfold exit
  split <;> exact ⟨rfl, rfl⟩

theorem enterOnline_quiet (h : SameOutput m m') (leaf : OnlineLeaf) :
    Quiet BenthosEvent.Inner 1 m (m'.enterOnline leaf) := by
  cases leaf with
  | listen =>
    unfold enterOnline
    dsimp only
    split
    · exact .none h.posted h.serialTx
    · refine .post ?_ ?_ ?_ ?_
      exacts [h.posted, h.serialTx, le_rfl, trivial]
  | transmitData => exact .none h.posted h.serialTx

theorem enterHistory_quiet (h : SameOutput m m') (e : BenthosEvent) :
    Quiet BenthosEvent.Inner 1 m (m'.enterHistory env e) := by
  unfold enterHistory
  split
  · exact .none h.posted h.serialTx
  · exact .none h.posted h.serialTx
  next leaf _ => exact enterOnline_quiet h leaf

theorem receiveStep_quiet (h : SameOutput m m') (r : Reception ρ) :
    Quiet BenthosEvent.Inner 2 m (m'.receiveStep r) := by
  cases r with
  | more r => exact .none h.posted h.serialTx
  | done received =>
    refine .post ?_ ?_ ?_ ?_
    exacts [h.posted, h.serialTx, le_rfl, trivial]

theorem acknowledge_events (lastCmd response : Bytes) :
    load (acknowledge lastCmd response).2 ≤ 1 ∧ ∀ e ∈ (acknowledge lastCmd response).2, e.Inner := by
  unfold acknowledge
  split_ifs <;> simp [BenthosEvent.weight, BenthosEvent.Inner]

theorem commandAck_quiet (leaf : CommandLeaf) (atOut : List PendingCommand) (response : Bytes) :
    Quiet BenthosEvent.Inner 2 m (m.commandAck leaf atOut response) := by
  cases atOut with
  | nil => exact .none rfl rfl
  | cons front rest =>
    obtain ⟨hload, hinner⟩ := acknowledge_events front.command.text response
    simp only [commandAck]
    split
    · refine ⟨⟨_, List.append_assoc .., ?_, fun e he => ?_⟩, rfl⟩
      · rw [load_append]
        split <;> simp only [load_cons, load_nil, BenthosEvent.weight] <;> omega
      · rcases List.mem_append.mp he with he | he
        · exact hinner e he
        · split at he
          · rw [List.mem_singleton.mp he]
            trivial
          · cases he
    · exact ⟨⟨_, rfl, by omega, hinner⟩, rfl⟩

theorem commandTx_posts (leaf : CommandLeaf) (atOut : List PendingCommand) :
    Posts BenthosEvent.Inner 1 m (m.commandTx leaf atOut) := by
  cases atOut with
  | nil => exact .none rfl
  | cons front rest =>
    simp only [commandTx]
    split_ifs
    · exact ⟨[.reset], rfl, le_rfl, by simp [BenthosEvent.Inner]⟩
    · exact .none rfl
    · exact .none rfl

theorem commandConnect_quiet (atOut : List PendingCommand) :
    Quiet BenthosEvent.Inner 1 m (m.commandConnect atOut) := by
  cases atOut with
  | nil => exact enterOnline_quiet (exit_same m) .listen
  | cons front rest =>
    simp only [commandConnect]
    split
    · exact .none rfl rfl
    · exact enterOnline_quiet (exit_same m) .listen

theorem rangeLine_quiet (atOut : List PendingCommand) (line : Bytes) :
    Quiet BenthosEvent.Inner 1 m (m.rangeLine env atOut line) := by
  unfold rangeLine
  dsimp only
  split
  · refine .post ?_ ?_ ?_ ?_
    exacts [rfl, rfl, le_rfl, trivial]
  · exact .none rfl rfl

theorem transmitTx_posts (m : BenthosFsm ρ) : Posts kind n m (m.transmitTx env) := by
  unfold transmitTx
  split
  · exact .none rfl
  · split <;> exact .none rfl

theorem activeLine_quiet (line : Bytes) : Quiet (· ≠ .txSerial) 5 m (m.activeLine line) := by
  unfold activeLine
  dsimp only
  generalize trimCopy line = text
  have hone {e : BenthosEvent} (hn : e.weight ≤ 5) (he : e ≠ .txSerial) :
      Quiet (· ≠ .txSerial) 5 m (m.post e) := .post rfl rfl hn he
  split_ifs
  · exact hone (by simp [BenthosEvent.weight]) nofun
  · exact ⟨⟨[.shellPrompt, .ack text], by simp [post], by simp [BenthosEvent.weight], by simp⟩, rfl⟩
  · exact hone (by simp [BenthosEvent.weight]) nofun
  · exact ⟨⟨[.ack text, .connect], by simp [post], by simp [BenthosEvent.weight], by simp⟩, rfl⟩
  · exact hone (by simp [BenthosEvent.weight]) nofun

theorem getD_or_cases {a b c : Option (BenthosFsm ρ)} (hm : P m)
    (ha : ∀ m', a = some m' → P m') (hb : ∀ m', b = some m' → P m') (hc : ∀ m', c = some m' → P m') :
    P ((a.or (b.or c)).getD m) := by
  cases a with
  | some m₁ => exact ha m₁ rfl
  | none =>
    cases b with
    | some m₁ => exact hb m₁ rfl
    | none =>
      cases c with
      | some m₁ => exact hc m₁ rfl
      | none => exact hm

theorem commandLeafReact_quiet (hm : m.commandLeafReact env leaf atOut e = some m') :
    Quiet BenthosEvent.Inner (e.weight - 1) m m' := by
  unfold commandLeafReact at hm
  split at hm
  case h_5 =>
    cases hm
    exact .none rfl rfl
  case h_8 line =>
    cases hm
    exact (rangeLine_quiet atOut line).mono (by simp [BenthosEvent.weight])
  case h_9 => cases hm
  all_goals
    cases hm
    exact .none (exit_same m).posted (exit_same m).serialTx

theorem commandReact_quiet (he : e ≠ .txSerial) (hm : m.commandReact leaf atOut e = some m') :
    Quiet BenthosEvent.Inner (e.weight - 1) m m' := by
  cases e with
  | connect =>
    cases hm
    exact commandConnect_quiet atOut
  | ack response =>
    cases hm
    exact commandAck_quiet leaf atOut response
  | txSerial => exact absurd rfl he
  | _ => cases hm

theorem onlineLeafReact_quiet {leaf : OnlineLeaf} (he : e ≠ .txSerial)
    (hm : m.onlineLeafReact env leaf e = some m') : Quiet BenthosEvent.Inner (e.weight - 1) m m' := by
  unfold onlineLeafReact at hm
  split at hm
  · cases hm
    exact .none (exit_same m).posted (exit_same m).serialTx
  · cases hm
    exact .none (exit_same m).posted (exit_same m).serialTx
  · exact absurd rfl he
  · cases hm
    split
    · exact .post rfl rfl (by simp [BenthosEvent.weight]) trivial
    · exact .none rfl rfl
  · cases hm

theorem onlineReact_quiet (hm : m.onlineReact env e = some m') :
    Quiet BenthosEvent.Inner (e.weight - 1) m m' := by
  cases e with
  | shellPrompt =>
    cases hm
    exact enterHistory_quiet (exit_same m) _
  | _ => cases hm

theorem activeReact_quiet (hline : ∀ line, e ≠ .rxSerial line)
    (hm : m.activeReact env e = some m') : Quiet BenthosEvent.Inner (e.weight - 1) m m' := by
  cases e with
  | rxSerial line => exact absurd rfl (hline line)
  | reset =>
    cases hm
    exact .none (exit_same m).posted (exit_same m).serialTx
  | receive first =>
    cases hm
    exact receiveStep_quiet (exit_same m) _
  | _ => cases hm

section

variable (env : BenthosEnv ρ) (m : BenthosFsm ρ)

theorem receiveReact_quiet (r : Option ρ) (e : BenthosEvent) :
    Quiet BenthosEvent.Inner (e.weight - 1) m (m.receiveReact env r e) := by
  unfold receiveReact
  split
  · exact (receiveStep_quiet ⟨rfl, rfl⟩ _).mono (by simp [BenthosEvent.weight])
  · exact enterHistory_quiet ⟨rfl, rfl⟩ _
  · exact .none rfl rfl

theorem react_quiet (he : e ≠ .txSerial)
    (hline : ∀ line, e ≠ .rxSerial line) :
    Quiet BenthosEvent.Inner (e.weight - 1) m (m.react env e) := by
  unfold react
  split
  · exact getD_or_cases (.none rfl rfl) (fun _ => commandLeafReact_quiet)
      (fun _ => commandReact_quiet he) fun _ => activeReact_quiet hline
  · exact getD_or_cases (.none rfl rfl) (fun _ => onlineLeafReact_quiet he)
      (fun _ => onlineReact_quiet) fun _ => activeReact_quiet hline
  · exact receiveReact_quiet env m _ e
  · exact .none rfl rfl

theorem react_rxSerial_quiet (line : Bytes) :
    Quiet (· ≠ .txSerial) 5 m (m.react env (.rxSerial line)) := by
  unfold react
  split
  · exact getD_or_cases (.none rfl rfl) (fun _ h => (commandLeafReact_quiet h).of_inner)
      (fun _ h => (commandReact_quiet (by simp) h).of_inner)
      (by rintro _ ⟨⟩; exact activeLine_quiet line)
  · exact getD_or_cases (.none rfl rfl) (fun _ h => (onlineLeafReact_quiet (by simp) h).of_inner)
      (fun _ h => (onlineReact_quiet h).of_inner) (by rintro _ ⟨⟩; exact activeLine_quiet line)
  · exact (receiveReact_quiet env m _ (.rxSerial line)).of_inner
  · exact .none rfl rfl

theorem react_txSerial_posts : Posts BenthosEvent.Inner 1 m (m.react env .txSerial) := by
  unfold react
  split
  next leaf atOut _ =>
    cases leaf <;> exact commandTx_posts _ atOut
  next leaf _ =>
    cases leaf with
    | listen => exact .none rfl
    | transmitData => exact transmitTx_posts m
  · exact .none rfl
  · exact .none rfl

theorem react_posts (hline : ∀ line, e ≠ .rxSerial line) :
    Posts BenthosEvent.Inner (e.weight - 1) m (m.react env e) := by
  by_cases he : e = .txSerial
  · subst he
    exact react_txSerial_posts env m
  · exact (react_quiet env m he hline).posts

end

theorem load_react (env : BenthosEnv ρ) (e : BenthosEvent) (m : BenthosFsm ρ) :
    load (m.react env e).posted ≤ load m.posted + (e.weight - 1) := by
  by_cases he : ∃ line, e = .rxSerial line
  · obtain ⟨line, rfl⟩ := he
    exact (react_rxSerial_quiet env m line).posts.load_le
  · exact (react_posts env m (not_exists.mp he)).load_le

theorem posted_drain (fuel : ℕ) (m : BenthosFsm ρ) (h : load m.posted ≤ fuel) :
    (drain env fuel m).posted = [] := by
  induction fuel generalizing m with
  | zero =>
    cases hp : m.posted with
    | nil => exact hp
    | cons e events =>
      have := weight_pos e
      rw [hp, load_cons] at h
      omega
  | succ fuel ih =>
    rw [drain]
    split
    next hp => exact hp
    next e events hp =>
      have hreact := load_react env e { m with posted := events }
      have := weight_pos e
      rw [hp, load_cons] at h
      exact ih _ (by simp only at hreact; omega)

/-- Every event that is posted is processed before the next one is given to the machine. -/
theorem posted_processEvent (e : BenthosEvent) (h : m.posted = []) :
    (m.processEvent env e).posted = [] := by
  apply posted_drain
  have hreact := load_react env e m
  have := weight_le e
  rw [h, load_nil] at hreact
  omega

theorem drain_cons (fuel : ℕ) {events : List BenthosEvent} (h : m.posted = e :: events) :
    drain env (fuel + 1) m = drain env fuel (react env e { m with posted := events }) := by
  rw [drain, h]

def Closed (env : BenthosEnv ρ) (kind : BenthosEvent → Prop) : Prop :=
  ∀ e m, kind e → ∃ n, Posts kind n m (react env e m)

section

variable (env : BenthosEnv ρ)

theorem closed_inner : Closed env BenthosEvent.Inner := by
  intro e m he
  refine ⟨_, react_posts env m ?_⟩
  rintro line rfl
  exact he

theorem react_ne_txSerial (m : BenthosFsm ρ)
    (he : e ≠ .txSerial) : ∃ n, Quiet (· ≠ .txSerial) n m (m.react env e) := by
  by_cases hline : ∃ line, e = .rxSerial line
  · obtain ⟨line, rfl⟩ := hline
    exact ⟨5, react_rxSerial_quiet env m line⟩
  · exact ⟨_, (react_quiet env m he (not_exists.mp hline)).of_inner⟩

theorem closed_ne_txSerial : Closed env (· ≠ .txSerial) := by
  intro e m he
  obtain ⟨n, h⟩ := react_ne_txSerial env m he
  exact ⟨n, h.posts⟩

theorem serialTx_react (m : BenthosFsm ρ)
    (he : e ≠ .txSerial) : (m.react env e).serialTx = m.serialTx := by
  obtain ⟨n, h⟩ := react_ne_txSerial env m he
  exact h.serialTx

end

/-- What holds of the machine whatever is posted, and is kept by events of a closed kind. -/
theorem drain_induction (hclosed : Closed env kind)
    (hposted : ∀ m events, P m → P { m with posted := events })
    (hreact : ∀ e m, kind e → P m → P (react env e m)) (fuel : ℕ) (m : BenthosFsm ρ)
    (hkind : ∀ e ∈ m.posted, kind e) (hm : P m) : P (drain env fuel m) := by
  induction fuel generalizing m with
  | zero => exact hm
  | succ fuel ih =>
    cases hp : m.posted with
    | nil =>
      rw [drain, hp]
      exact hm
    | cons e events =>
      rw [drain_cons fuel hp]
      have he : kind e := hkind e (hp ▸ List.mem_cons_self)
      refine ih _ (fun e' he' => ?_) (hreact e _ he (hposted m events hm))
      obtain ⟨n, new, hnew, -, hnew'⟩ := hclosed e { m with posted := events } he
      rw [hnew] at he'
      rcases List.mem_append.mp he' with he' | he'
      · exact hkind e' (hp ▸ List.mem_cons_of_mem e he')
      · exact hnew' e' he'

theorem serialTx_processEvent (he : e ≠ .txSerial) (hm : m.posted = []) :
    (m.processEvent env e).serialTx = m.serialTx := by
  refine drain_induction (P := fun m' => m'.serialTx = m.serialTx) (closed_ne_txSerial env)
    (fun _ _ h => h) (fun e m' he' h => (serialTx_react env m' he').trans h) 5 _ ?_
    (serialTx_react env m he)
  obtain ⟨n, new, hnew, -, hkind⟩ := closed_ne_txSerial env e m he
  rw [hnew, hm]
  exact hkind

end BenthosFsm

end Goby
