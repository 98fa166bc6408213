import Goby.QueueOperations
import Mathlib.Data.List.TakeWhile

/-! The loop of `expire` looks at the front of the list only. It pops the messages up to the first
one that has not expired, so it is exact when no message that has outlived `ttl` stands behind
one that has not. A `ttl` of zero is compared like any other. -/

namespace Goby

section Prefixes

variable {α : Type} {p : α → Bool}

/-- Cutting off the front removes everything there is to remove exactly when it all stands there. -/
theorem dropWhile_eq_filter_not {l : List α} :
    l.dropWhile p = l.filter (fun a => !p a) ↔ l.Pairwise fun a b => p b = true → p a = true := by
  induction l with
  | nil => simp
  | cons a l ih =>
    rw [List.pairwise_cons]
    cases ha : p a with
    | true =>
      rw [List.dropWhile_cons_of_pos ha, List.filter_cons_of_neg (by simp [ha]), ih]
      simp
    | false =>
      have hrest : (∀ b ∈ l, p b = true → false = true) ↔ ∀ b ∈ l, p b = false := by simp
      rw [List.dropWhile_cons_of_neg (by simp [ha]), List.filter_cons_of_pos (by simp [ha]),
        List.cons_eq_cons, hrest, eq_comm (a := l), List.filter_eq_self]
      constructor
      · rintro ⟨-, h⟩
        have hfalse : ∀ b ∈ l, p b = false := fun b hb => by simpa using h b hb
        exact ⟨hfalse, List.pairwise_of_forall_mem_list fun a _ b hb hp => by simp [hfalse b hb] at hp⟩
      · rintro ⟨h, -⟩
        exact ⟨rfl, fun b hb => by simp [h b hb]⟩

theorem takeWhile_eq_filter {l : List α} (h : l.Pairwise fun a b => p b = true → p a = true) :
    l.takeWhile p = l.filter p := by
  induction l with
  | nil => rfl
  | cons a l ih =>
    rw [List.pairwise_cons] at h
    cases ha : p a with
    | true => rw [List.takeWhile_cons_of_pos ha, List.filter_cons_of_pos ha, ih h.2]
    | false =>
      have hnone : ∀ b ∈ l, ¬ p b = true := fun b hb hp => by simp [h.1 b hb hp] at ha
      rw [List.takeWhile_cons_of_neg (by simp [ha]), List.filter_cons_of_neg (by simp [ha]),
        List.filter_eq_nil_iff.mpr hnone]

end Prefixes

namespace Queue

variable {Desc Msg : Type} {q : Queue Desc Msg}

theorem expireLoop_eq (now : ℕ) {fuel n : ℕ} (hfuel : q.size ≤ fuel) :
    (expireLoop (fun _ => now) fuel n q).2.1.messages.nodes =
        q.messages.nodes.dropWhile (fun m => q.isExpired m.2 now) ∧
      (expireLoop (fun _ => now) fuel n q).1 =
        (q.messages.nodes.takeWhile fun m => q.isExpired m.2 now).map fun m => (m.1, m.2.dcclMsg) := by
  induction fuel generalizing n q with
  | zero =>
    have hnil : q.messages.nodes = [] := List.eq_nil_of_length_eq_zero (Nat.le_zero.mp hfuel)
    simp [expireLoop, hnil]
  | succ fuel ih =>
    cases hnodes : q.messages.nodes with
    | nil => simp [expireLoop, StableList.front?, hnodes]
    | cons m rest =>
      have hfront : q.messages.front? = some m := by rw [StableList.front?, hnodes, List.head?_cons]
      cases hx : q.isExpired m.2 now with
      | false => simp [expireLoop, hfront, hx, hnodes]
      | true =>
        let popped : Queue Desc Msg :=
          { q with waitingForAck := q.eraseAck m.1, messages := q.messages.erase m.1 }
        have hrest : popped.messages.nodes = rest := StableList.nodes_erase_front hnodes
        have hsize : popped.size ≤ fuel := by
          have : q.size = rest.length + 1 := by rw [size, StableList.size, hnodes, List.length_cons]
          rw [size, StableList.size, hrest]
          omega
        obtain ⟨hkept, hpopped⟩ := ih (n := n + 1) hsize
        rw [hrest] at hkept hpopped
        constructor
        · simp only [expireLoop, hfront, hx, if_true, List.dropWhile_cons]
          exact hkept
        · simp only [expireLoop, hfront, hx, if_true, List.takeWhile_cons, List.map_cons]
          exact congrArg _ hpopped

def age (m : QueuedMessage Msg) (now : ℕ) : Option ℤ := do
  let current ← unixMicrosec2ptime now
  let created ← unixMicrosec2ptime m.msgMeta.timeD
  pure (current - created)

/-- The age exceeds `ttl`; zero stands for an infinite life. -/
def outlived (q : Queue Desc Msg) (now : ℕ) (m : ℕ × QueuedMessage Msg) : Bool :=
  q.cfg.ttl ≠ 0 && (age m.2 now).any fun a => q.cfg.ttl * 1000000 < a

/-- What is kept has not outlived `ttl` and keeps its order, and all else is returned once. -/
structure ExpiresExactly (q : Queue Desc Msg) (now n : ℕ) : Prop where
  kept : (q.expire (fun _ => now) n).2.1.messages.nodes =
    q.messages.nodes.filter fun m => !q.outlived now m
  returned : (q.expire (fun _ => now) n).1.Perm
    ((q.messages.nodes.filter (q.outlived now)).map fun m => (m.1, m.2.dcclMsg))

theorem isExpired_eq (q : Queue Desc Msg) (m : QueuedMessage Msg) (now : ℕ) :
    q.isExpired m now = (age m now).any fun a => q.cfg.ttl * 1000000 < a := by
  rw [isExpired, age]
  cases unixMicrosec2ptime now with
  | none => cases unixMicrosec2ptime m.msgMeta.timeD <;> rfl
  | some current =>
    cases unixMicrosec2ptime m.msgMeta.timeD with
    | none => rfl
    | some created =>
      apply decide_eq_decide.mpr
      change created + q.cfg.ttl * 1000000 < current ↔ q.cfg.ttl * 1000000 < current - created
      omega

theorem outlived_of_ttl_ne (h : q.cfg.ttl ≠ 0) (now : ℕ) :
    q.outlived now = fun m => q.isExpired m.2 now := by
  funext m
  rw [outlived, isExpired_eq, decide_eq_true h, Bool.true_and]

theorem outlived_of_ttl_eq (h : q.cfg.ttl = 0) (now : ℕ)
    (m : ℕ × QueuedMessage Msg) : q.outlived now m = false := by
  simp [outlived, h]

theorem expire_nodes (q : Queue Desc Msg) (now n : ℕ) :
    (q.expire (fun _ => now) n).2.1.messages.nodes =
      q.messages.nodes.dropWhile fun m => q.isExpired m.2 now :=
  (expireLoop_eq now le_rfl).1

theorem expire_returned (q : Queue Desc Msg) (now n : ℕ) :
    (q.expire (fun _ => now) n).1 =
      (q.messages.nodes.takeWhile fun m => q.isExpired m.2 now).map fun m => (m.1, m.2.dcclMsg) :=
  (expireLoop_eq now le_rfl).2

/-- With a finite life, the messages that have outlived it are to stand at the front. -/
theorem expiresExactly_of_ttl_ne {now n : ℕ} (h : q.cfg.ttl ≠ 0) :
    q.ExpiresExactly now n ↔
      q.messages.nodes.Pairwise fun a b => q.outlived now b = true → q.outlived now a = true := by
  rw [← dropWhile_eq_filter_not]
  constructor
  · intro hexact
    rw [← hexact.kept, expire_nodes, outlived_of_ttl_ne h]
  · intro hfront
    refine ⟨?_, ?_⟩
    · rw [← hfront, expire_nodes, outlived_of_ttl_ne h]
    · rw [expire_returned, ← outlived_of_ttl_ne h, takeWhile_eq_filter (dropWhile_eq_filter_not.mp hfront)]

/-- With an infinite life, the message at the front is to be dated now or later. -/
theorem expiresExactly_of_ttl_eq {now n : ℕ} (h : q.cfg.ttl = 0) :
    q.ExpiresExactly now n ↔ ∀ m, q.messages.front? = some m → ∀ a, age m.2 now = some a → a ≤ 0 := by
  have hkeep (nodes : List (ℕ × QueuedMessage Msg)) :
      nodes.filter (fun m => !q.outlived now m) = nodes ∧ nodes.filter (q.outlived now) = [] := by
    simp [outlived_of_ttl_eq h]
  have hexpired (m : QueuedMessage Msg) :
      q.isExpired m now = false ↔ ∀ a, age m now = some a → a ≤ 0 := by
    rw [isExpired_eq, h]
    cases age m now <;> simp
  cases hnodes : q.messages.nodes with
  | nil =>
    have hexact : q.ExpiresExactly now n := by
      constructor <;> simp [expire_nodes, expire_returned, hnodes]
    simpa [StableList.front?, hnodes] using hexact
  | cons m rest =>
    simp only [StableList.front?, hnodes, List.head?_cons, Option.some.injEq, forall_eq', ← hexpired]
    constructor
    · intro hexact
      -- popping the front would make the list shorter
      have hkept := hexact.kept
      rw [(hkeep _).1, expire_nodes, hnodes] at hkept
      by_contra hx
      rw [Bool.not_eq_false] at hx
      have hlength := congrArg List.length hkept
      have hle := List.length_dropWhile_le (fun m => q.isExpired m.2 now) rest
      simp only [List.dropWhile_cons, hx, if_true, List.length_cons] at hlength
      omega
    · intro hx
      constructor
      · rw [(hkeep _).1, expire_nodes, hnodes]
        simp [hx]
      · rw [(hkeep _).2, expire_returned, hnodes]
        simp [hx]

/-- The exact condition for an exact expiry. -/
theorem expire_exact_iff (q : Queue Desc Msg) (now n : ℕ) : q.ExpiresExactly now n ↔
    if q.cfg.ttl = 0 then
      ∀ m, q.messages.front? = some m → ∀ a, age m.2 now = some a → a ≤ 0
    else
      q.messages.nodes.Pairwise fun a b => q.outlived now b = true → q.outlived now a = true := by
  split
  case isTrue h => exact expiresExactly_of_ttl_eq h
  case isFalse h => exact expiresExactly_of_ttl_ne h

def dated (ttl : ℤ) (times : List ℕ) : Queue Unit Unit where
  desc := ()
  cfg := { protobufName := "Dated", ttl := ttl }
  lastSendTime := some 0
  messages := times.foldl (fun l t => l.pushBack ⟨(), { time := some t }⟩) StableList.empty

/-- A message that is to live for ever is gone after a microsecond, and one that is too old stays
behind a younger one. -/
theorem dated_not_exact :
    ¬ (dated 0 [0]).ExpiresExactly 1 0 ∧ ¬ (dated 1800 [1000000, 0]).ExpiresExactly 1800500000 0 := by
  constructor
  · intro h
    exact absurd (congrArg List.length h.kept) (by decide)
  · intro h
    exact absurd (congrArg List.length h.kept) (by decide)

end Queue
end Goby
