import Mathlib.Tactic.Common
import Mathlib.Data.List.Basic

/-! `boost::circular_buffer` has a fixed capacity. What is added to a full buffer overwrites the
element at the other end. -/

namespace Goby

variable {α : Type}

/-- `push_back` of a circular buffer: when it is full, the oldest element is overwritten. -/
def circularPush (capacity : ℕ) (buffer : List α) (a : α) : List α :=
  (buffer ++ [a]).drop (buffer.length + 1 - capacity)

/-- `push_front`: when the buffer is full, its last element is overwritten. -/
def circularPushFront (capacity : ℕ) (buffer : List α) (a : α) : List α := (a :: buffer).take capacity

/-- `insert` before the element at an index: when the buffer is full, its first element is
overwritten. -/
def circularInsert (capacity : ℕ) (buffer : List α) (i : ℕ) (a : α) : List α :=
  (buffer.insertIdx i a).drop (buffer.length + 1 - capacity)

theorem mem_circularPush {capacity : ℕ} {buffer : List α} {a b : α}
    (h : b ∈ circularPush capacity buffer a) : b ∈ buffer ∨ b = a := by
  simpa using List.mem_of_mem_drop h

end Goby
