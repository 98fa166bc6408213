import Mathlib.Data.Set.Insert

/-! A sender marks its packets with labels, and the receiver acknowledges a label. Packets may
be lost, delayed and reordered, and so may the acknowledgments. Labels are used again and
again, and an acknowledgment is taken for one of the packet that had its label last. This is
right as long as no label is given to a new packet while an older one with it, or the
acknowledgment of an older one, can still arrive. -/

namespace Goby

/-- One direction of an exchange. -/
structure Exchange (Label Packet : Type) where
  /-- The packet that was given a label last. -/
  latest : Label → Option Packet
  /-- Packets that can still arrive, with their labels. -/
  underway : Set (Label × Packet)
  received : Set Packet
  /-- Labels whose acknowledgment can still arrive. -/
  returning : Set Label

namespace Exchange

variable {Label Packet : Type}

/-- Nothing that has the label can still arrive, in either direction. -/
structure IsFree (x : Exchange Label Packet) (l : Label) : Prop where
  underway : ∀ p, (l, p) ∉ x.underway
  returning : l ∉ x.returning

/-- Every label that can still arrive is that of its latest packet, and one that is
acknowledged belongs to a packet that was received. -/
structure Consistent (x : Exchange Label Packet) : Prop where
  underway : ∀ l p, (l, p) ∈ x.underway → x.latest l = some p
  returning : ∀ l ∈ x.returning, ∃ p, x.latest l = some p ∧ p ∈ x.received

/-- A packet gets labels, a packet arrives and its labels are to be acknowledged, or neither.
In each case something else may not arrive any more. -/
inductive Move (x y : Exchange Label Packet) : Prop
  | assign (labels : Set Label) (p : Packet) (hfree : ∀ l ∈ labels, x.IsFree l)
      (hnew : ∀ l ∈ labels, y.latest l = some p) (hold : ∀ l ∉ labels, y.latest l = x.latest l)
      (hunderway : ∀ l p', (l, p') ∈ y.underway → (l, p') ∈ x.underway ∨ l ∈ labels ∧ p' = p)
      (hreceived : x.received ⊆ y.received) (hreturning : y.returning ⊆ x.returning)
  | arrive (p : Packet) (hlatest : y.latest = x.latest) (hunderway : y.underway ⊆ x.underway)
      (hreceived : insert p x.received ⊆ y.received)
      (hreturning : ∀ l ∈ y.returning, l ∈ x.returning ∨ (l, p) ∈ x.underway)
  | forget (hlatest : y.latest = x.latest) (hunderway : y.underway ⊆ x.underway)
      (hreceived : x.received ⊆ y.received) (hreturning : y.returning ⊆ x.returning)

variable {x y : Exchange Label Packet}

theorem Move.consistent (h : Move x y) (hx : x.Consistent) : y.Consistent := by
  cases h with
  | assign labels p hfree hnew hold hunderway hreceived hreturning =>
    refine ⟨fun l p' h => ?_, fun l h => ?_⟩
    · rcases hunderway l p' h with h | ⟨hl, rfl⟩
      · -- what is still underway has another label
        have hl : l ∉ labels := fun hl => (hfree l hl).underway p' h
        exact (hold l hl).trans (hx.underway l p' h)
      · exact hnew l hl
    · have hl : l ∉ labels := fun hl => (hfree l hl).returning (hreturning h)
      obtain ⟨p', hp', hreceived'⟩ := hx.returning l (hreturning h)
      exact ⟨p', (hold l hl).trans hp', hreceived hreceived'⟩
  | arrive p hlatest hunderway hreceived hreturning =>
    refine ⟨fun l p' h => hlatest ▸ hx.underway l p' (hunderway h), fun l h => ?_⟩
    rcases hreturning l h with h | h
    · obtain ⟨p', hp', hreceived'⟩ := hx.returning l h
      exact ⟨p', hlatest ▸ hp', hreceived (Set.mem_insert_of_mem p hreceived')⟩
    · exact ⟨p, hlatest ▸ hx.underway l p h, hreceived (Set.mem_insert p _)⟩
  | forget hlatest hunderway hreceived hreturning =>
    refine ⟨fun l p h => hlatest ▸ hx.underway l p (hunderway h), fun l h => ?_⟩
    obtain ⟨p, hp, hp'⟩ := hx.returning l (hreturning h)
    exact ⟨p, hlatest ▸ hp, hreceived hp'⟩

end Exchange
end Goby
