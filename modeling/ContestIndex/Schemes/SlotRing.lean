import Mathlib.Logic.Function.Basic
import Mathlib.Tactic.Common

/-! @scheme ring | name:A ring of slots | layer:library

    A ring has `size` slots and a position. A push writes the slot at the position and moves on, behind
    the last slot to the first. A ring that was filled once and is then rewound is overwritten from its
    first slot on; which slots hold something depends on two numbers only:

        slot     0    …   m-1 │ m   …   filled-1 │ filled   …   size-1
                 pushed since │ still there from │ never written
                 the rewind   │ before           │                        m ≤ filled ≤ size -/

namespace Schemes

variable {α : Type}

structure SlotRing (α : Type) where
  slot : Nat → Option α
  pos : Nat

namespace SlotRing

/-- A ring before anything is written. -/
def fresh : SlotRing α := { slot := fun _ => none, pos := 0 }

def push (size : Nat) (r : SlotRing α) (a : α) : SlotRing α :=
  { slot := Function.update r.slot r.pos (some a), pos := (r.pos + 1) % size }

/-- Back to the first slot, with everything left in place. -/
def rewind (r : SlotRing α) : SlotRing α := { r with pos := 0 }

@[simp] theorem push_slot_self (size : Nat) (r : SlotRing α) (a : α) :
    (r.push size a).slot r.pos = some a := Function.update_self ..

theorem push_slot_of_ne {size c : Nat} {r : SlotRing α} (hc : c ≠ r.pos) (a : α) :
    (r.push size a).slot c = r.slot c := Function.update_of_ne hc ..

/-- How many slots hold something after `pushed` pushes on a ring of which `filled` slots did. -/
def covered (size filled pushed : Nat) : Nat := min size (max filled pushed)

theorem covered_le_size (size filled pushed : Nat) : covered size filled pushed ≤ size :=
  Nat.min_le_left ..

/-- A push covers the slot that it writes. -/
theorem lt_covered_succ {size filled m c : Nat} (hsize : 0 < size) :
    c < covered size filled (m + 1) ↔ c = m % size ∨ c < covered size filled m := by
  have hmod : m % size < size := Nat.mod_lt m hsize
  simp only [covered]
  rcases Nat.lt_or_ge m size with hm | hm
  · rw [Nat.mod_eq_of_lt hm]
    omega
  · omega

/-- The ring is where `pushed` pushes have brought it, and exactly the covered slots hold something. -/
structure Covers (size filled pushed : Nat) (r : SlotRing α) : Prop where
  pos : r.pos = pushed % size
  slot : ∀ c, (r.slot c).isSome ↔ c < covered size filled pushed

theorem fresh_covers (size : Nat) : Covers size 0 0 (fresh : SlotRing α) where
  pos := (Nat.zero_mod size).symm
  slot := fun c => by simp [fresh, covered]

/-- STEP (push). -/
theorem Covers.push {size filled m : Nat} {r : SlotRing α} (h : Covers size filled m r)
    (hsize : 0 < size) (a : α) : Covers size filled (m + 1) (r.push size a) where
  pos := by rw [SlotRing.push, h.pos, Nat.mod_add_mod]
  slot := by
    intro c
    rw [lt_covered_succ hsize, ← h.pos, ← h.slot]
    by_cases hc : c = r.pos
    · simp [hc]
    · simp [hc, push_slot_of_ne hc]

/-- STEP (rewind): what was pushed is now what the ring is filled with. -/
theorem Covers.rewind {size m : Nat} {r : SlotRing α} (h : Covers size 0 m r) :
    Covers size m 0 r.rewind where
  pos := (Nat.zero_mod size).symm
  slot := by
    intro c
    rw [SlotRing.rewind, h.slot, covered, covered, Nat.max_comm]

/-- What every slot holds is as `p` says. -/
def Holds (p : Nat → α → Prop) (r : SlotRing α) : Prop := ∀ c a, r.slot c = some a → p c a

theorem fresh_holds (p : Nat → α → Prop) : Holds p fresh := fun _ _ h => nomatch h

theorem Holds.mono {p q : Nat → α → Prop} {r : SlotRing α} (h : Holds p r) (hpq : ∀ c a, p c a → q c a) :
    Holds q r := fun c a hc => hpq c a (h c a hc)

theorem Holds.push {p : Nat → α → Prop} {r : SlotRing α} (h : Holds p r) {a : α} (ha : p r.pos a)
    (size : Nat) : Holds p (r.push size a) := by
  intro c b hb
  by_cases hc : c = r.pos
  · subst hc
    obtain rfl : a = b := by simpa using hb
    exact ha
  · rw [push_slot_of_ne hc] at hb
    exact h c b hb

end SlotRing

end Schemes
