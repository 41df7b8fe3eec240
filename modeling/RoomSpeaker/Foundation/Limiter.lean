import Mathlib.Algebra.Order.Group.Abs
import Mathlib.Order.Interval.Set.UnorderedInterval

/-!
# Limiting a controlled quantity

Two ways to limit the next value of a quantity.  `limit` cuts it off at the ends
of an interval.  `holdJump` compares it with the last value: a value too far away
is not taken, and the last one stays.

With `holdJump` the quantity never leaves an interval it is in if the values
offered lie in the interval too.
-/

namespace RoomSpeaker.Foundation

variable {α : Type*} [LinearOrder α]

/-- Cuts a value off at the ends of an interval, the upper one first. -/
def limit (lo hi x : α) : α :=
  if hi < x then hi else if x < lo then lo else x

theorem limit_mem {lo hi : α} (h : lo ≤ hi) (x : α) :
    limit lo hi x ∈ Set.Icc lo hi := by
  unfold limit
  split
  · exact ⟨h, le_refl hi⟩
  · next hhi =>
      split
      · exact ⟨le_refl lo, h⟩
      · next hlo => exact ⟨not_lt.mp hlo, not_lt.mp hhi⟩

variable [AddCommGroup α]

/-- The next value, or the last one if the next is more than `bound` away. -/
def holdJump (bound last next : α) : α :=
  if bound < |next - last| then last else next

theorem holdJump_cases (bound last next : α) :
    (bound < |next - last| ∧ holdJump bound last next = last) ∨
    (|next - last| ≤ bound ∧ holdJump bound last next = next) := by
  unfold holdJump
  by_cases h : bound < |next - last|
  · exact Or.inl ⟨h, if_pos h⟩
  · exact Or.inr ⟨not_lt.mp h, if_neg h⟩

theorem holdJump_mem {bound last next : α} {S : Set α} (hlast : last ∈ S)
    (hnext : next ∈ S) : holdJump bound last next ∈ S := by
  rcases holdJump_cases bound last next with ⟨_, heq⟩ | ⟨_, heq⟩
  · rw [heq]
    exact hlast
  · rw [heq]
    exact hnext

/-- The value moves towards the one offered, if at all. -/
theorem holdJump_mem_uIcc (bound last next : α) :
    holdJump bound last next ∈ Set.uIcc last next :=
  holdJump_mem Set.left_mem_uIcc Set.right_mem_uIcc

theorem abs_holdJump_sub_le [IsOrderedAddMonoid α] {bound : α}
    (h : 0 ≤ bound) (last next : α) :
    |holdJump bound last next - last| ≤ bound := by
  rcases holdJump_cases bound last next with ⟨_, heq⟩ | ⟨hnear, heq⟩
  · rw [heq, sub_self, abs_zero]
    exact h
  · rw [heq]
    exact hnear

end RoomSpeaker.Foundation
