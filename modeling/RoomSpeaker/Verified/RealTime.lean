import RoomSpeaker.Verified.PidLaw
import RoomSpeaker.Verified.Ticking

/-!
# The pace of the server by a real clock

The loop takes the difference of two readings for the microseconds a turn has taken.
So it is while the second does not change.  When it does, the difference is negative,
which makes it a very large one.

## Main results

* `rt_of_readAt` — what the loop takes for the time of a turn.
* `paced_by_clock` — how long each turn of the loop sleeps, by the real time it took.
-/

namespace RoomSpeaker

open Foundation

/-! ## One turn -/

/-- The clock was read at these times. -/
structure PacedIn.ReadAt (i : PacedIn) (a b : Timespec) : Prop where
  t1 : i.t1 = tickCount 1000 a
  t2 : i.t2 = tickCount 1000 b

/-- The microseconds a turn took, if it took less than 998 milliseconds in one
second; and how it is taken if the second changed. -/
theorem rt_of_readAt {i : PacedIn} {a b : Timespec} (h : i.ReadAt a b)
    (hle : a.total ≤ b.total) (hshort : elapsed a b < 998000000) :
    if a.sec = b.sec then ((i.t2 - i.t1).toNat : Int) = b.micro - a.micro
    else 2 ^ 63 ≤ (i.t2 - i.t1).toNat := by
  have ha := a.valid
  have hb := b.valid
  have hdiff := toNat_tickCount_sub 1000 a b
  have hma := a.micro_range
  have hmb := b.micro_range
  rw [tickValue_micro, tickValue_micro, ← h.t1, ← h.t2] at hdiff
  unfold elapsed Timespec.total at hshort
  unfold Timespec.total at hle
  split
  · next hsame =>
      have hnn : 0 ≤ b.micro - a.micro := by
        unfold Timespec.micro
        omega
      omega
  · next hother =>
      have hnext : b.sec = a.sec + 1 := by omega
      have hneg : b.micro - a.micro < -1000 := by
        unfold Timespec.micro
        omega
      omega

theorem slploopOf_late {rt : BitVec 64} (h : sleepOpt ≤ rt.toNat) :
    slploopOf rt = 0xF :=
  if_neg (Nat.not_lt.mpr h)

theorem slploopOf_early {rt : BitVec 64} (h : rt.toNat < sleepOpt) :
    (slploopOf rt).toNat = sleepOpt - rt.toNat := by
  rw [slploopOf, if_pos h, BitVec.toNat_sub_of_le]
  · rfl
  · rw [BitVec.le_def]
    exact h.le

/-- A turn that was late leaves the controller alone. -/
theorem steered_late {r : PacedRun} {i : PacedIn}
    (h : sleepOpt ≤ (i.t2 - i.t1).toNat) : r.steered i = none :=
  if_neg fun hsteers => absurd hsteers.2.2 (Nat.not_lt.mpr h)

/-! ## Runs -/

/-- A turn that sends a chunk, of less than 998 milliseconds by the clock: in one
second and before its time is over it sleeps its share of the real time left, and
otherwise 30 microseconds, with the controller not asked. -/
def PacedRun.PacedByClock (r : PacedRun) (i : PacedIn) : Prop :=
  ∀ a b us, i.ReadAt a b → a.total ≤ b.total → elapsed a b < 998000000 →
    (r.loop.turn i).2 = .slept us →
    (a.sec = b.sec ∧ b.micro - a.micro < sleepOpt →
      us = some (BitVec.ofNat 32 (⌊((sleepOpt : ℚ) - (b.micro - a.micro : Int)) *
        shareOf r.errors (r.steered i)⌋₊ + 0xF))) ∧
    (a.sec ≠ b.sec ∨ sleepOpt ≤ b.micro - a.micro → us = some 30 ∧ r.steered i = none)

theorem pacedByClock_of_lawful {r : PacedRun} (h : r.loop.pid.Lawful r.errors)
    (i : PacedIn) : r.PacedByClock i := by
  intro a b us hread hle hshort hslept
  have hlaw := sleepsByLaw_of_lawful h i us hslept
  have hrt := rt_of_readAt hread hle hshort
  constructor
  · rintro ⟨hsame, hearly⟩
    rw [if_pos hsame] at hrt
    have hlt : (i.t2 - i.t1).toNat < sleepOpt := by omega
    have hleft : ((slploopOf (i.t2 - i.t1)).toNat : ℚ) =
        sleepOpt - (b.micro - a.micro : Int) := by
      rw [slploopOf_early hlt, Nat.cast_sub hlt.le, ← hrt, Int.cast_natCast]
    rw [hlaw, hleft]
  · intro hlate
    have hover : sleepOpt ≤ (i.t2 - i.t1).toNat := by
      split at hrt
      · next hsame =>
          have hend := hlate.resolve_left (not_not_intro hsame)
          omega
      · exact le_trans (by decide) hrt
    have hnone := steered_late (r := r) hover
    refine ⟨?_, hnone⟩
    rw [hlaw, hnone, slploopOf_late hover, shareOf, mul_one, Nat.floor_natCast]
    rfl

end RoomSpeaker
