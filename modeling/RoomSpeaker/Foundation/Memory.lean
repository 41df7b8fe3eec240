import Mathlib.Data.List.Basic

/-!
# Reading and writing at an offset

A stretch of memory as a list of cells.  `storeAt` writes cells over those from
an offset on; `readAt` reads as many as are wanted.  What is written inside the
memory is read back, and a stretch that does not meet it reads as before.
-/

namespace RoomSpeaker.Foundation

variable {α : Type*}

/-- Cells written into memory at an offset. -/
def storeAt (mem : List α) (off : Nat) (xs : List α) : List α :=
  mem.take off ++ (xs ++ mem.drop (off + xs.length))

/-- The `n` cells from an offset on. -/
def readAt (mem : List α) (off n : Nat) : List α := (mem.drop off).take n

theorem storeAt_nil (mem : List α) (off : Nat) : storeAt mem off [] = mem := by
  simp [storeAt]

theorem length_storeAt {mem : List α} {off : Nat} {xs : List α}
    (h : off + xs.length ≤ mem.length) :
    (storeAt mem off xs).length = mem.length := by
  simp only [storeAt, List.length_append, List.length_take, List.length_drop]
  omega

private theorem length_take_off {mem : List α} {off n : Nat}
    (h : off + n ≤ mem.length) : (mem.take off).length = off := by
  rw [List.length_take]
  omega

/-- The cells behind those written. -/
private theorem drop_storeAt {mem : List α} {off : Nat} {xs : List α}
    (h : off + xs.length ≤ mem.length) :
    (storeAt mem off xs).drop (off + xs.length) =
      mem.drop (off + xs.length) := by
  have hfront : (mem.take off ++ xs).length = off + xs.length := by
    rw [List.length_append, length_take_off h]
  rw [storeAt, ← List.append_assoc, List.drop_left' hfront]

/-- Writing on behind the cells written last. -/
theorem storeAt_storeAt {mem : List α} {off : Nat} (xs ys : List α)
    (h : off + xs.length ≤ mem.length) :
    storeAt (storeAt mem off xs) (off + xs.length) ys =
      storeAt mem off (xs ++ ys) := by
  have hfront : (mem.take off ++ xs).length = off + xs.length := by
    rw [List.length_append, length_take_off h]
  have htake : (storeAt mem off xs).take (off + xs.length) =
      mem.take off ++ xs := by
    rw [storeAt, ← List.append_assoc, List.take_left' hfront]
  have hdrop : (storeAt mem off xs).drop (off + xs.length + ys.length) =
      mem.drop (off + (xs ++ ys).length) := by
    rw [← List.drop_drop, drop_storeAt h, List.drop_drop, List.length_append,
      Nat.add_assoc]
  rw [storeAt, htake, hdrop, storeAt]
  simp only [List.append_assoc]

/-- What was written is read back. -/
theorem readAt_storeAt {mem : List α} {off : Nat} {xs : List α}
    (h : off + xs.length ≤ mem.length) :
    readAt (storeAt mem off xs) off xs.length = xs := by
  rw [readAt, storeAt, List.drop_left' (length_take_off h), List.take_left]

/-- A stretch before the cells written. -/
theorem readAt_storeAt_before {mem : List α} {off at' n : Nat} {xs : List α}
    (h : off + xs.length ≤ mem.length) (hbefore : at' + n ≤ off) :
    readAt (storeAt mem off xs) at' n = readAt mem at' n := by
  have hlen := length_take_off h
  rw [readAt, storeAt, List.drop_append_of_le_length (by omega),
    List.take_append_of_le_length (by rw [List.length_drop]; omega),
    List.drop_take, List.take_take, Nat.min_eq_left (by omega), readAt]

/-- A stretch behind the cells written. -/
theorem readAt_storeAt_after {mem : List α} {off at' n : Nat} {xs : List α}
    (h : off + xs.length ≤ mem.length) (hafter : off + xs.length ≤ at') :
    readAt (storeAt mem off xs) at' n = readAt mem at' n := by
  obtain ⟨k, rfl⟩ := Nat.exists_eq_add_of_le hafter
  rw [readAt, readAt, ← List.drop_drop, drop_storeAt h, List.drop_drop]

end RoomSpeaker.Foundation
