import Mathlib.Data.List.Nodup
import Mathlib.Data.List.Range
import Mathlib.Data.Nat.ModEq

/-!
# Windows of a ring

`n` places are arranged in a ring.  The window of length `e` at `g` lists the
places `g, g + 1, …` modulo `n` in order: the places a ring buffer uses when its
read cursor stands at `g` and it holds `e` elements.  Serving the oldest element
peels the window at the front, accepting a new one extends it at the back.
-/

namespace RoomSpeaker.Foundation

/-- The `e` consecutive places of a ring of `n` places that start at `g`. -/
def window (n g e : Nat) : List Nat :=
  (List.range e).map fun j => (g + j) % n

@[simp] theorem length_window (n g e : Nat) : (window n g e).length = e := by
  simp [window]

@[simp] theorem window_zero (n g : Nat) : window n g 0 = [] := rfl

/-- The oldest place comes first. -/
theorem window_succ (n g e : Nat) :
    window n g (e + 1) = g % n :: window n (g + 1) e := by
  simp only [window, List.range_succ_eq_map, List.map_cons, List.map_map,
    Nat.add_zero]
  congr 1
  apply List.map_congr_left
  intro j _
  simp only [Function.comp, Nat.succ_eq_add_one]
  congr 1
  omega

/-- The newest place comes last. -/
theorem window_succ_last (n g e : Nat) :
    window n g (e + 1) = window n g e ++ [(g + e) % n] := by
  simp only [window, List.range_succ, List.map_append, List.map_cons,
    List.map_nil]

/-- Only the cursor's place on the ring matters. -/
@[simp] theorem window_mod (n g e : Nat) :
    window n (g % n) e = window n g e := by
  simp only [window, Nat.mod_add_mod]

theorem window_drop (n g e k : Nat) :
    (window n g e).drop k = window n (g + k) (e - k) := by
  induction k generalizing g e with
  | zero => simp
  | succ k ih =>
      cases e with
      | zero => simp
      | succ e =>
          rw [window_succ, List.drop_succ_cons, ih]
          congr 1 <;> omega

private theorem offset_inj {n g i j : Nat} (hi : i < n) (hj : j < n)
    (h : (g + i) % n = (g + j) % n) : i = j := by
  have hmod : i % n = j % n := Nat.ModEq.add_left_cancel' g h
  rwa [Nat.mod_eq_of_lt hi, Nat.mod_eq_of_lt hj] at hmod

/-- A window no longer than the ring visits no place twice. -/
theorem window_nodup {n g e : Nat} (he : e ≤ n) : (window n g e).Nodup := by
  refine List.Nodup.map_on ?_ List.nodup_range
  intro i hi j hj h
  rw [List.mem_range] at hi hj
  exact offset_inj (by omega) (by omega) h

/-- While the ring is not full, the next place is not in use. -/
theorem next_notMem_window {n g e : Nat} (he : e < n) :
    (g + e) % n ∉ window n g e := by
  have hnodup : (window n g (e + 1)).Nodup := window_nodup he
  rw [window_succ_last, List.nodup_append] at hnodup
  intro hmem
  exact hnodup.2.2 _ hmem _ (by simp) rfl

end RoomSpeaker.Foundation
