import Mathlib.Data.List.Flatten

/-!
# A stream of frames that may be torn

The bytes on a connection are the encodings of some frames, all of one size, and
the beginning of one more when a send was cut short.  `Framed` is this relation
between the bytes and the frames.

## Main results

* `Framed.append`, `Framed.torn` — a frame, or the beginning of one, sent after
  whole frames.
* `Framed.uncons` — a stream that is long enough begins with its first frame.
-/

namespace RoomSpeaker.Foundation

variable {α φ : Type*} {size : Nat} {enc : φ → List α}

/-- The bytes `bs` are the frames `fs`, and less than a frame behind them. -/
structure Framed (size : Nat) (enc : φ → List α) (fs : List φ) (bs : List α) :
    Prop where
  sizes : ∀ f ∈ fs, (enc f).length = size
  split : ∃ tail : List α, tail.length < size ∧ bs = fs.flatMap enc ++ tail

theorem framed_nil (hpos : 0 < size) : Framed size enc [] ([] : List α) where
  sizes := fun f hf => by simp at hf
  split := ⟨[], hpos, rfl⟩

/-- The length of whole frames. -/
theorem length_flatMap_frames {fs : List φ}
    (h : ∀ f ∈ fs, (enc f).length = size) :
    (fs.flatMap enc).length = fs.length * size := by
  induction fs with
  | nil => simp
  | cons f fs ih =>
      have hrest := ih fun g hg => h g (List.mem_cons_of_mem _ hg)
      rw [List.flatMap_cons, List.length_append, h f List.mem_cons_self, hrest,
        List.length_cons, Nat.add_mul, Nat.one_mul, Nat.add_comm]

/-- A stream of whole frames has nothing behind them. -/
theorem Framed.whole {fs : List φ} {bs : List α} (h : Framed size enc fs bs)
    (hmod : bs.length % size = 0) : bs = fs.flatMap enc := by
  obtain ⟨tail, hlt, hbs⟩ := h.split
  rw [hbs, List.length_append, length_flatMap_frames h.sizes, Nat.add_comm,
    Nat.add_mul_mod_self_right, Nat.mod_eq_of_lt hlt] at hmod
  rw [hbs, List.length_eq_zero_iff.mp hmod, List.append_nil]

/-- A frame sent behind whole frames. -/
theorem Framed.append {fs : List φ} {bs : List α} {f : φ}
    (h : Framed size enc fs bs) (hmod : bs.length % size = 0)
    (hf : (enc f).length = size) : Framed size enc (fs ++ [f]) (bs ++ enc f) := by
  obtain ⟨tail, hlt, _⟩ := h.split
  constructor
  · intro g hg
    rcases List.mem_append.mp hg with hold | hnew
    · exact h.sizes g hold
    · rw [List.mem_singleton.mp hnew]
      exact hf
  · refine ⟨[], by simp only [List.length_nil]; omega, ?_⟩
    rw [h.whole hmod, List.flatMap_append, List.flatMap_singleton,
      List.append_nil]

/-- Less than a frame sent behind whole frames. -/
theorem Framed.torn {fs : List φ} {bs p : List α}
    (h : Framed size enc fs bs) (hmod : bs.length % size = 0)
    (hp : p.length < size) : Framed size enc fs (bs ++ p) :=
  ⟨h.sizes, p, hp, by rw [h.whole hmod]⟩

/-- No frames without bytes. -/
theorem Framed.nil_of_nil {fs : List φ} (h : Framed size enc fs ([] : List α)) :
    fs = [] := by
  obtain ⟨tail, hlt, hbs⟩ := h.split
  have hlen := congrArg List.length hbs
  rw [List.length_append, length_flatMap_frames h.sizes, List.length_nil] at hlen
  cases fs with
  | nil => rfl
  | cons f fs =>
      rw [List.length_cons, Nat.add_mul] at hlen
      omega

/-- Bytes enough for a frame begin with one, and the others follow it. -/
theorem Framed.uncons {fs : List φ} {bs : List α} (h : Framed size enc fs bs)
    (hle : size ≤ bs.length) :
    ∃ f rest, fs = f :: rest ∧ (enc f).length = size ∧
      bs = enc f ++ bs.drop size ∧ Framed size enc rest (bs.drop size) := by
  obtain ⟨tail, hlt, hbs⟩ := h.split
  cases fs with
  | nil =>
      rw [hbs] at hle
      simp only [List.flatMap_nil, List.nil_append] at hle
      omega
  | cons f rest =>
      have hf := h.sizes f List.mem_cons_self
      have hdrop : bs.drop size = rest.flatMap enc ++ tail := by
        rw [hbs, List.flatMap_cons, List.append_assoc, ← hf, List.drop_left]
      refine ⟨f, rest, rfl, hf, ?_, ?_⟩
      · rw [hdrop, hbs, List.flatMap_cons, List.append_assoc]
      · exact ⟨fun g hg => h.sizes g (List.mem_cons_of_mem _ hg), tail, hlt,
          hdrop⟩

end RoomSpeaker.Foundation
