import Mathlib.Data.List.Forall2

/-!
# Lists related entry by entry

A loop that visits a list and leaves one entry for each it visits relates the
two lists by `List.Forall₂`.  These lemmas read facts about the result off the
relation of the single entries.
-/

namespace RoomSpeaker.Foundation

variable {α β γ : Type*} {R : α → β → Prop}

/-- Related entries are entries of the two lists. -/
theorem forall₂_mem {xs : List α} {ys : List β} (h : List.Forall₂ R xs ys) :
    List.Forall₂ (fun x y => R x y ∧ x ∈ xs ∧ y ∈ ys) xs ys := by
  induction h with
  | nil => exact .nil
  | cons hhead _ ih =>
      apply List.Forall₂.cons
      · exact ⟨hhead, List.mem_cons_self, List.mem_cons_self⟩
      · apply ih.imp
        rintro x y ⟨hxy, hx, hy⟩
        exact ⟨hxy, List.mem_cons_of_mem _ hx, List.mem_cons_of_mem _ hy⟩

/-- An entry of the result stands for one of the original. -/
theorem exists_left_of_forall₂ {xs : List α} {ys : List β}
    (h : List.Forall₂ R xs ys) {y : β} (hy : y ∈ ys) : ∃ x ∈ xs, R x y := by
  induction h with
  | nil => cases hy
  | cons hhead _ ih =>
      rcases List.mem_cons.mp hy with rfl | hy
      · exact ⟨_, List.mem_cons_self, hhead⟩
      · obtain ⟨x, hx, hxy⟩ := ih hy
        exact ⟨x, List.mem_cons_of_mem _ hx, hxy⟩

/-- An entry of the original has one standing for it in the result. -/
theorem exists_right_of_forall₂ {xs : List α} {ys : List β}
    (h : List.Forall₂ R xs ys) {x : α} (hx : x ∈ xs) : ∃ y ∈ ys, R x y := by
  obtain ⟨y, hy, hxy⟩ := exists_left_of_forall₂ h.flip hx
  exact ⟨y, hy, hxy⟩

/-- What related entries have in common the lists have in common. -/
theorem map_eq_of_forall₂ (f : α → γ) (g : β → γ)
    (hR : ∀ x y, R x y → g y = f x) {xs : List α} {ys : List β}
    (h : List.Forall₂ R xs ys) : ys.map g = xs.map f := by
  induction h with
  | nil => rfl
  | cons hhead _ ih => rw [List.map_cons, List.map_cons, hR _ _ hhead, ih]

end RoomSpeaker.Foundation
