import Mathlib.Data.List.Basic

/-!
# What is pending in a history

A history is a list of observations, the newest last.  An observation may open
an obligation and a later one may close it; both may depend on what was seen
before.  `Pending` says that some obligation was opened and not closed since,
`NotYet` that nothing of a kind has been seen at all.

## Main results

* `pending_snoc`, `notYet_snoc` — what one more observation changes.
-/

namespace RoomSpeaker.Foundation

variable {ο : Type*}

/-- No observation of the history has the property, which may depend on the
observations before it. -/
def NotYet (seen : List ο → ο → Prop) (h : List ο) : Prop :=
  ∀ a x b, h = a ++ x :: b → ¬seen a x

/-- Some observation opened an obligation, and none after it closed it. -/
def Pending (opens closes : List ο → ο → Prop) (h : List ο) : Prop :=
  ∃ a x b, h = a ++ x :: b ∧ opens a x ∧
    NotYet (fun c y => closes (a ++ x :: c) y) b

theorem notYet_nil (seen : List ο → ο → Prop) : NotYet seen [] := by
  intro a x b h
  simp at h

theorem not_pending_nil (opens closes : List ο → ο → Prop) :
    ¬Pending opens closes [] := by
  rintro ⟨a, x, b, h, _⟩
  simp at h

/-- A history that ends in `y`, cut before an observation: the cut is at `y`, or
`y` ends the part behind it. -/
private theorem snoc_eq_append_cons {h a b : List ο} {x y : ο}
    (heq : h ++ [y] = a ++ x :: b) :
    (b = [] ∧ a = h ∧ x = y) ∨ ∃ c, b = c ++ [y] ∧ h = a ++ x :: c := by
  rcases List.eq_nil_or_concat b with rfl | ⟨c, z, rfl⟩
  · obtain ⟨hh, hy⟩ := List.append_inj' heq rfl
    exact Or.inl ⟨rfl, hh.symm, (List.cons.inj hy).1.symm⟩
  · have hassoc : h ++ [y] = (a ++ x :: c) ++ [z] := by
      rw [heq]
      simp
    obtain ⟨hh, hy⟩ := List.append_inj' hassoc rfl
    obtain rfl : y = z := (List.cons.inj hy).1
    exact Or.inr ⟨c, by simp, hh⟩

/-- One more observation. -/
theorem notYet_snoc {seen : List ο → ο → Prop} {h : List ο} {y : ο} :
    NotYet seen (h ++ [y]) ↔ NotYet seen h ∧ ¬seen h y := by
  constructor
  · intro hnot
    constructor
    · intro a x b heq
      apply hnot a x (b ++ [y])
      rw [heq]
      simp
    · exact hnot h y [] rfl
  · rintro ⟨hold, hnew⟩ a x b heq
    rcases snoc_eq_append_cons heq with ⟨_, rfl, rfl⟩ | ⟨c, _, hh⟩
    · exact hnew
    · exact hold a x c hh

/-- After one more observation an obligation is pending when this one opened it,
or when it was pending and this one did not close it. -/
theorem pending_snoc {opens closes : List ο → ο → Prop} {h : List ο} {y : ο} :
    Pending opens closes (h ++ [y]) ↔
      opens h y ∨ (Pending opens closes h ∧ ¬closes h y) := by
  constructor
  · rintro ⟨a, x, b, heq, hopen, hnot⟩
    rcases snoc_eq_append_cons heq with ⟨_, rfl, rfl⟩ | ⟨c, rfl, rfl⟩
    · exact Or.inl hopen
    · obtain ⟨hold, hnew⟩ := notYet_snoc.mp hnot
      exact Or.inr ⟨⟨a, x, c, rfl, hopen, hold⟩, hnew⟩
  · rintro (hopen | ⟨⟨a, x, b, rfl, hopen, hnot⟩, hnew⟩)
    · exact ⟨h, y, [], rfl, hopen, notYet_nil _⟩
    · refine ⟨a, x, b ++ [y], by simp, hopen, ?_⟩
      exact notYet_snoc.mpr ⟨hnot, hnew⟩

end RoomSpeaker.Foundation
