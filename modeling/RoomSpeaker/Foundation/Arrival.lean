import Mathlib.Data.List.Basic

/-!
# Order of arrival

A list of names, each standing where it last arrived, and the earliest of a
group of names in that order.

## Main results

* `earliest_of_subset`, `earliest_arrive` — the earliest of a group stays the
  earliest while others leave the group, and when another arrives.
-/

namespace RoomSpeaker.Foundation

variable {α : Type}

private theorem find_of_imp {l : List α} {p q : α → Bool} {a : α}
    (h : l.find? p = some a) (ha : q a = true)
    (himp : ∀ b, q b = true → p b = true) : l.find? q = some a := by
  rw [List.find?_eq_some_iff_append] at h ⊢
  obtain ⟨_, as, bs, hl, has⟩ := h
  refine ⟨ha, as, bs, hl, ?_⟩
  intro b hb
  cases hq : q b with
  | false => rfl
  | true =>
      have hp := has b hb
      rw [himp b hq] at hp
      exact absurd hp (by decide)

variable [DecidableEq α]

/-- A name that arrives goes to the end of the order. -/
def arrive (l : List α) (a : α) : List α :=
  l.filter (fun b => decide (b ≠ a)) ++ [a]

/-- The name of the group that arrived first. -/
def earliest (l ks : List α) : Option α :=
  l.find? fun a => decide (a ∈ ks)

theorem mem_arrive (l : List α) (a b : α) :
    b ∈ arrive l a ↔ b ∈ l ∨ b = a := by
  by_cases h : b = a
  · simp [arrive, h]
  · simp [arrive, h]

theorem earliest_mem {l ks : List α} {a : α} (h : earliest l ks = some a) :
    a ∈ ks := by
  simpa using List.find?_some h

/-- A group of names that have arrived has an earliest one. -/
theorem exists_earliest {l ks : List α} {a : α} (hl : a ∈ l) (hk : a ∈ ks) :
    ∃ b, earliest l ks = some b := by
  apply Option.isSome_iff_exists.mp
  rw [earliest, List.find?_isSome]
  exact ⟨a, hl, by simpa using hk⟩

/-- Who is earliest in a group is earliest in each part of it. -/
theorem earliest_of_subset {l ks ks' : List α} {a : α}
    (h : earliest l ks = some a) (ha : a ∈ ks')
    (hsub : ∀ b ∈ ks', b ∈ ks) : earliest l ks' = some a := by
  apply find_of_imp h
  · exact decide_eq_true ha
  · intro b hb
    exact decide_eq_true (hsub b (of_decide_eq_true hb))

/-- Who is earliest in a group stays so when a newcomer arrives and others
leave. -/
theorem earliest_arrive {l ks ks' : List α} {a x : α}
    (h : earliest l ks = some a) (hx : x ∉ ks) (ha : a ∈ ks')
    (hsub : ∀ b ∈ ks', b ∈ ks ∨ b = x) : earliest (arrive l x) ks' = some a := by
  have hne : a ≠ x := by
    intro heq
    exact hx (heq ▸ earliest_mem h)
  have hold : (l.filter fun b => decide (b ≠ x)).find?
      (fun b => decide (b ∈ ks')) = some a := by
    rw [List.find?_filter]
    apply find_of_imp h
    · simp [hne, ha]
    · intro b hb
      simp only [ne_eq, decide_not, Bool.not_eq_eq_eq_not, Bool.not_true,
        decide_eq_false_iff_not, decide_eq_true_eq] at hb
      rcases hsub b hb.2 with hk | hk
      · exact decide_eq_true hk
      · exact absurd hk hb.1
  unfold earliest arrive
  rw [List.find?_append, hold]
  rfl

/-- The first to arrive in an empty group. -/
theorem earliest_arrive_alone {l ks : List α} {x : α}
    (h : ∀ b, b ∈ ks ↔ b = x) : earliest (arrive l x) ks = some x := by
  have hnone : (l.filter fun b => decide (b ≠ x)).find?
      (fun b => decide (b ∈ ks)) = none := by
    rw [List.find?_eq_none]
    intro b hb
    have hne := of_decide_eq_true (List.mem_filter.mp hb).2
    simp [h, hne]
  unfold earliest arrive
  rw [List.find?_append, hnone]
  simp [h]

end RoomSpeaker.Foundation
