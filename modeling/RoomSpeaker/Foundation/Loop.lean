import Mathlib.Data.List.Basic

/-!
# While loops

A loop is a guard, a body, and a measure that the body lowers whenever the guard
holds, so that a loop that might not end cannot be built.  The measure is also
the number of turns after which the loop is over, which makes `run` structural
and lets it be evaluated.

## Main results

* `ends` — every loop ends, and ends where its guard fails.
* `after_rel` — two loops that go in step end in related states.
-/

namespace RoomSpeaker.Foundation

/-- `while(guard) body`. -/
structure Loop (σ : Type) where
  guard : σ → Bool
  body : σ → σ
  measure : σ → Nat
  falls : ∀ s, guard s = true → measure (body s) < measure s

namespace Loop

variable {σ τ : Type} (l : Loop σ)

/-- The state after at most `n` turns. -/
def after : Nat → σ → σ
  | 0, s => s
  | n + 1, s => if l.guard s then after n (l.body s) else s

/-- The state in which the loop ends. -/
def run (s : σ) : σ := l.after (l.measure s) s

/-- The states in which the body is entered, within `n` turns. -/
def entered : Nat → σ → List σ
  | 0, _ => []
  | n + 1, s => if l.guard s then s :: entered n (l.body s) else []

/-- The states in which the body is entered. -/
def turns (s : σ) : List σ := l.entered (l.measure s) s

/-- No sequence of turns from here goes on for ever. -/
def Terminates (s : σ) : Prop :=
  Acc (fun t s => l.guard s = true ∧ t = l.body s) s

theorem after_turn {n : Nat} {s : σ} (h : l.guard s = true) :
    l.after (n + 1) s = l.after n (l.body s) := by
  rw [after, if_pos h]

theorem after_done {n : Nat} {s : σ} (h : l.guard s = false) :
    l.after n s = s := by
  cases n with
  | zero => rfl
  | succ n => rw [after, if_neg (ne_true_of_eq_false h)]

theorem terminates (s : σ) : l.Terminates s := by
  have hwf : WellFounded fun t s : σ => l.measure t < l.measure s :=
    InvImage.wf l.measure Nat.lt_wfRel.wf
  apply Subrelation.accessible _ (hwf.apply s)
  rintro t s ⟨hguard, rfl⟩
  exact l.falls s hguard

/-- A loop is over after as many turns as its measure. -/
theorem guard_after (n : Nat) (s : σ) (h : l.measure s ≤ n) :
    l.guard (l.after n s) = false := by
  induction n generalizing s with
  | zero =>
      apply eq_false_of_ne_true
      intro hguard
      have hfalls := l.falls s hguard
      omega
  | succ n ih =>
      cases hguard : l.guard s with
      | true =>
          have hfalls := l.falls s hguard
          rw [l.after_turn hguard]
          exact ih (l.body s) (by omega)
      | false =>
          rw [l.after_done hguard]
          exact hguard

/-- A loop ends where its guard fails. -/
theorem guard_run (s : σ) : l.guard (l.run s) = false :=
  l.guard_after (l.measure s) s (Nat.le_refl _)

/-- The loop ends, and ends where its guard fails. -/
def Ends (s : σ) : Prop := l.Terminates s ∧ l.guard (l.run s) = false

theorem ends (s : σ) : l.Ends s := ⟨l.terminates s, l.guard_run s⟩

/-- The body is entered only where the guard holds. -/
theorem guard_of_mem_entered {n : Nat} {s t : σ} (h : t ∈ l.entered n s) :
    l.guard t = true := by
  induction n generalizing s with
  | zero => cases h
  | succ n ih =>
      rw [entered] at h
      split at h
      · next hguard =>
          rcases List.mem_cons.mp h with rfl | h
          · exact hguard
          · exact ih h
      · cases h

theorem guard_of_mem_turns {s t : σ} (h : t ∈ l.turns s) : l.guard t = true :=
  l.guard_of_mem_entered h

/-- Two loops in step: related states agree on the guards, and the bodies keep
the relation. -/
theorem after_rel {l : Loop σ} {k : Loop τ} {R : σ → τ → Prop}
    (hguard : ∀ s t, R s t → l.guard s = k.guard t)
    (hbody : ∀ s t, R s t → l.guard s = true → R (l.body s) (k.body t))
    (n : Nat) {s : σ} {t : τ} (h : R s t) : R (l.after n s) (k.after n t) := by
  induction n generalizing s t with
  | zero => exact h
  | succ n ih =>
      have hsame := hguard s t h
      cases hgo : l.guard s with
      | true =>
          rw [l.after_turn hgo, k.after_turn (hsame ▸ hgo)]
          exact ih (hbody s t h hgo)
      | false =>
          rw [l.after_done hgo, k.after_done (hsame ▸ hgo)]
          exact h

end Loop

end RoomSpeaker.Foundation
