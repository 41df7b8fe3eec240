import Mathlib.Logic.Function.Basic
import RoomSpeaker.Foundation.Run

/-!
# Custody by flags

Parties take resources and give them back; a resource has one flag that says it
is taken, and nothing that says by whom.  `Locking` is the discipline: a party
that holds nothing takes a resource whose flag is down and raises it, or gives
back what it holds and takes the flag down.  Who holds what is a ghost, `hold`.

## Main results

* `Locking.guarded` — the flags and the holders agree, and no two parties hold
  one resource.
* `free_between` — a resource passes from one party to another only through a
  state in which nobody holds it.
-/

namespace RoomSpeaker.Foundation

variable {τ ρ σ ι : Type*} [DecidableEq τ] [DecidableEq ρ]

/-- What a step may do to the holders and the flags. -/
inductive Locking (hold hold' : τ → Option ρ) (lock lock' : ρ → Bool) : Prop
  | keep (hh : hold' = hold) (hl : lock' = lock) : Locking hold hold' lock lock'
  | take (t : τ) (r : ρ) (hidle : hold t = none) (hfree : lock r = false)
      (hh : hold' = Function.update hold t (some r))
      (hl : lock' = Function.update lock r true) : Locking hold hold' lock lock'
  | give (t : τ) (r : ρ) (hheld : hold t = some r)
      (hh : hold' = Function.update hold t none)
      (hl : lock' = Function.update lock r false) : Locking hold hold' lock lock'

/-- The flags that are up are those of the resources held, and no resource is
held twice. -/
structure Guarded (hold : τ → Option ρ) (lock : ρ → Bool) : Prop where
  locked : ∀ r, lock r = true ↔ ∃ t, hold t = some r
  apart : ∀ t t' r, hold t = some r → hold t' = some r → t = t'

omit [DecidableEq τ] [DecidableEq ρ] in
/-- A resource whose flag is down is nobody's. -/
theorem Guarded.free {hold : τ → Option ρ} {lock : ρ → Bool}
    (h : Guarded hold lock) {r : ρ} (hr : lock r = false) (t : τ) :
    hold t ≠ some r := by
  intro ht
  have hlocked := (h.locked r).mpr ⟨t, ht⟩
  rw [hr] at hlocked
  cases hlocked

omit [DecidableEq τ] [DecidableEq ρ] in
/-- With all parties idle, all flags are down. -/
theorem Guarded.idle {hold : τ → Option ρ} {lock : ρ → Bool}
    (h : Guarded hold lock) (hidle : ∀ t, hold t = none) (r : ρ) :
    lock r = false := by
  by_contra hr
  obtain ⟨t, ht⟩ := (h.locked r).mp (by simpa using hr)
  rw [hidle t] at ht
  cases ht

/-- Taking a resource whose flag is down. -/
private theorem Guarded.take {hold : τ → Option ρ} {lock : ρ → Bool}
    (h : Guarded hold lock) {t : τ} {r : ρ} (hidle : hold t = none)
    (hfree : lock r = false) :
    Guarded (Function.update hold t (some r)) (Function.update lock r true) := by
  have hcases : ∀ u x, Function.update hold t (some r) u = some x ↔
      (u = t ∧ x = r) ∨ hold u = some x := by
    intro u x
    by_cases hu : u = t
    · subst hu
      rw [Function.update_self, hidle]
      simp [eq_comm]
    · rw [Function.update_of_ne hu]
      simp [hu]
  constructor
  · intro x
    simp only [hcases]
    by_cases hx : x = r
    · subst hx
      rw [Function.update_self]
      simp
    · rw [Function.update_of_ne hx, h.locked x]
      simp [hx]
  · intro u v x hu hv
    rw [hcases] at hu hv
    rcases hu with ⟨rfl, rfl⟩ | hu
    · rcases hv with ⟨rfl, _⟩ | hv
      · rfl
      · exact absurd hv (h.free hfree v)
    · rcases hv with ⟨rfl, rfl⟩ | hv
      · exact absurd hu (h.free hfree u)
      · exact h.apart u v x hu hv

/-- Giving back what one holds. -/
private theorem Guarded.give {hold : τ → Option ρ} {lock : ρ → Bool}
    (h : Guarded hold lock) {t : τ} {r : ρ} (hheld : hold t = some r) :
    Guarded (Function.update hold t none) (Function.update lock r false) := by
  have hcases : ∀ u x, Function.update hold t none u = some x ↔
      u ≠ t ∧ hold u = some x := by
    intro u x
    by_cases hu : u = t
    · subst hu
      rw [Function.update_self]
      simp
    · rw [Function.update_of_ne hu]
      simp [hu]
  constructor
  · intro x
    simp only [hcases]
    by_cases hx : x = r
    · subst hx
      rw [Function.update_self]
      constructor
      · intro hfalse
        cases hfalse
      · rintro ⟨u, hne, hu⟩
        exact absurd (h.apart u t x hu hheld) hne
    · rw [Function.update_of_ne hx, h.locked x]
      constructor
      · rintro ⟨u, hu⟩
        refine ⟨u, ?_, hu⟩
        rintro rfl
        rw [hheld] at hu
        exact hx (Option.some.inj hu).symm
      · rintro ⟨u, _, hu⟩
        exact ⟨u, hu⟩
  · intro u v x hu hv
    rw [hcases] at hu hv
    exact h.apart u v x hu.2 hv.2

/-- The discipline keeps flags and holders in agreement. -/
theorem Locking.guarded {hold hold' : τ → Option ρ} {lock lock' : ρ → Bool}
    (h : Locking hold hold' lock lock') (hguard : Guarded hold lock) :
    Guarded hold' lock' := by
  cases h with
  | keep hh hl =>
      rw [hh, hl]
      exact hguard
  | take t r hidle hfree hh hl =>
      rw [hh, hl]
      exact hguard.take hidle hfree
  | give t r hheld hh hl =>
      rw [hh, hl]
      exact hguard.give hheld

/-- A party keeps what it holds or is left with nothing. -/
theorem Locking.held {hold hold' : τ → Option ρ} {lock lock' : ρ → Bool}
    (h : Locking hold hold' lock lock') {t : τ} {r : ρ}
    (ht : hold t = some r) : hold' t = some r ∨ hold' t = none := by
  cases h with
  | keep hh hl =>
      rw [hh]
      exact Or.inl ht
  | take u x hidle hfree hh hl =>
      have hne : t ≠ u := by
        rintro rfl
        rw [hidle] at ht
        cases ht
      rw [hh, Function.update_of_ne hne]
      exact Or.inl ht
  | give u x hheld hh hl =>
      rw [hh]
      by_cases htu : t = u
      · subst htu
        rw [Function.update_self]
        exact Or.inr rfl
      · rw [Function.update_of_ne htu]
        exact Or.inl ht

/-! ## Runs -/

section

variable {step : σ → ι → σ} {hold : σ → τ → Option ρ} {lock : σ → ρ → Bool}

/-- The agreement along a run that keeps the discipline. -/
theorem guarded_run (is : List ι) (s : σ)
    (h : Along step (fun s i => Locking (hold s) (hold (step s i)) (lock s)
      (lock (step s i))) s is) (hguard : Guarded (hold s) (lock s)) :
    Throughout step (fun s => Guarded (hold s) (lock s)) s is :=
  throughout_of_along (I := fun s => Guarded (hold s) (lock s))
    (fun _ _ hI hC => hC.guarded hI) (fun _ hI => hI) is s hguard h

/-- A resource that is held by someone all along a run stays with the party
that holds it. -/
theorem free_between {r : ρ} (is : List ι) :
    ∀ (s : σ) (t : τ),
      Along step (fun s i => Locking (hold s) (hold (step s i)) (lock s)
        (lock (step s i))) s is →
      Guarded (hold s) (lock s) → hold s t = some r →
      Throughout step (fun s => ∃ u, hold s u = some r) s is →
      hold (run step s is) t = some r := by
  induction is with
  | nil => intro s t _ _ ht _; exact ht
  | cons i is ih =>
      intro s t hlocking hguard ht hbusy
      have hnext := hlocking.1.guarded hguard
      rcases hlocking.1.held ht with hsame | hnone
      · exact ih (step s i) t hlocking.2 hnext hsame hbusy.2
      · -- another party would have had to take it while it was held
        obtain ⟨u, hu⟩ := hbusy.2.head
        have hother : u ≠ t := by
          rintro rfl
          rw [hnone] at hu
          cases hu
        cases hlocking.1 with
        | keep hh hl =>
            rw [hh, ht] at hnone
            cases hnone
        | take v x hidle hfree hh hl =>
            have hne : t ≠ v := by
              rintro rfl
              rw [hidle] at ht
              cases ht
            rw [hh, Function.update_of_ne hne, ht] at hnone
            cases hnone
        | give v x hheld hh hl =>
            have hv : t = v := by
              by_contra hne
              rw [hh, Function.update_of_ne hne, ht] at hnone
              cases hnone
            subst hv
            rw [hh, Function.update_of_ne hother] at hu
            exact absurd (hguard.apart u t r hu ht) hother

end

end RoomSpeaker.Foundation
