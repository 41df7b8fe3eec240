import Mathlib.Data.List.Basic

/-!
# Runs of a deterministic step function

A system is a total function `step : σ → ι → σ`; whatever the environment
chooses (a schedule, a packet, a clock reading) arrives as the input.  A run is
then a list of inputs, and every question about "any order of events" is a
question about all such lists.

Two predicates describe a run.  `Along C` says that each step is taken from a
state in which the condition `C` holds of the state and the input.
`Throughout P` says that every state the run passes through, the first and the
last included, satisfies `P`.

## Main results

* `throughout_of_inv` — what an inductive invariant implies holds all along
  every run.
* `along_of_inv`, `throughout_of_along` — an invariant kept by the steps that
  meet a condition carries facts along the runs whose steps all meet it.
* `throughout_iff_along_under`, `along_iff_along` — if an invariant is kept by
  the steps that meet a condition, and a step that misses it breaks the property
  at once, then the property holds all along a run iff every step meets the
  condition.
* `trace_append` — the observations of a run are those of its parts in order.
* `run_lockstep` — two systems that keep a relation step by step keep it over
  whole runs.
* `run_view` — if every step is, in a view of the state, some steps of another
  system, every run is a run of it.
-/

namespace RoomSpeaker.Foundation

variable {σ ι ο : Type*}

/-- The state after feeding the inputs to the system one by one. -/
def run (step : σ → ι → σ) : σ → List ι → σ
  | s, [] => s
  | s, i :: is => run step (step s i) is

/-- Every step of the run meets the condition in the state it starts from. -/
def Along (step : σ → ι → σ) (C : σ → ι → Prop) : σ → List ι → Prop
  | _, [] => True
  | s, i :: is => C s i ∧ Along step C (step s i) is

/-- Every state the run passes through satisfies the property. -/
def Throughout (step : σ → ι → σ) (P : σ → Prop) : σ → List ι → Prop
  | s, [] => P s
  | s, i :: is => P s ∧ Throughout step P (step s i) is

/-- A decidable condition can be checked along a concrete run. -/
instance decidableAlong (step : σ → ι → σ) (C : σ → ι → Prop)
    [h : ∀ s i, Decidable (C s i)] :
    ∀ (s : σ) (is : List ι), Decidable (Along step C s is)
  | _, [] => isTrue trivial
  | s, i :: is =>
      have := decidableAlong step C (step s i) is
      inferInstanceAs (Decidable (C s i ∧ Along step C (step s i) is))

@[simp] theorem run_nil (step : σ → ι → σ) (s : σ) : run step s [] = s := rfl

@[simp] theorem run_cons (step : σ → ι → σ) (s : σ) (i : ι) (is : List ι) :
    run step s (i :: is) = run step (step s i) is := rfl

theorem run_append (step : σ → ι → σ) (is js : List ι) :
    ∀ s, run step s (is ++ js) = run step (run step s is) js := by
  induction is with
  | nil => intro s; rfl
  | cons i is ih => intro s; exact ih (step s i)

theorem along_append {step : σ → ι → σ} {C : σ → ι → Prop} (is js : List ι) :
    ∀ s, Along step C s (is ++ js) ↔
      Along step C s is ∧ Along step C (run step s is) js := by
  induction is with
  | nil => intro s; simp [Along]
  | cons i is ih => intro s; simp [Along, ih, and_assoc]

/-- The first state of a run that satisfies `P` throughout satisfies `P`. -/
theorem Throughout.head {step : σ → ι → σ} {P : σ → Prop} {s : σ} {is : List ι}
    (h : Throughout step P s is) : P s := by
  cases is with
  | nil => exact h
  | cons i is => exact h.1

/-- The last state of a run that satisfies `P` throughout satisfies `P`. -/
theorem Throughout.last {step : σ → ι → σ} {P : σ → Prop} :
    ∀ {is : List ι} {s : σ}, Throughout step P s is → P (run step s is) := by
  intro is
  induction is with
  | nil => intro s h; exact h
  | cons i is ih => intro s h; exact ih h.2

/-! ## Invariants -/

/-- If the invariant `I` is kept by the steps that meet `C`, and such steps
also meet `D`, then a run along `C` is a run along `D`. -/
theorem along_of_inv {step : σ → ι → σ} {I : σ → Prop} {C D : σ → ι → Prop}
    (hkeep : ∀ s i, I s → C s i → I (step s i))
    (himp : ∀ s i, I s → C s i → D s i) :
    ∀ (is : List ι) (s : σ), I s → Along step C s is → Along step D s is := by
  intro is
  induction is with
  | nil => intro s _ _; trivial
  | cons i is ih =>
      intro s hI hC
      exact ⟨himp s i hI hC.1, ih (step s i) (hkeep s i hI hC.1) hC.2⟩

/-- An invariant kept by the steps that meet `C` holds in every state of a run
along `C`. -/
theorem throughout_of_along {step : σ → ι → σ} {I P : σ → Prop}
    {C : σ → ι → Prop} (hkeep : ∀ s i, I s → C s i → I (step s i))
    (himp : ∀ s, I s → P s) :
    ∀ (is : List ι) (s : σ), I s → Along step C s is →
      Throughout step P s is := by
  intro is
  induction is with
  | nil => intro s hI _; exact himp s hI
  | cons i is ih =>
      intro s hI hC
      exact ⟨himp s hI, ih (step s i) (hkeep s i hI hC.1) hC.2⟩

/-- Two conditions met all along. -/
theorem along_and {step : σ → ι → σ} {C D : σ → ι → Prop} (is : List ι) :
    ∀ s, Along step C s is → Along step D s is →
      Along step (fun s i => C s i ∧ D s i) s is := by
  induction is with
  | nil => intro s _ _; trivial
  | cons i is ih => intro s hC hD; exact ⟨⟨hC.1, hD.1⟩, ih (step s i) hC.2 hD.2⟩

/-- Every run meets the condition that asks nothing. -/
theorem along_true (step : σ → ι → σ) (is : List ι) :
    ∀ s, Along step (fun _ _ => True) s is := by
  induction is with
  | nil => intro s; trivial
  | cons i is ih => intro s; exact ⟨trivial, ih (step s i)⟩

/-- An invariant kept by every step holds in every state of every run. -/
theorem throughout_of_inv {step : σ → ι → σ} {I P : σ → Prop}
    (hkeep : ∀ s i, I s → I (step s i)) (himp : ∀ s, I s → P s)
    (is : List ι) (s : σ) (hI : I s) : Throughout step P s is :=
  throughout_of_along (fun s i hI _ => hkeep s i hI) himp is s hI
    (along_true step is s)

/--
**The first step that misses the condition.**

In an environment that meets `E`, the steps that meet `C` keep `I`, `I` implies
`P`, and a step from an `I`-state after which `P` still holds must have met `C`.
Then a run satisfies `P` in all its states exactly when all its steps meet `C`.
-/
theorem throughout_iff_along_under {step : σ → ι → σ} {I P : σ → Prop}
    {E C : σ → ι → Prop}
    (hkeep : ∀ s i, I s → E s i → C s i → I (step s i))
    (himp : ∀ s, I s → P s)
    (hmiss : ∀ s i, I s → E s i → P (step s i) → C s i) :
    ∀ (is : List ι) (s : σ), I s → Along step E s is →
      (Throughout step P s is ↔ Along step C s is) := by
  intro is
  induction is with
  | nil =>
      intro s hI _
      exact ⟨fun _ => trivial, fun _ => himp s hI⟩
  | cons i is ih =>
      intro s hI hE
      constructor
      · intro hP
        have hC := hmiss s i hI hE.1 hP.2.head
        exact ⟨hC, (ih (step s i) (hkeep s i hI hE.1 hC) hE.2).mp hP.2⟩
      · intro hC
        have hI' := hkeep s i hI hE.1 hC.1
        exact ⟨himp s hI, (ih (step s i) hI' hE.2).mpr hC.2⟩

/-- `throughout_iff_along_under` in an environment that is free to do
anything. -/
theorem throughout_iff_along {step : σ → ι → σ} {I P : σ → Prop}
    {C : σ → ι → Prop} (hkeep : ∀ s i, I s → C s i → I (step s i))
    (himp : ∀ s, I s → P s)
    (hmiss : ∀ s i, I s → P (step s i) → C s i) (is : List ι) (s : σ)
    (hI : I s) : Throughout step P s is ↔ Along step C s is := by
  exact throughout_iff_along_under (fun s i hI _ => hkeep s i hI) himp
    (fun s i hI _ => hmiss s i hI) is s hI (along_true step is s)

/-- If `I` is kept by the steps that meet `E` and `C`, and under `I` and `E` a
step has the property `D` exactly when it meets `C`, then every step of a run
has the property exactly when every step meets the condition. -/
theorem along_iff_along {step : σ → ι → σ} {I : σ → Prop}
    {E C D : σ → ι → Prop}
    (hkeep : ∀ s i, I s → E s i → C s i → I (step s i))
    (hiff : ∀ s i, I s → E s i → (D s i ↔ C s i)) :
    ∀ (is : List ι) (s : σ), I s → Along step E s is →
      (Along step D s is ↔ Along step C s is) := by
  intro is
  induction is with
  | nil => intro s _ _; exact Iff.rfl
  | cons i is ih =>
      intro s hI hE
      constructor
      · intro hD
        have hC := (hiff s i hI hE.1).mp hD.1
        exact ⟨hC, (ih (step s i) (hkeep s i hI hE.1 hC) hE.2).mp hD.2⟩
      · intro hC
        have hI' := hkeep s i hI hE.1 hC.1
        exact ⟨(hiff s i hI hE.1).mpr hC.1, (ih (step s i) hI' hE.2).mpr hC.2⟩

/-! ## Observations -/

/-- The observations a run emits, in order. -/
def trace (step : σ → ι → σ) (obs : σ → ι → List ο) : σ → List ι → List ο
  | _, [] => []
  | s, i :: is => obs s i ++ trace step obs (step s i) is

theorem trace_append (step : σ → ι → σ) (obs : σ → ι → List ο)
    (is js : List ι) :
    ∀ s, trace step obs s (is ++ js) =
      trace step obs s is ++ trace step obs (run step s is) js := by
  induction is with
  | nil => intro s; rfl
  | cons i is ih => intro s; simp [trace, ih]

/-! ## Two systems in step -/

/-- If related states and related inputs lead to related states, runs on related
inputs do. -/
theorem run_lockstep {τ κ : Type*} {step : σ → ι → σ} {step' : τ → κ → τ}
    {R : σ → τ → Prop} {Q : ι → κ → Prop}
    (hkeep : ∀ s t i j, R s t → Q i j → R (step s i) (step' t j))
    {is : List ι} {js : List κ} (h : List.Forall₂ Q is js) :
    ∀ {s : σ} {t : τ}, R s t → R (run step s is) (run step' t js) := by
  induction h with
  | nil => intro s t hR; exact hR
  | cons hij _ ih => intro s t hR; exact ih (hkeep _ _ _ _ hR hij)

/-- Along a condition under which the steps keep an invariant, runs are runs of the
system whose moves the steps are. -/
theorem run_view_along {τ κ : Type*} {step : σ → ι → σ} {step' : τ → κ → τ}
    {I : σ → Prop} {C : σ → ι → Prop} {v : σ → τ} {moves : σ → ι → List κ}
    (hkeep : ∀ s i, I s → C s i → I (step s i))
    (hstep : ∀ s i, I s → C s i → v (step s i) = run step' (v s) (moves s i))
    (is : List ι) :
    ∀ s, I s → Along step C s is →
      v (run step s is) = run step' (v s) (trace step moves s is) := by
  induction is with
  | nil => intro s _ _; rfl
  | cons i is ih =>
      intro s hI hC
      rw [run_cons, ih (step s i) (hkeep s i hI hC.1) hC.2, hstep s i hI hC.1, trace,
        run_append]

/-- Under an invariant, runs are runs of the system whose moves the steps are. -/
theorem run_view {τ κ : Type*} {step : σ → ι → σ} {step' : τ → κ → τ}
    {I : σ → Prop} {v : σ → τ} {moves : σ → ι → List κ}
    (hkeep : ∀ s i, I s → I (step s i))
    (hstep : ∀ s i, I s → v (step s i) = run step' (v s) (moves s i))
    (is : List ι) (s : σ) (hI : I s) :
    v (run step s is) = run step' (v s) (trace step moves s is) :=
  run_view_along (fun s i hI _ => hkeep s i hI) (fun s i hI _ => hstep s i hI) is s hI
    (along_true step is s)

end RoomSpeaker.Foundation
