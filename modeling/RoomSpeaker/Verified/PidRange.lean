import Mathlib.Tactic.NormNum
import RoomSpeaker.Model.Pid

/-!
# The controller rejects jumps

The output that is restricted to the range is compared with the last value that
was returned.  If it is more than 20 away it is rejected, and it goes on being
rejected for as long as it stays away.

## Main results

* `calculate_cases` — what a call returns.
* `out_mem_of_first` — a controller that starts in its range stays there.
* `rejectsJumps_of_started` — what holds of every sequence of calls.
-/

namespace RoomSpeaker

open Foundation

namespace Pid

/-! ## One call -/

/-- The range of the manipulated variable. -/
def range (p : Pid) : Set ℚ := Set.Icc p.pimpl.min p.pimpl.max

theorem calculate_range (p : Pid) (setpoint pv : ℚ) :
    (p.calculate setpoint pv).1.range = p.range := rfl

/-- The value a call returns is what the next one compares with. -/
theorem calculate_prev (p : Pid) (setpoint pv : ℚ) :
    (p.calculate setpoint pv).1.pimpl.prev = (p.calculate setpoint pv).2 := rfl

/-- A call returns the restricted output, or the value before when that is too
far away. -/
theorem calculate_cases (p : Pid) (setpoint pv : ℚ) :
    let c := p.pimpl.command setpoint pv
    let o := (p.calculate setpoint pv).2
    (20 < |c - p.pimpl.prev| ∧ o = p.pimpl.prev) ∨
    (|c - p.pimpl.prev| ≤ 20 ∧ o = c) :=
  holdJump_cases 20 p.pimpl.prev (p.pimpl.command setpoint pv)

theorem command_mem (p : Pid) (h : p.pimpl.min ≤ p.pimpl.max)
    (setpoint pv : ℚ) : p.pimpl.command setpoint pv ∈ p.range :=
  limit_mem h (p.pimpl.raw setpoint pv)

/-- A call stays in any set that has the value before and the range in it. -/
theorem calculate_mem {p : Pid} {S : Set ℚ} (h : p.pimpl.min ≤ p.pimpl.max)
    (hprev : p.pimpl.prev ∈ S) (hrange : p.range ⊆ S) (setpoint pv : ℚ) :
    (p.calculate setpoint pv).2 ∈ S :=
  holdJump_mem hprev (hrange (p.command_mem h setpoint pv))

/-! ## Sequences of calls -/

variable (p : Pid) (ins : ℕ → ℚ × ℚ)

theorem after_limits (n : ℕ) :
    (p.after ins n).pimpl.min = p.pimpl.min ∧
      (p.after ins n).pimpl.max = p.pimpl.max := by
  induction n with
  | zero => exact ⟨rfl, rfl⟩
  | succ n ih => exact ih

theorem after_range (n : ℕ) : (p.after ins n).range = p.range := by
  induction n with
  | zero => rfl
  | succ n ih => exact ((p.after ins n).calculate_range _ _).trans ih

/-- After a call the controller remembers what it returned. -/
theorem after_prev (n : ℕ) : (p.after ins (n + 1)).pimpl.prev = p.out ins n :=
  (p.after ins n).calculate_prev _ _

theorem out_cases (n : ℕ) :
    (20 < |p.command ins (n + 1) - p.out ins n| ∧
      p.out ins (n + 1) = p.out ins n) ∨
    (|p.command ins (n + 1) - p.out ins n| ≤ 20 ∧
      p.out ins (n + 1) = p.command ins (n + 1)) :=
  (p.after ins (n + 1)).calculate_cases _ _

/-- A controller whose first value is in the range stays there. -/
theorem out_mem_of_first (h : p.pimpl.min ≤ p.pimpl.max)
    (hfirst : p.out ins 0 ∈ p.range) (n : ℕ) : p.out ins n ∈ p.range := by
  induction n with
  | zero => exact hfirst
  | succ n ih =>
      obtain ⟨hmin, hmax⟩ := p.after_limits ins (n + 1)
      apply calculate_mem
      · rw [hmin, hmax]
        exact h
      · rw [after_prev]
        exact ih
      · rw [after_range]

/-! ## What is and what is not promised -/

/-- The controller was just constructed or reset. -/
inductive Started : Pid → Prop
  | new (dt max min kp ki kd : ℚ) : Started (Pid.new dt max min kp ki kd)
  | reset (p : Pid) (dt kp ki kd : ℚ) : Started (p.reset dt kp ki kd)

/-- The output stays in the range, moves by at most 20 towards the command, and
moves whenever the command is elsewhere. -/
structure LimitsRate : Prop where
  range : ∀ k, p.out ins k ∈ Set.Icc p.min p.max
  step : ∀ k, |p.out ins (k + 1) - p.out ins k| ≤ 20
  between : ∀ k, p.out ins (k + 1) ∈
    Set.uIcc (p.out ins k) (p.command ins (k + 1))
  moves : ∀ k, p.command ins (k + 1) ≠ p.out ins k →
    p.out ins (k + 1) ≠ p.out ins k

/-- The output moves by at most 20 towards the command: to the command if this is
near enough, and not at all otherwise.  From the range it does not get out. -/
structure RejectsJumps : Prop where
  range : p.out ins 0 ∈ Set.Icc p.min p.max →
    ∀ k, p.out ins k ∈ Set.Icc p.min p.max
  step : ∀ k, |p.out ins (k + 1) - p.out ins k| ≤ 20
  between : ∀ k, p.out ins (k + 1) ∈
    Set.uIcc (p.out ins k) (p.command ins (k + 1))
  follows : ∀ k, |p.command ins (k + 1) - p.out ins k| ≤ 20 →
    p.out ins (k + 1) = p.command ins (k + 1)
  holds : ∀ k, 20 < |p.command ins (k + 1) - p.out ins k| →
    p.out ins (k + 1) = p.out ins k

theorem Started.limits {p : Pid} (h : p.Started) :
    p.pimpl.min = p.min ∧ p.pimpl.max = p.max := by
  cases h <;> exact ⟨rfl, rfl⟩

/-- After construction or reset the controller follows near commands and rejects
the others, whatever its gains and inputs. -/
theorem rejectsJumps_of_started (h : p.Started) (hrange : p.min ≤ p.max) :
    p.RejectsJumps ins := by
  obtain ⟨hmin, hmax⟩ := h.limits
  constructor
  · intro hfirst
    have hset : p.range = Set.Icc p.min p.max := by rw [Pid.range, hmin, hmax]
    rw [← hset] at hfirst ⊢
    exact p.out_mem_of_first ins (by rw [hmin, hmax]; exact hrange) hfirst
  · intro k
    exact abs_holdJump_sub_le (by norm_num) _ _
  · intro k
    exact holdJump_mem_uIcc 20 _ _
  · intro k hnear
    rcases p.out_cases ins k with ⟨hfar, _⟩ | ⟨_, heq⟩
    · exact absurd hnear (not_le.mpr hfar)
    · exact heq
  · intro k hfar
    rcases p.out_cases ins k with ⟨_, heq⟩ | ⟨hnear, _⟩
    · exact heq
    · exact absurd hnear (not_le.mpr hfar)

/-- The server's controller: a first output of about 2.5 is returned; then the
queue, which should be full, is empty, and the output of about 24.7 is never
returned. -/
theorem limitsRate_fails_on_jump :
    ¬LimitsRate (Pid.new (23 / 1000) 99 1 (1 / 5) (3 / 10) (1 / 1000))
      (fun n => if n = 0 then (50, 40) else (100, 0)) := by
  intro h
  exact h.moves 0 (by decide +kernel) (by decide +kernel)

/-- The server's controller on a queue that is at its optimum. -/
theorem rejectsJumps_at_optimum :
    RejectsJumps (Pid.new (23 / 1000) 99 1 (1 / 5) (3 / 10) (1 / 1000))
      (fun _ => (50, 50)) :=
  rejectsJumps_of_started _ _ (.new _ _ _ _ _ _) (by decide +kernel)

end Pid

end RoomSpeaker
