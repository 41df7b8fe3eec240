import Mathlib.Tactic.Linarith
import RoomSpeaker.Foundation.Run
import RoomSpeaker.Model.Pacing
import RoomSpeaker.Verified.PidRange

/-!
# The server's sleep is bounded

The controller of the server loop has the range 1 to 99, but the value it
compares with first is 0.  Its values stay between 0 and 99 all the same, so the
factor on the sleep stays between a hundredth and 1.

## Main results

* `steer_spec`, `pace_spec` — the arithmetic at the end of a turn is defined,
  and its result bounded.
* `sleepsBounded_run` — so it is in every turn of every run.
-/

namespace RoomSpeaker

open Foundation

/-! ## Conversions -/

theorem toUnsigned_of_lt {w : Nat} {x : ℚ} (hnn : 0 ≤ x) (hlt : x < 2 ^ w) :
    ∃ v, toUnsigned w x = some v ∧ (v.toNat : ℚ) ≤ x := by
  refine ⟨BitVec.ofNat w ⌊x⌋₊, if_pos ⟨hnn, hlt⟩, ?_⟩
  have hmod : ⌊x⌋₊ % 2 ^ w ≤ ⌊x⌋₊ := Nat.mod_le _ _
  have hcast : ((⌊x⌋₊ % 2 ^ w : Nat) : ℚ) ≤ (⌊x⌋₊ : ℚ) := by exact_mod_cast hmod
  rw [BitVec.toNat_ofNat]
  exact hcast.trans (Nat.floor_le hnn)

/-- A whole number is converted to itself. -/
theorem toUnsigned_natCast {w n : Nat} (h : n < 2 ^ w) :
    toUnsigned w (n : ℚ) = some (BitVec.ofNat w n) := by
  have hlt : (n : ℚ) < 2 ^ w := by exact_mod_cast h
  rw [toUnsigned, if_pos ⟨Nat.cast_nonneg n, hlt⟩, Nat.floor_natCast]

theorem divide_of_ne {x y : ℚ} (h : y ≠ 0) : divide x y = some (x / y) :=
  if_neg h

/-- By the clock alone the loop sleeps no longer than a chunk plays. -/
theorem slploopOf_le (rt : BitVec 64) : (slploopOf rt).toNat ≤ sleepOpt := by
  unfold slploopOf
  by_cases h : rt.toNat < sleepOpt
  · rw [if_pos h, BitVec.toNat_sub_of_le]
    · simp [sleepOpt, tcpSndLen, sampleAo, channelsAo, bitsAo]
    · rw [BitVec.le_def]
      exact h.le
  · rw [if_neg h]
    decide

theorem usOf_spec {slploop : BitVec 64} (h : slploop.toNat ≤ sleepOpt) :
    ∃ us, usOf slploop = some us ∧ us.toNat = slploop.toNat + 0xF := by
  have hopt : sleepOpt = 23000 := rfl
  refine ⟨BitVec.ofNat 32 slploop.toNat + 0xF, ?_, ?_⟩
  · rw [usOf, toUnsigned_natCast (by omega)]
    rfl
  · rw [BitVec.toNat_add, BitVec.toNat_ofNat]
    have hf : (0xF : BitVec 32).toNat = 15 := rfl
    omega

/-! ## The controller -/

/-- The server's controller: its range, and a previous value that lies in it or
is 0. -/
structure Pid.Steers (p : Pid) : Prop where
  min : p.min = 1 ∧ p.pimpl.min = 1
  max : p.max = 99 ∧ p.pimpl.max = 99
  dt : p.pimpl.dt ≠ 0
  prev : p.pimpl.prev ∈ Set.Icc 0 99

theorem pidT_ne_zero : pidT ≠ 0 := by decide +kernel

theorem Pid.steers_new : (Pid.new pidT 99 1 pidP pidI pidD).Steers :=
  ⟨⟨rfl, rfl⟩, ⟨rfl, rfl⟩, pidT_ne_zero, by simp [Pid.new, PidImpl.new]⟩

theorem Pid.Steers.reset {p : Pid} (h : p.Steers) :
    (p.reset pidT pidP pidI pidD).Steers :=
  ⟨⟨h.min.1, h.min.1⟩, ⟨h.max.1, h.max.1⟩, pidT_ne_zero,
    by simp [Pid.reset, PidImpl.new]⟩

/-- A call returns a value between 0 and 99. -/
theorem Pid.Steers.calculate {p : Pid} (h : p.Steers) (setpoint pv : ℚ) :
    (p.calculate setpoint pv).1.Steers ∧
      (p.calculate setpoint pv).2 ∈ Set.Icc 0 99 := by
  have hrange : p.range ⊆ Set.Icc 0 99 := by
    rw [Pid.range, h.min.2, h.max.2]
    exact Set.Icc_subset_Icc (by norm_num) (le_refl 99)
  have hout : (p.calculate setpoint pv).2 ∈ Set.Icc (0 : ℚ) 99 := by
    apply Pid.calculate_mem _ h.prev hrange
    rw [h.min.2, h.max.2]
    norm_num
  exact ⟨⟨h.min, h.max, h.dt, hout⟩, hout⟩

/-! ## The end of a turn -/

/-- The controller's branch makes the sleep no longer. -/
theorem steer_spec {pid : Pid} {p : Pilot} (slploop : BitVec 64)
    (h : pid.Steers) (hqsz : p.qsz ≠ 0) :
    ∃ pid' slploop', steer pid p slploop = some (pid', slploop') ∧
      pid'.Steers ∧ slploop'.toNat ≤ slploop.toNat := by
  have hq : (p.qsz : ℚ) ≠ 0 := by exact_mod_cast hqsz
  generalize hfoptim : (p.qoptim * 100 : ℚ) / p.qsz = foptim
  generalize hcurperc : (p.qlen * 100 : ℚ) / p.qsz = curperc
  obtain ⟨hpid, hlow, hhigh⟩ := h.calculate foptim curperc
  have hfactor : 0 ≤ (100 - (pid.calculate foptim curperc).2) / 100 ∧
      (100 - (pid.calculate foptim curperc).2) / 100 ≤ 1 := by
    constructor <;> linarith
  have hslp : (0 : ℚ) ≤ slploop.toNat := Nat.cast_nonneg _
  have hprod := mul_le_of_le_one_right hslp hfactor.2
  have hbound : (slploop.toNat : ℚ) < 2 ^ 64 := by exact_mod_cast slploop.isLt
  obtain ⟨slploop', hconv, hle⟩ :=
    toUnsigned_of_lt (w := 64) (mul_nonneg hslp hfactor.1)
      (lt_of_le_of_lt hprod hbound)
  refine ⟨_, slploop', ?_, hpid, by exact_mod_cast hle.trans hprod⟩
  unfold steer
  simp only [divide_of_ne hq, hfoptim, hcurperc, Option.bind_eq_bind,
    Option.bind_some, Pid.calculate?, if_neg h.dt,
    divide_of_ne (show (100 : ℚ) ≠ 0 by norm_num), hconv]
  rfl

/-- The end of a turn: every operation is defined, and the sleep is bounded. -/
theorem pace_spec {pid : Pid} (h : pid.Steers) (t1 t2 : BitVec 64) (p : Pilot)
    (frmdiff : Int) :
    ∃ pid' us, pace pid t1 t2 p frmdiff = some (pid', us) ∧ pid'.Steers ∧
      0xF ≤ us.toNat ∧ us.toNat ≤ sleepOpt + 0xF := by
  have hclock := slploopOf_le (t2 - t1)
  unfold pace
  by_cases hbranch : frmdiff ≠ 0 ∧ p.qsz ≠ 0 ∧ (t2 - t1).toNat < sleepOpt
  · obtain ⟨pid', slploop', hsteer, hpid, hle⟩ :=
      steer_spec (slploopOf (t2 - t1)) h hbranch.2.1
    obtain ⟨us, hus, hval⟩ := usOf_spec (hle.trans hclock)
    refine ⟨pid', us, ?_, hpid, by omega, by omega⟩
    simp only [if_pos hbranch, hsteer, Option.bind_eq_bind, Option.bind_some, hus]
    rfl
  · obtain ⟨us, hus, hval⟩ := usOf_spec hclock
    refine ⟨pid, us, ?_, h, by omega, by omega⟩
    simp only [if_neg hbranch, Option.bind_eq_bind, Option.bind_some, hus]
    rfl

/-! ## Runs -/

/-- If the turn sends a chunk, its sleep is defined and bounded. -/
def PacedServer.SleepsBounded (s : PacedServer) (i : PacedIn) : Prop :=
  ∀ r, (s.turn i).2 = .slept r →
    ∃ us, r = some us ∧ 0xF ≤ us.toNat ∧ us.toNat ≤ sleepOpt + 0xF

theorem steers_step {s : PacedServer} (h : s.pid.Steers) (i : PacedIn) :
    (s.step i).pid.Steers := by
  unfold PacedServer.step PacedServer.turn
  by_cases halive : s.server.alive = true
  · simp only [if_pos halive]
    by_cases hsent : (s.server.send i.toLoopIn).2.2 = true
    · simp only [if_pos hsent]
      obtain ⟨pid', us, hpace, hpid, _⟩ := pace_spec h i.t1 i.t2
        ((s.server.send i.toLoopIn).1.serve i.pool).srv.pilot
        ((s.server.send i.toLoopIn).1.srv.pool i.pool).2
      rw [hpace]
      exact hpid
    · simp only [if_neg hsent]
      exact h.reset
  · simp only [if_neg halive]
    exact h

theorem sleepsBounded_of_steers {s : PacedServer} (h : s.pid.Steers)
    (i : PacedIn) : s.SleepsBounded i := by
  intro r hr
  unfold PacedServer.turn at hr
  by_cases halive : s.server.alive = true
  · simp only [if_pos halive] at hr
    by_cases hsent : (s.server.send i.toLoopIn).2.2 = true
    · simp only [if_pos hsent] at hr
      obtain ⟨pid', us, hpace, _, hbounds⟩ := pace_spec h i.t1 i.t2
        ((s.server.send i.toLoopIn).1.serve i.pool).srv.pilot
        ((s.server.send i.toLoopIn).1.srv.pool i.pool).2
      rw [hpace] at hr
      exact ⟨us, (TurnEnd.slept.inj hr).symm, hbounds⟩
    · simp only [if_neg hsent] at hr
      cases hr
  · simp only [if_neg halive] at hr
    cases hr

/-- In every turn of every run that sends a chunk, the loop sleeps between 0xF
and `sleep_opt` + 0xF microseconds. -/
theorem sleepsBounded_run (ops : List PacedIn) :
    Along PacedServer.step PacedServer.SleepsBounded PacedServer.init ops := by
  apply along_of_inv (I := fun s => s.pid.Steers) (C := fun _ _ => True)
  · intro s i h _
    exact steers_step h i
  · intro s i h _
    exact sleepsBounded_of_steers h i
  · exact Pid.steers_new
  · exact along_true _ ops _

end RoomSpeaker
