import RoomSpeaker.Foundation.Pending
import RoomSpeaker.Verified.Ownership

/-!
# When the player takes chunks again (`player::play`, `_fill_q`)

The player reads the queue between two chunks: its length at the top of the
loop, and in `_fill_q` the optimum and the length once or twice more.  Another
thread may change the queue between any two reads.  Once a read was low, the
player waits for the optimum; once the queue was found empty, it waits for more
than the optimum.

The reads and the calls of `q_consume` are recorded in order, so the rule is one
about what is pending in this history.

## Main results

* `refillInv_step` — the flag and the threshold carry what is pending.
* `refill_hysteresis` — nothing is pending when `q_consume` is called; and two
  iterations that find the queue full are enough to get there.
-/

namespace RoomSpeaker

open Foundation

/-! ## What the player sees -/

/-- A read of the queue by the player, or its call of `q_consume`. -/
inductive Obs where
  /-- the length at the top of the loop, and the threshold it is held against -/
  | look (qlen threshold : Nat)
  /-- the optimum, in `_fill_q` -/
  | optim (qoptim : Nat)
  /-- the length that `_fill_q` compares with zero -/
  | empty (qlen : Nat)
  /-- the length that `_fill_q` compares with the optimum -/
  | enough (qlen : Nat)
  | consume
  deriving DecidableEq, Repr

/-- What a step lets the player see. -/
def Speaker.observes (s : Speaker) : ClientOp → List Obs
  | .thread .play =>
      match s.play with
      | .loop => [.look s.rq.length s.fillingsz]
      | .fill => [.optim s.rq.optim]
      | .fillEmpty _ => [.empty s.rq.length]
      | .fillEnough _ => if s.filling then [.enough s.rq.length] else []
      | .consume => [.consume]
      | _ => []
  | _ => []

/-- The program with what the player has seen so far. -/
structure PlayRun where
  spk : Speaker
  seen : List Obs

def PlayRun.step (r : PlayRun) (op : ClientOp) : PlayRun :=
  ⟨r.spk.clientStep op, r.seen ++ r.spk.observes op⟩

def PlayRun.init (n sz : Nat) (tick : BitVec 64) (time : Int) : PlayRun :=
  ⟨Speaker.init n sz tick time, []⟩

/-- The optimum read by the most recent `_fill_q`. -/
def lastOptim (seen : List Obs) : Option Nat :=
  seen.foldl (fun o x => match x with
    | .optim qoptim => some qoptim
    | _ => o) none

@[simp] theorem lastOptim_snoc (seen : List Obs) (x : Obs) :
    lastOptim (seen ++ [x]) = match x with
      | .optim qoptim => some qoptim
      | _ => lastOptim seen := by
  unfold lastOptim
  rw [List.foldl_append]
  cases x <;> rfl

/-! ## The rule -/

/-- The loop sees fewer chunks than its threshold. -/
def Obs.low (_ : List Obs) : Obs → Prop
  | .look qlen threshold => qlen < threshold
  | _ => False

/-- The loop sees as many chunks as the optimum read last. -/
def Obs.regains (seen : List Obs) : Obs → Prop
  | .look qlen _ => ∃ qoptim ∈ lastOptim seen, qoptim ≤ qlen
  | _ => False

/-- `_fill_q` sees an empty queue. -/
def Obs.drained (_ : List Obs) : Obs → Prop
  | .empty qlen => qlen = 0
  | _ => False

/-- `_fill_q` sees more chunks than the optimum. -/
def Obs.exceeds (seen : List Obs) : Obs → Prop
  | .enough qlen => ∃ qoptim ∈ lastOptim seen, qoptim < qlen
  | _ => False

/-- The loop sees a full queue. -/
def Obs.full (n : Nat) (_ : List Obs) : Obs → Prop
  | .look qlen _ => n ≤ qlen
  | _ => False

/-- An iteration is over, or sees a queue that is not full. -/
def Obs.spoils (n : Nat) (_ : List Obs) : Obs → Prop
  | .look _ _ => True
  | .empty qlen | .enough qlen => qlen < n
  | _ => False

/-- The player calls `q_consume` only when every low look was followed by one at
the optimum, and every empty queue, and the start, by one above the optimum. -/
def PlayRun.Waits (r : PlayRun) : Prop :=
  r.spk.play = .consume → ¬Pending Obs.low Obs.regains r.seen ∧
    ¬Pending Obs.drained Obs.exceeds r.seen ∧ ¬NotYet Obs.exceeds r.seen

/-- An iteration that finds the queue full after one that did goes on to
`q_consume`. -/
def PlayRun.Resumes (n : Nat) (r : PlayRun) : Prop :=
  r.spk.play = .loop → Pending (Obs.full n) (Obs.spoils n) r.seen →
    n ≤ r.spk.rq.length → (r.spk.clientStep (.thread .play)).play = .consume

/-- `set_optim_perc` is asked for half of the queue. -/
def ClientOp.Half : ClientOp → Prop
  | .steer (.setOptimPerc optim) => optim = 50
  | _ => True

/-! ## The player's variables -/

/-- Only the player moves the player. -/
theorem player_netStep (s : Speaker) (i : NetIn) :
    (s.netStep i).play = s.play ∧ (s.netStep i).filling = s.filling ∧
      (s.netStep i).fillingsz = s.fillingsz := by
  unfold Speaker.netStep
  cases s.net with
  | lost => simp only; split <;> exact ⟨rfl, rfl, rfl⟩
  | loop =>
      simp only
      split
      · rcases s.rq.qFeedup_cases with ⟨_, _, hq⟩ | ⟨_, hq⟩
        · rw [hq]
          exact ⟨rfl, rfl, rfl⟩
        · rw [hq]
          exact ⟨rfl, rfl, rfl⟩
      · exact ⟨rfl, rfl, rfl⟩
  | frame pk bufLen =>
      simp only
      split
      · exact ⟨rfl, rfl, rfl⟩
      · split <;> exact ⟨rfl, rfl, rfl⟩
  | _ => exact ⟨rfl, rfl, rfl⟩

/-- What is pending, as far as the player's place and its threshold say. -/
def RefillAt (seen : List Obs) (filling : Bool) (fillingsz : Nat) :
    PlayPc → Prop
  | .loop => Pending Obs.low Obs.regains seen → lastOptim seen = some fillingsz
  | .fill => True
  | .fillEmpty qoptim | .fillEnough qoptim => lastOptim seen = some qoptim
  | .consume | .hold _ | .played _ _ | .update _ =>
      ¬Pending Obs.low Obs.regains seen ∧ filling = false

/-- The flag stands for what `_fill_q` still has to see, the threshold for what
the loop has to. -/
structure RefillInv (r : PlayRun) : Prop where
  place : RefillAt r.seen r.spk.filling r.spk.fillingsz r.spk.play
  flag : Pending Obs.drained Obs.exceeds r.seen ∨ NotYet Obs.exceeds r.seen →
    r.spk.filling = true

theorem refillInv_init (n sz : Nat) (tick : BitVec 64) (time : Int) :
    RefillInv (PlayRun.init n sz tick time) where
  place := fun h => absurd h (not_pending_nil _ _)
  flag := fun _ => rfl

theorem waits_of_inv {r : PlayRun} (h : RefillInv r) : r.Waits := by
  intro hpc
  have hplace := h.place
  rw [hpc] at hplace
  have hflag : ¬(Pending Obs.drained Obs.exceeds r.seen ∨
      NotYet Obs.exceeds r.seen) := by
    intro hdry
    have hfill := h.flag hdry
    rw [hplace.2] at hfill
    cases hfill
  exact ⟨hplace.1, fun hdry => hflag (Or.inl hdry),
    fun hdry => hflag (Or.inr hdry)⟩

/-! ## One step of the player -/

/-- A step of the player that reads nothing of the queue. -/
theorem step_unseen {r : PlayRun}
    (h : r.spk.observes (.thread .play) = []) :
    r.step (.thread .play) = ⟨r.spk.playStep, r.seen⟩ := by
  rw [PlayRun.step, h, List.append_nil]
  rfl

section

variable {r : PlayRun} (h : RefillInv r)

include h

private theorem refillInv_loop (hpc : r.spk.play = .loop) :
    RefillInv (r.step (.thread .play)) := by
  have hplace := h.place
  rw [hpc] at hplace
  have hseen : (r.step (.thread .play)).seen =
      r.seen ++ [.look r.spk.rq.length r.spk.fillingsz] := by
    simp [PlayRun.step, Speaker.observes, hpc]
  have hdry : Pending Obs.drained Obs.exceeds (r.step (.thread .play)).seen ∨
      NotYet Obs.exceeds (r.step (.thread .play)).seen →
      r.spk.filling = true := by
    rw [hseen, pending_snoc, notYet_snoc]
    simp only [Obs.drained, Obs.exceeds, false_or, not_false_eq_true, and_true]
    exact h.flag
  by_cases hgo : r.spk.rq.length < r.spk.fillingsz ∨ r.spk.filling = true
  · have hspk : (r.step (.thread .play)).spk = { r.spk with play := .fill } := by
      simp [PlayRun.step, Speaker.clientStep, Speaker.step, Speaker.playStep,
        hpc, hgo]
    constructor
    · rw [hspk]
      trivial
    · rw [hspk]
      exact hdry
  · have hspk : (r.step (.thread .play)).spk =
        { r.spk with fillingsz := qAlmostEmpty, play := .consume } := by
      simp [PlayRun.step, Speaker.clientStep, Speaker.step, Speaker.playStep,
        hpc, hgo]
    rw [not_or, Bool.not_eq_true] at hgo
    constructor
    · rw [hspk]
      refine ⟨?_, hgo.2⟩
      rw [hseen, pending_snoc]
      -- a look that was owed is this one
      rintro (hlow | ⟨howed, hnot⟩)
      · exact hgo.1 hlow
      · exact hnot ⟨r.spk.fillingsz, hplace howed, Nat.le_of_not_lt hgo.1⟩
    · rw [hspk]
      exact hdry

private theorem refillInv_fill (hpc : r.spk.play = .fill) :
    RefillInv (r.step (.thread .play)) := by
  have hseen : (r.step (.thread .play)).seen =
      r.seen ++ [.optim r.spk.rq.optim] := by
    simp [PlayRun.step, Speaker.observes, hpc]
  have hspk : (r.step (.thread .play)).spk =
      { r.spk with play := .fillEmpty r.spk.rq.optim } := by
    simp [PlayRun.step, Speaker.clientStep, Speaker.step, Speaker.playStep, hpc]
  constructor
  · rw [hspk, hseen]
    exact lastOptim_snoc _ _
  · rw [hspk, hseen, pending_snoc, notYet_snoc]
    simp only [Obs.drained, Obs.exceeds, false_or, not_false_eq_true, and_true]
    exact h.flag

private theorem refillInv_fillEmpty {qoptim : Nat}
    (hpc : r.spk.play = .fillEmpty qoptim) :
    RefillInv (r.step (.thread .play)) := by
  have hplace := h.place
  rw [hpc] at hplace
  have hseen : (r.step (.thread .play)).seen =
      r.seen ++ [.empty r.spk.rq.length] := by
    simp [PlayRun.step, Speaker.observes, hpc]
  have hspk : (r.step (.thread .play)).spk =
      { r.spk with
        filling := r.spk.filling || decide (r.spk.rq.length = 0)
        play := .fillEnough qoptim } := by
    simp [PlayRun.step, Speaker.clientStep, Speaker.step, Speaker.playStep, hpc]
  constructor
  · rw [hspk, hseen]
    show lastOptim _ = some qoptim
    rw [lastOptim_snoc]
    exact hplace
  · rw [hspk, hseen, pending_snoc, notYet_snoc]
    simp only [Obs.drained, Obs.exceeds, not_false_eq_true, and_true,
      Bool.or_eq_true, decide_eq_true_eq]
    rintro ((hzero | hdry) | hstart)
    · exact Or.inr hzero
    · exact Or.inl (h.flag (Or.inl hdry))
    · exact Or.inl (h.flag (Or.inr hstart))

private theorem refillInv_fillEnough {qoptim : Nat}
    (hpc : r.spk.play = .fillEnough qoptim) :
    RefillInv (r.step (.thread .play)) := by
  have hplace : lastOptim r.seen = some qoptim := by
    have hplace := h.place
    rwa [hpc] at hplace
  have hspk : (r.step (.thread .play)).spk =
      { r.spk with
        filling := r.spk.filling && decide (r.spk.rq.length ≤ qoptim)
        fillingsz := qoptim
        play := .loop } := by
    simp [PlayRun.step, Speaker.clientStep, Speaker.step, Speaker.playStep, hpc]
  cases hfill : r.spk.filling with
  | true =>
      have hseen : (r.step (.thread .play)).seen =
          r.seen ++ [.enough r.spk.rq.length] := by
        simp [PlayRun.step, Speaker.observes, hpc, hfill]
      constructor
      · rw [hspk, hseen]
        intro _
        rw [lastOptim_snoc]
        exact hplace
      · rw [hspk, hseen, pending_snoc, notYet_snoc]
        have hexceeds : ∀ hdry : ¬Obs.exceeds r.seen
            (.enough r.spk.rq.length), r.spk.rq.length ≤ qoptim := by
          intro hdry
          by_contra hgt
          exact hdry ⟨qoptim, hplace, Nat.lt_of_not_le hgt⟩
        simp only [Obs.drained, false_or, hfill, Bool.true_and,
          decide_eq_true_eq]
        rintro (⟨_, hdry⟩ | ⟨_, hdry⟩)
        · exact hexceeds hdry
        · exact hexceeds hdry
  | false =>
      have hseen : (r.step (.thread .play)).seen = r.seen := by
        simp [PlayRun.step, Speaker.observes, hpc, hfill]
      constructor
      · rw [hspk, hseen]
        exact fun _ => hplace
      · rw [hspk, hseen]
        intro hdry
        have hflag := h.flag hdry
        rw [hfill] at hflag
        cases hflag

private theorem refillInv_consume (hpc : r.spk.play = .consume) :
    RefillInv (r.step (.thread .play)) := by
  have hplace := h.place
  rw [hpc] at hplace
  have hseen : (r.step (.thread .play)).seen = r.seen ++ [.consume] := by
    simp [PlayRun.step, Speaker.observes, hpc]
  have hnone : ¬Pending Obs.low Obs.regains (r.seen ++ [.consume]) := by
    rw [pending_snoc]
    simp only [Obs.low, Obs.regains, false_or, not_false_eq_true, and_true]
    exact hplace.1
  have hdry : Pending Obs.drained Obs.exceeds (r.seen ++ [.consume]) ∨
      NotYet Obs.exceeds (r.seen ++ [.consume]) → r.spk.filling = true := by
    rw [pending_snoc, notYet_snoc]
    simp only [Obs.drained, Obs.exceeds, false_or, not_false_eq_true, and_true]
    exact h.flag
  rcases r.spk.rq.qConsume_cases with ⟨_, _, _, hq⟩ | ⟨_, hq⟩
  · have hspk : (r.step (.thread .play)).spk =
        { r.spk with
          rq := r.spk.rq.served
          play := .hold (.slot r.spk.rq.geti) } := by
      simp [PlayRun.step, Speaker.clientStep, Speaker.step, Speaker.playStep,
        hpc, hq]
    constructor
    · rw [hspk, hseen]
      exact ⟨hnone, hplace.2⟩
    · rw [hspk, hseen]
      exact hdry
  · have hspk : (r.step (.thread .play)).spk =
        { r.spk with rq := r.spk.rq.refused, play := .loop } := by
      simp [PlayRun.step, Speaker.clientStep, Speaker.step, Speaker.playStep,
        hpc, hq]
    constructor
    · rw [hspk, hseen]
      exact fun howed => absurd howed hnone
    · rw [hspk, hseen]
      exact hdry

/-- A step that sees nothing and leaves the flag leaves what is pending. -/
private theorem RefillInv.unseen {s : Speaker}
    (hfilling : s.filling = r.spk.filling)
    (hplace : RefillAt r.seen s.filling s.fillingsz s.play) :
    RefillInv ⟨s, r.seen⟩ where
  place := hplace
  flag := by
    rw [hfilling]
    exact h.flag

/-- Every step of the player keeps the invariant. -/
theorem refillInv_play : RefillInv (r.step (.thread .play)) := by
  have hplace := h.place
  cases hpc : r.spk.play with
  | loop => exact refillInv_loop h hpc
  | fill => exact refillInv_fill h hpc
  | fillEmpty qoptim => exact refillInv_fillEmpty h hpc
  | fillEnough qoptim => exact refillInv_fillEnough h hpc
  | consume => exact refillInv_consume h hpc
  | hold pk =>
      rw [hpc] at hplace
      rw [step_unseen (by simp [Speaker.observes, hpc])]
      apply h.unseen
      · simp [Speaker.playStep, hpc]
      · simp only [Speaker.playStep, hpc]
        exact hplace
  | played pk hdr =>
      rw [hpc] at hplace
      rw [step_unseen (by simp [Speaker.observes, hpc])]
      apply h.unseen
      · simp [Speaker.playStep, hpc]
      · simp only [Speaker.playStep, hpc]
        exact hplace
  | update hdr =>
      rw [hpc] at hplace
      rw [step_unseen (by simp [Speaker.observes, hpc])]
      apply h.unseen
      · simp [Speaker.playStep, hpc]
      · simp only [Speaker.playStep, hpc]
        exact fun howed => absurd howed hplace.1

/-- Every step, of the player or of anyone else, keeps the invariant. -/
theorem refillInv_step (op : ClientOp) : RefillInv (r.step op) := by
  have hsame : ∀ s : Speaker, s.play = r.spk.play →
      s.filling = r.spk.filling → s.fillingsz = r.spk.fillingsz →
      RefillInv ⟨s, r.seen⟩ := by
    intro s hplay hfilling hsz
    apply h.unseen hfilling
    rw [hfilling, hsz, hplay]
    exact h.place
  cases op with
  | thread op =>
      cases op with
      | play => exact refillInv_play h
      | net i =>
          have hstep : r.step (.thread (.net i)) =
              ⟨r.spk.netStep i, r.seen⟩ := by
            simp [PlayRun.step, Speaker.observes, Speaker.clientStep,
              Speaker.step]
          obtain ⟨hplay, hfilling, hsz⟩ := player_netStep r.spk i
          rw [hstep]
          exact hsame _ hplay hfilling hsz
  | steer op =>
      have hstep : r.step (.steer op) =
          ⟨{ r.spk with rq := r.spk.rq.steer op }, r.seen⟩ := by
        simp [PlayRun.step, Speaker.observes, Speaker.clientStep]
      rw [hstep]
      exact hsame _ rfl rfl rfl

end

/-! ## A full queue -/

/-- What the player's place and flag say of a full queue. -/
def FullAt (n : Nat) (seen : List Obs) (filling : Bool) : PlayPc → Prop
  | .loop => Pending (Obs.full n) (Obs.spoils n) seen → filling = false
  | .fill => True
  | .fillEmpty qoptim | .fillEnough qoptim => qoptim < n
  | .consume | .hold _ | .played _ _ | .update _ => filling = false

/-- With the optimum below the capacity, an iteration that finds the queue full
leaves the flag down. -/
structure FullInv (n : Nat) (r : PlayRun) : Prop where
  cursors : r.spk.rq.CursorInv
  capacity : r.spk.rq.maxqsz = n
  optim : r.spk.rq.optim < n
  threshold : r.spk.fillingsz < n
  place : FullAt n r.seen r.spk.filling r.spk.play

/-- From 20 chunks on, an optimum that was out of reach is put below the
capacity. -/
theorem clampOptim_lt {c : Circle} (hcap : 20 ≤ c.maxqsz) (optlen : Int) :
    c.clampOptim optlen < c.maxqsz := by
  unfold Circle.clampOptim
  split
  · omega
  · omega

theorem half_lt {c : Circle} (hcap : 0 < c.maxqsz) :
    (c.setOptimPerc 50).optim < c.maxqsz := by
  have hsize : Circle.sizeOfInt 50 = 50 := by decide
  have hmod := Nat.mod_le (50 * c.maxqsz) (2 ^ 64)
  show Circle.sizeOfInt 50 * c.maxqsz % 2 ^ 64 / 100 < c.maxqsz
  rw [hsize]
  omega

/-- The threads change the optimum only by `force_optim`. -/
theorem optim_step (s : Speaker) (hinv : s.rq.CursorInv) (op : SpkOp) :
    (s.step op).rq.optim = s.rq.optim ∨
      ∃ optlen, (s.step op).rq.optim = s.rq.clampOptim optlen := by
  cases op with
  | net i =>
      show (s.netStep i).rq.optim = _ ∨ ∃ _, (s.netStep i).rq.optim = _
      unfold Speaker.netStep
      cases s.net with
      | lost => simp only; split <;> exact Or.inl rfl
      | loop =>
          simp only
          split
          · rcases s.rq.qFeedup_cases with ⟨_, _, hq⟩ | ⟨_, hq⟩
            · rw [hq]
              exact Or.inl rfl
            · rw [hq]
              exact Or.inl rfl
          · exact Or.inl rfl
      | got pk => exact Or.inl (s.rq.optim_assign pk _)
      | frame pk bufLen =>
          simp only
          split
          · exact Or.inl rfl
          · split <;> exact Or.inl rfl
      | resync pk newopt =>
          cases newopt with
          | none => exact Or.inl rfl
          | some optlen =>
              exact Or.inr ⟨optlen, Circle.forceOptim_optim s.rq optlen hinv.geti⟩
      | report pk => exact Or.inl rfl
      | done pk ok => exact Or.inl (s.rq.optim_assign pk _)
  | play =>
      apply Or.inl
      show s.playStep.rq.optim = _
      unfold Speaker.playStep
      cases s.play with
      | loop => simp only; split <;> rfl
      | consume =>
          simp only
          rcases s.rq.qConsume_cases with ⟨_, _, _, hq⟩ | ⟨_, hq⟩
          · rw [hq]
            rfl
          · rw [hq]
            rfl
      | hold pk => exact s.rq.optim_assign pk _
      | played pk hdr => exact s.rq.optim_assign pk _
      | _ => rfl

/-- The optimum stays below the capacity. -/
theorem optim_clientStep_lt {s : Speaker} (hinv : s.rq.CursorInv)
    (hcap : 20 ≤ s.rq.maxqsz) (hlt : s.rq.optim < s.rq.maxqsz) {op : ClientOp}
    (hop : op.Half) : (s.clientStep op).rq.optim < s.rq.maxqsz := by
  cases op with
  | thread op =>
      show (s.step op).rq.optim < s.rq.maxqsz
      rcases optim_step s hinv op with hsame | ⟨optlen, hclamp⟩
      · rw [hsame]
        exact hlt
      · rw [hclamp]
        exact clampOptim_lt hcap optlen
  | steer op =>
      cases op with
      | forceOptim optlen =>
          show (s.rq.forceOptim optlen).optim < s.rq.maxqsz
          rw [Circle.forceOptim_optim s.rq optlen hinv.geti]
          exact clampOptim_lt hcap optlen
      | removeBack els =>
          show (s.rq.removeBack els).optim < s.rq.maxqsz
          rw [Circle.removeBack_eq s.rq els hinv.geti]
          exact hlt
      | reset => exact hlt
      | setOptimPerc optim =>
          obtain rfl : optim = 50 := hop
          exact half_lt hinv.pos

theorem capacity_clientStep {s : Speaker} (hinv : s.rq.CursorInv)
    (op : ClientOp) : (s.clientStep op).rq.maxqsz = s.rq.maxqsz := by
  cases op with
  | thread op => exact maxqsz_step hinv op
  | steer op => exact (Circle.drops_steer hinv op).cap

/-- What a step does to the threshold and to the player's place. -/
private theorem fullAt_play {n : Nat} {r : PlayRun} (h : FullInv n r)
    (hn : qAlmostEmpty < n) :
    (r.step (.thread .play)).spk.fillingsz < n ∧
      FullAt n (r.step (.thread .play)).seen
        (r.step (.thread .play)).spk.filling
        (r.step (.thread .play)).spk.play := by
  have hplace := h.place
  have hoptim := h.optim
  have hthr := h.threshold
  show r.spk.playStep.fillingsz < n ∧ FullAt n
    (r.seen ++ r.spk.observes (.thread .play)) r.spk.playStep.filling
    r.spk.playStep.play
  cases hpc : r.spk.play with
  | loop =>
      by_cases hgo : r.spk.rq.length < r.spk.fillingsz ∨ r.spk.filling = true
      · simp only [Speaker.playStep, hpc, if_pos hgo]
        exact ⟨hthr, trivial⟩
      · simp only [Speaker.playStep, hpc, if_neg hgo]
        rw [not_or, Bool.not_eq_true] at hgo
        exact ⟨hn, hgo.2⟩
  | fill =>
      simp only [Speaker.playStep, hpc]
      exact ⟨hthr, hoptim⟩
  | fillEmpty qoptim =>
      rw [hpc] at hplace
      simp only [Speaker.playStep, hpc]
      exact ⟨hthr, hplace⟩
  | fillEnough qoptim =>
      rw [hpc] at hplace
      have hlt : qoptim < n := hplace
      simp only [Speaker.playStep, hpc]
      refine ⟨hlt, ?_⟩
      cases hfill : r.spk.filling with
      | false =>
          intro _
          rfl
      | true =>
          simp only [Speaker.observes, hpc, hfill, if_true]
          intro hfull
          rw [pending_snoc] at hfull
          rcases hfull with hnever | ⟨_, hkept⟩
          · exact absurd hnever id
          · have hlong : ¬r.spk.rq.length < n := hkept
            simp only [Bool.true_and, decide_eq_false_iff_not]
            omega
  | consume =>
      rw [hpc] at hplace
      have hdown : r.spk.filling = false := hplace
      rcases r.spk.rq.qConsume_cases with ⟨_, _, _, hq⟩ | ⟨_, hq⟩
      · simp only [Speaker.playStep, hpc, hq]
        exact ⟨hthr, hdown⟩
      · simp only [Speaker.playStep, hpc, hq]
        exact ⟨hthr, fun _ => hdown⟩
  | hold pk =>
      rw [hpc] at hplace
      simp only [Speaker.playStep, hpc]
      exact ⟨hthr, hplace⟩
  | played pk hdr =>
      rw [hpc] at hplace
      simp only [Speaker.playStep, hpc]
      exact ⟨hthr, hplace⟩
  | update hdr =>
      rw [hpc] at hplace
      simp only [Speaker.playStep, hpc]
      exact ⟨hthr, fun _ => hplace⟩

theorem fullInv_step {n : Nat} {r : PlayRun} (h : FullInv n r) (hn : 20 ≤ n)
    {op : ClientOp} (hop : op.Half) : FullInv n (r.step op) := by
  have hcap := h.capacity
  have hkeep : (r.step op).spk.fillingsz < n ∧ FullAt n (r.step op).seen
      (r.step op).spk.filling (r.step op).spk.play := by
    have hsame : ∀ s : Speaker, s.play = r.spk.play →
        s.filling = r.spk.filling → s.fillingsz = r.spk.fillingsz →
        s.fillingsz < n ∧ FullAt n (r.seen ++ []) s.filling s.play := by
      intro s hplay hfilling hsz
      rw [hplay, hfilling, hsz, List.append_nil]
      exact ⟨h.threshold, h.place⟩
    cases op with
    | steer op => exact hsame _ rfl rfl rfl
    | thread op =>
        cases op with
        | play =>
            have hmin : qAlmostEmpty < n := by
              have hfour : qAlmostEmpty = 4 := rfl
              omega
            exact fullAt_play h hmin
        | net i =>
            obtain ⟨hplay, hfilling, hsz⟩ := player_netStep r.spk i
            exact hsame _ hplay hfilling hsz
  refine ⟨cursorInv_clientStep h.cursors op, ?_, ?_, hkeep.1, hkeep.2⟩
  · exact (capacity_clientStep h.cursors op).trans hcap
  · rw [← hcap]
    apply optim_clientStep_lt h.cursors (by omega) _ hop
    rw [hcap]
    exact h.optim

theorem fullInv_init {n : Nat} (hn : 20 ≤ n) (sz : Nat) (tick : BitVec 64)
    (time : Int) : FullInv n (PlayRun.init n sz tick time) := by
  have hcur := (heldInv_init n sz tick time (by omega)).held.cursors
  refine ⟨hcur, rfl, half_lt (c := Circle.reserve n sz) hcur.pos, ?_, ?_⟩
  · show qAlmostEmpty < n
    have hfour : qAlmostEmpty = 4 := rfl
    omega
  · exact fun hfull => absurd hfull (not_pending_nil _ _)

theorem resumes_of_inv {n : Nat} {r : PlayRun} (h : FullInv n r) :
    r.Resumes n := by
  intro hpc hfull hlen
  have hplace := h.place
  rw [hpc] at hplace
  have hthr := h.threshold
  have hdown : r.spk.filling = false := hplace hfull
  have hgo : ¬(r.spk.rq.length < r.spk.fillingsz ∨ r.spk.filling = true) := by
    rw [hdown]
    simp only [Bool.false_eq_true, or_false]
    omega
  simp only [Speaker.clientStep, Speaker.step, Speaker.playStep, hpc,
    if_neg hgo]

/-! ## Runs -/

/-- The player waits until the queue is refilled, and does not wait for more
than two looks at a full queue. -/
theorem refill_hysteresis (n sz : Nat) (tick : BitVec 64) (time : Int)
    (ops : List ClientOp) :
    Throughout PlayRun.step PlayRun.Waits (PlayRun.init n sz tick time) ops ∧
    (20 ≤ n →
      Along PlayRun.step (fun _ op => op.Half) (PlayRun.init n sz tick time)
        ops →
      Throughout PlayRun.step (PlayRun.Resumes n) (PlayRun.init n sz tick time)
        ops) := by
  constructor
  · exact throughout_of_inv (fun _ op h => refillInv_step h op)
      (fun _ h => waits_of_inv h) ops _ (refillInv_init n sz tick time)
  · intro hn hhalf
    exact throughout_of_along (I := FullInv n)
      (fun _ _ h hop => fullInv_step h hn hop) (fun _ h => resumes_of_inv h)
      ops _ (fullInv_init hn sz tick time) hhalf

end RoomSpeaker
