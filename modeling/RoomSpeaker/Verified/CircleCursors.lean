import RoomSpeaker.Model.CircleWords
import RoomSpeaker.Verified.CircleRuns

/-!
# The cursors in machine words

No counter of the play queue wraps.  A capacity that came in as an `int` leaves
a `size_t` room for the one element too many that `q_feedup` admits, both drop
loops test `_elems` before they lower it, and an `els` that started negative has
emptied the queue before it comes round to zero.  So the words compute what
`Circle` computes with numbers, call by call, and the cursor congruence of
`Circle` holds of the words.

## Main results

* `circle_step`, `circle_run` — a call on the words is the call on the numbers,
  and so is any sequence of calls.
* `cursorCongruence_run` — in every state any sequence of calls leads to, the
  cursors are in step, `_elems` is lowered only where it is positive, and both
  drop loops end.
-/

namespace RoomSpeaker

open Foundation

/-! ## The drop loops on numbers -/

namespace Circle

/-- `while(els && _elems)`. -/
def removeBackTurns : Loop (Int × Circle) where
  guard s := s.1 ≠ 0 ∧ s.2.elems ≠ 0
  body s := (s.1 - 1, s.2.dropOne)
  measure s := s.2.elems
  falls _ h := Nat.pred_lt (of_decide_eq_true h).2

/-- `while(_elems > _optim)`. -/
def trimTurns : Loop Circle where
  guard c := c.elems > c.optim
  body c := c.dropOne
  measure c := c.elems
  falls _ h := Nat.pred_lt (Nat.ne_zero_of_lt (of_decide_eq_true h))

theorem removeBackLoop_eq_after (k : Nat) :
    ∀ (els : Int) (c : Circle),
      removeBackLoop k els c = (removeBackTurns.after k (els, c)).2 := by
  induction k with
  | zero => intro els c; rfl
  | succ k ih =>
      intro els c
      by_cases hgo : els ≠ 0 ∧ c.elems ≠ 0
      · have hguard : removeBackTurns.guard (els, c) = true :=
          decide_eq_true hgo
        rw [removeBackLoop, if_pos hgo, Loop.after_turn _ hguard]
        exact ih (els - 1) c.dropOne
      · have hguard : removeBackTurns.guard (els, c) = false :=
          decide_eq_false hgo
        rw [removeBackLoop, if_neg hgo, Loop.after_done _ hguard]

theorem trimLoop_eq_after (k : Nat) :
    ∀ c : Circle, trimLoop k c = trimTurns.after k c := by
  induction k with
  | zero => intro c; rfl
  | succ k ih =>
      intro c
      by_cases hgo : c.elems > c.optim
      · have hguard : trimTurns.guard c = true := decide_eq_true hgo
        rw [trimLoop, if_pos hgo, Loop.after_turn _ hguard]
        exact ih c.dropOne
      · have hguard : trimTurns.guard c = false := decide_eq_false hgo
        rw [trimLoop, if_neg hgo, Loop.after_done _ hguard]

end Circle

namespace CircleWords

/-! ## Words as numbers -/

theorem toNat_toSize (n : CInt) : n.toSize.toNat = Circle.sizeOfInt n.toInt := by
  unfold CInt.toSize Circle.sizeOfInt BitVec.signExtend
  rw [BitVec.toNat_ofInt]
  rfl

theorem toNat_pred {e : SizeT} (h : e ≠ 0) : (e - 1).toNat = e.toNat - 1 := by
  bv_omega

theorem ne_zero_iff (e : SizeT) : e ≠ 0 ↔ e.toNat ≠ 0 := by
  bv_omega

/-- A non-negative `int` keeps its value. -/
theorem toNat_toSize_of_nonneg {n : CInt} (h : 0 ≤ n.toInt) :
    n.toSize.toNat = n.toInt.toNat := by
  have hlt := BitVec.toInt_lt (x := n)
  rw [toNat_toSize, Circle.sizeOfInt]
  omega

/-- A remainder by the capacity fits an `int`. -/
theorem toSize_setWidth {x : SizeT} (h : x.toNat < 2 ^ 31) :
    CInt.toSize (x.setWidth 32) = x := by
  apply BitVec.eq_of_toNat_eq
  have hnat : (x.setWidth 32).toNat = x.toNat := by
    rw [BitVec.toNat_setWidth, Nat.mod_eq_of_lt (by omega)]
  have hint : (x.setWidth 32).toInt = x.toNat := by
    rw [BitVec.toInt_eq_toNat_of_lt (by omega), hnat]
  rw [toNat_toSize_of_nonneg (by omega), hint, Int.toNat_natCast]

/-- The queue is well formed, and its capacity came in as an `int`. -/
structure Sized (w : CircleWords) : Prop where
  cursors : w.circle.CursorInv
  cap : w.maxqsz.toNat < 2 ^ 31

theorem Sized.elems_le {w : CircleWords} (h : w.Sized) :
    w.elems.toNat ≤ 2 ^ 31 := by
  have hfits : w.elems.toNat ≤ w.maxqsz.toNat + 1 := h.cursors.fits
  have hcap := h.cap
  omega

/-- Below the capacity `_inc` does not wrap. -/
theorem toNat_inc {w : CircleWords} (hcap : w.maxqsz.toNat < 2 ^ 31)
    {e : SizeT} (he : e.toNat < w.maxqsz.toNat) :
    (w.inc e).toNat = w.circle.inc e.toNat := by
  have hsucc : (e + 1).toNat = e.toNat + 1 := by bv_omega
  rw [inc, BitVec.toNat_umod, hsucc]
  rfl

/-! ## The drop loops on words -/

/-- Words and numbers inside a drop loop. -/
structure InStep (w : CircleWords) (c : Circle) : Prop where
  circle : w.circle = c
  geti : w.geti.toNat < w.maxqsz.toNat
  cap : w.maxqsz.toNat < 2 ^ 31

theorem Sized.inStep {w : CircleWords} (h : w.Sized) : w.InStep w.circle :=
  ⟨rfl, h.cursors.geti, h.cap⟩

theorem InStep.elems {w : CircleWords} {c : Circle} (h : w.InStep c) :
    c.elems = w.elems.toNat := by
  rw [← h.circle]
  rfl

/-- The body of both loops. -/
theorem InStep.dropOne {w : CircleWords} {c : Circle} (h : w.InStep c)
    (hne : w.elems ≠ 0) : w.dropOne.InStep c.dropOne where
  circle := by
    have hgeti := toNat_inc h.cap h.geti
    have helems := toNat_pred hne
    rw [← h.circle]
    simp only [CircleWords.circle, CircleWords.dropOne, Circle.dropOne, hgeti,
      helems]
  geti := by
    show ((w.geti + 1) % w.maxqsz).toNat < w.maxqsz.toNat
    rw [BitVec.toNat_umod]
    exact Nat.mod_lt _ (Nat.zero_lt_of_lt h.geti)
  cap := h.cap

/-- `els` as a word and as a number.  As a number it never gets so low that its
word comes round to zero before the queue is empty. -/
structure ElsInStep (s : CInt × CircleWords) (t : Int × Circle) : Prop where
  words : s.2.InStep t.2
  els : s.1 = BitVec.ofInt 32 t.1
  least : -2 ^ 32 ≤ t.1 - t.2.elems
  most : t.1 < 2 ^ 31

theorem ElsInStep.guard {s : CInt × CircleWords} {t : Int × Circle}
    (h : ElsInStep s t) :
    removeBackLoop.guard s = Circle.removeBackTurns.guard t := by
  apply decide_eq_decide.mpr
  have helems := h.words.elems
  have hzero : t.2.elems ≠ 0 → (s.1 = 0 ↔ t.1 = 0) := by
    intro hne
    have hleast := h.least
    have hmost := h.most
    rw [h.els, ← BitVec.toNat_inj, BitVec.toNat_ofInt]
    simp only [BitVec.ofNat_eq_ofNat, BitVec.toNat_ofNat, Nat.zero_mod]
    omega
  rw [ne_zero_iff, ← helems]
  constructor
  · rintro ⟨hels, hne⟩
    exact ⟨fun h0 => hels ((hzero hne).mpr h0), hne⟩
  · rintro ⟨hels, hne⟩
    exact ⟨fun h0 => hels ((hzero hne).mp h0), hne⟩

theorem ElsInStep.body {s : CInt × CircleWords} {t : Int × Circle}
    (h : ElsInStep s t) (hgo : removeBackLoop.guard s = true) :
    ElsInStep (removeBackLoop.body s) (Circle.removeBackTurns.body t) where
  words := h.words.dropOne (of_decide_eq_true hgo).2
  els := by
    show s.1 - 1 = BitVec.ofInt 32 (t.1 - 1)
    rw [h.els, Int.sub_eq_add_neg, BitVec.ofInt_add, BitVec.sub_eq_add_neg]
    rfl
  least := by
    have hne := (ne_zero_iff _).mp (of_decide_eq_true hgo).2
    have helems := h.words.elems
    have hleast := h.least
    show -2 ^ 32 ≤ t.1 - 1 - ((t.2.elems - 1 : Nat) : Int)
    omega
  most := by
    have hmost := h.most
    show t.1 - 1 < 2 ^ 31
    omega

theorem circle_removeBack {w : CircleWords} (h : w.Sized) (els : CInt) :
    (w.removeBack els).circle = w.circle.removeBack els.toInt := by
  have hstart : ElsInStep (els, w) (els.toInt, w.circle) :=
    { words := h.inStep
      els := BitVec.ofInt_toInt.symm
      least := by
        have hge := BitVec.le_toInt els
        have helems := h.elems_le
        show -2 ^ 32 ≤ els.toInt - (w.elems.toNat : Int)
        omega
      most := BitVec.toInt_lt }
  have hend := Loop.after_rel (fun _ _ => ElsInStep.guard)
    (fun _ _ => ElsInStep.body) w.elems.toNat hstart
  rw [Circle.removeBack, Circle.removeBackLoop_eq_after]
  exact hend.words.circle

/-- The least `int` still empties the queue. -/
example : (((CircleWords.reserve 3 8).qFeedup false).1.removeBack
    (BitVec.intMin 32)).elems = 0 := by decide

theorem InStep.guard {w : CircleWords} {c : Circle} (h : w.InStep c) :
    trimLoop.guard w = Circle.trimTurns.guard c := by
  rw [← h.circle]
  exact decide_eq_decide.mpr BitVec.lt_def

theorem circle_trim {w : CircleWords} {c : Circle} (h : w.InStep c) :
    (trimLoop.run w).circle = Circle.trimLoop c.elems c := by
  have hend := Loop.after_rel (fun _ _ => InStep.guard)
    (fun _ _ hin hgo => hin.dropOne (ne_zero_of_gt (of_decide_eq_true hgo)))
    w.elems.toNat h
  rw [Circle.trimLoop_eq_after, h.elems]
  exact hend.circle

/-! ## One call -/

/-- The queue read off a result, with the chunk handed out. -/
def circleResult {α : Type} (r : CircleWords × α) : Circle × α :=
  (r.1.circle, r.2)

theorem circle_at (w : CircleWords) (i : SizeT) :
    w.circle.at' i.toNat = w.at' i := rfl

theorem circle_qFeedup {w : CircleWords} (h : w.Sized) (scrap : Bool) :
    circleResult (w.qFeedup scrap) = w.circle.qFeedup scrap := by
  have hiff : (w.elems ≤ w.maxqsz ∧ (w.at' w.puti).locked = false) ↔
      (w.circle.elems ≤ w.circle.maxqsz ∧
        (w.circle.at' w.circle.puti).locked = false) :=
    and_congr BitVec.le_def Iff.rfl
  by_cases hgo : w.elems ≤ w.maxqsz ∧ (w.at' w.puti).locked = false
  · have hputi := toNat_inc h.cap h.cursors.puti_lt
    have hbound := h.elems_le
    have helems : (w.elems + 1).toNat = w.elems.toNat + 1 := by bv_omega
    have hgate : decide (w.elems + 1 < w.optim) =
        decide (w.elems.toNat + 1 < w.optim.toNat) :=
      decide_eq_decide.mpr (by rw [BitVec.lt_def, helems])
    rw [qFeedup, if_pos hgo, Circle.qFeedup, if_pos (hiff.mp hgo)]
    apply Prod.ext
    · simp only [circleResult, circle, setLocked, Circle.setLocked,
        Circle.setAt, at', Circle.at', helems, hgate, Circle.mk.injEq,
        true_and]
      exact ⟨hputi, rfl⟩
    · rfl
  · rw [qFeedup, if_neg hgo, Circle.qFeedup,
      if_neg (fun hcircle => hgo (hiff.mpr hcircle))]
    rfl

theorem circle_qConsume {w : CircleWords} (h : w.Sized) :
    circleResult w.qConsume = w.circle.qConsume := by
  have hiff : (w.elems ≠ 0 ∧ w.blockGet = false ∧
        (w.at' w.geti).locked = false) ↔
      (w.circle.elems ≠ 0 ∧ w.circle.blockGet = false ∧
        (w.circle.at' w.circle.geti).locked = false) :=
    and_congr (ne_zero_iff w.elems) Iff.rfl
  by_cases hgo : w.elems ≠ 0 ∧ w.blockGet = false ∧
      (w.at' w.geti).locked = false
  · have hgeti := toNat_inc h.cap h.cursors.geti
    have helems := toNat_pred hgo.1
    rw [qConsume, if_pos hgo, Circle.qConsume, if_pos (hiff.mp hgo)]
    apply Prod.ext
    · simp only [circleResult, circle, setLocked, Circle.setLocked,
        Circle.setAt, at', Circle.at', helems, Circle.mk.injEq, true_and,
        and_true]
      exact hgeti
    · rfl
  · have hgate : decide (w.elems < w.optim) =
        decide (w.elems.toNat < w.optim.toNat) :=
      decide_eq_decide.mpr BitVec.lt_def
    rw [qConsume, if_neg hgo, Circle.qConsume,
      if_neg (fun hcircle => hgo (hiff.mpr hcircle))]
    simp only [circleResult, circle, hgate]
    rfl

theorem circle_getOffPut {w : CircleWords} (h : w.Sized) (index : CInt) :
    circleResult (w.getOffPut index) = w.circle.getOffPut index.toInt := by
  have hmod : ((w.puti + index.toSize) % w.maxqsz).toNat =
      (w.circle.puti + Circle.sizeOfInt index.toInt) % 2 ^ 64 %
        w.circle.maxqsz := by
    rw [BitVec.toNat_umod, BitVec.toNat_add, toNat_toSize]
    rfl
  have hlt : ((w.puti + index.toSize) % w.maxqsz).toNat < 2 ^ 31 := by
    rw [BitVec.toNat_umod]
    exact Nat.lt_trans (Nat.mod_lt _ h.cursors.pos) h.cap
  simp only [getOffPut, Circle.getOffPut, toSize_setWidth hlt, ← hmod,
    circle_at]
  split
  · rfl
  · rfl

theorem circle_setOptimPerc (w : CircleWords) (optim : CInt) :
    (w.setOptimPerc optim).1.circle = w.circle.setOptimPerc optim.toInt := by
  have hnew : (optim.toSize * w.maxqsz / 100).toNat =
      Circle.sizeOfInt optim.toInt * w.circle.maxqsz % 2 ^ 64 / 100 := by
    rw [BitVec.toNat_udiv, BitVec.toNat_mul, toNat_toSize]
    rfl
  rw [Circle.setOptimPerc, ← hnew]
  simp only [setOptimPerc]
  split
  · rfl
  · next hsame =>
      rw [Decidable.not_not] at hsame
      rw [hsame]
      rfl

theorem toNat_clampOptim (w : CircleWords) (optlen : CInt) :
    (w.clampOptim optlen).toNat = w.circle.clampOptim optlen.toInt := by
  have hiff : optlen.toSize ≥ w.maxqsz ↔
      Circle.sizeOfInt optlen.toInt ≥ w.circle.maxqsz := by
    rw [← toNat_toSize]
    exact BitVec.le_def
  have hle : w.maxqsz / 20 ≤ w.maxqsz := by
    rw [BitVec.le_def, BitVec.toNat_udiv]
    exact Nat.div_le_self _ _
  unfold clampOptim Circle.clampOptim
  by_cases hgo : optlen.toSize ≥ w.maxqsz
  · rw [if_pos hgo, if_pos (hiff.mp hgo), BitVec.toNat_sub_of_le hle,
      BitVec.toNat_udiv]
    rfl
  · rw [if_neg hgo, if_neg (fun hcircle => hgo (hiff.mpr hcircle)),
      toNat_toSize]

theorem circle_forceOptim {w : CircleWords} (h : w.Sized) (optlen : CInt) :
    (w.forceOptim optlen).circle = w.circle.forceOptim optlen.toInt := by
  have hclamp := w.toNat_clampOptim optlen
  have hne : w.optim ≠ w.clampOptim optlen ↔
      w.circle.optim ≠ w.circle.clampOptim optlen.toInt := by
    rw [← hclamp, not_iff_not]
    exact BitVec.toNat_inj.symm
  have hgt : w.elems > w.clampOptim optlen ↔
      w.circle.elems > w.circle.clampOptim optlen.toInt := by
    rw [← hclamp]
    exact BitVec.lt_def
  have hstart : InStep { w with optim := w.clampOptim optlen }
      { w.circle with optim := w.circle.clampOptim optlen.toInt } :=
    { circle := by rw [← hclamp]; rfl
      geti := h.cursors.geti
      cap := h.cap }
  simp only [forceOptim, Circle.forceOptim, ← hne, ← hgt]
  split
  · split
    · exact circle_trim hstart
    · rw [← hclamp]
      rfl
  · rfl

/-- A call on the words is the call on the numbers. -/
theorem circle_step {w : CircleWords} (h : w.Sized) (call : CircleCall) :
    (w.step call).circle = w.circle.step call.op := by
  cases call with
  | qFeedup scrap => exact congrArg Prod.fst (circle_qFeedup h scrap)
  | qConsume => exact congrArg Prod.fst (circle_qConsume h)
  | getOffPut index => exact congrArg Prod.fst (circle_getOffPut h index)
  | dummy => rfl
  | write pk x => cases pk <;> rfl
  | release pk =>
      cases pk with
      | some pk => cases pk <;> rfl
      | none => rfl
  | removeBack els => exact circle_removeBack h els
  | reset => rfl
  | setOptimPerc optim => exact w.circle_setOptimPerc optim
  | forceOptim optlen => exact circle_forceOptim h optlen

/-! ## Every sequence of calls -/

theorem circle_reserve {n : CInt} (hn : 1 ≤ n.toInt) (sz : Nat) :
    (CircleWords.reserve n sz).circle = Circle.reserve n.toInt.toNat sz := by
  have hsize := toNat_toSize_of_nonneg (n := n) (by omega)
  simp only [circle, CircleWords.reserve, Circle.reserve, hsize]
  rfl

theorem Sized.reserve {n : CInt} (hn : 1 ≤ n.toInt) (sz : Nat) :
    (CircleWords.reserve n sz).Sized where
  cursors := by
    rw [circle_reserve hn]
    exact Circle.CursorInv.reserve _ sz (by omega)
  cap := by
    have hlt := BitVec.toInt_lt (x := n)
    show n.toSize.toNat < 2 ^ 31
    rw [toNat_toSize_of_nonneg (by omega)]
    omega

/-- The capacity is set once. -/
theorem maxqsz_step {w : CircleWords} (h : w.Sized) (call : CircleCall) :
    (w.step call).maxqsz = w.maxqsz := by
  apply BitVec.eq_of_toNat_eq
  show (w.step call).circle.maxqsz = w.circle.maxqsz
  rw [circle_step h]
  exact Circle.capacity_step h.cursors call.op

theorem Sized.step {w : CircleWords} (h : w.Sized) (call : CircleCall) :
    (w.step call).Sized where
  cursors := by
    rw [circle_step h]
    exact h.cursors.step call.op
  cap := by
    rw [maxqsz_step h]
    exact h.cap

/-- A sequence of calls on the words is the sequence on the numbers. -/
theorem circle_run (calls : List CircleCall) :
    ∀ {w : CircleWords}, w.Sized →
      (run CircleWords.step w calls).circle =
        run Circle.step w.circle (calls.map CircleCall.op) := by
  induction calls with
  | nil => intro w _; rfl
  | cons call calls ih =>
      intro w h
      rw [List.map_cons, run_cons, run_cons, ← circle_step h]
      exact ih (h.step call)

/-- `_elems` is lowered only where it is positive. -/
theorem ne_zero_of_decremented {w : CircleWords} {call : CircleCall}
    {e : SizeT} (h : e ∈ w.decremented call) : e ≠ 0 := by
  cases call with
  | qConsume =>
      simp only [decremented] at h
      split at h
      · next hgo =>
          rw [List.mem_singleton.mp h]
          exact hgo.1
      · cases h
  | removeBack els =>
      obtain ⟨s, hturn, rfl⟩ := List.mem_map.mp h
      exact (of_decide_eq_true (Loop.guard_of_mem_turns _ hturn)).2
  | forceOptim optlen =>
      simp only [decremented] at h
      split at h
      · obtain ⟨s, hturn, rfl⟩ := List.mem_map.mp h
        exact ne_zero_of_gt
          (of_decide_eq_true (Loop.guard_of_mem_turns _ hturn))
      · cases h
  | qFeedup _ | getOffPut _ | dummy | write _ _ | release _ | reset
  | setOptimPerc _ => cases h

/-- The cursor congruence of a queue of capacity `n`, with what every next call
does to `_elems` and how its loop ends. -/
structure Congruent (n : Nat) (w : CircleWords) : Prop where
  geti_lt : w.geti.toNat < n
  puti_lt : w.puti.toNat < n
  puti : w.puti.toNat = (w.geti.toNat + w.elems.toNat) % n
  fits : w.elems.toNat ≤ n + 1
  positive : ∀ call, ∀ e ∈ w.decremented call, e ≠ 0
  removeBack : ∀ els, removeBackLoop.Ends (els, w)
  forceOptim : ∀ optlen,
    trimLoop.Ends { w with optim := w.clampOptim optlen }

theorem Sized.congruent {w : CircleWords} (h : w.Sized) :
    w.Congruent w.maxqsz.toNat where
  geti_lt := h.cursors.geti
  puti_lt := h.cursors.puti_lt
  puti := h.cursors.puti
  fits := h.cursors.fits
  positive _ _ he := ne_zero_of_decremented he
  removeBack _ := Loop.ends _ _
  forceOptim _ := Loop.ends _ _

/-- The cursor congruence holds in every state any sequence of calls leads
to. -/
theorem cursorCongruence_run (n : CInt) (sz : Nat) (hn : 1 ≤ n.toInt)
    (calls : List CircleCall) :
    Throughout CircleWords.step (Congruent n.toInt.toNat)
      (CircleWords.reserve n sz) calls := by
  have hcap : (CircleWords.reserve n sz).maxqsz.toNat = n.toInt.toNat :=
    toNat_toSize_of_nonneg (by omega)
  apply throughout_of_inv (I := fun w =>
    w.Sized ∧ w.maxqsz.toNat = n.toInt.toNat)
  · rintro w call ⟨hsized, hmax⟩
    exact ⟨hsized.step call, by rw [maxqsz_step hsized, hmax]⟩
  · rintro w ⟨hsized, hmax⟩
    rw [← hmax]
    exact hsized.congruent
  · exact ⟨Sized.reserve hn sz, hcap⟩

/-- Three chunks, filled past the capacity, then emptied by a negative
`remove_back`. -/
theorem cursorCongruence_run_three :
    Throughout CircleWords.step (Congruent 3) (CircleWords.reserve 3 8)
      [.qFeedup false, .release (some (.slot 0)), .qFeedup false,
        .qFeedup false, .qFeedup false, .qFeedup false, .qConsume,
        .forceOptim (-5), .getOffPut (-1), .removeBack (-1), .qConsume] :=
  cursorCongruence_run 3 8 (by decide) _

end CircleWords

end RoomSpeaker
