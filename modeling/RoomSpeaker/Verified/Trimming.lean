import RoomSpeaker.Verified.CircleRuns

/-!
# What `force_optim` takes out of the queue

`force_optim` clamps its target, drops the oldest chunks above it, or else
closes the gate until the count has reached it.  The newest chunks stay as they
are, among them the one the producer is filling: it is the last one queued, for
as long as it is queued at all.

## Main results

* `reservedInv_step` — the producer's slot is locked and last in the queue.
* `closed_run` — a gate that `force_optim` closed stays closed below the
  target.
* `forceOptim_trims` — the whole effect of the call, in every reachable state.
-/

namespace RoomSpeaker

open Foundation

/-! ## The target -/

/-- The target of a `force_optim` on a queue of capacity `cap`. -/
def trimTarget (cap : Nat) (n : Int) : Nat :=
  if 0 ≤ n ∧ n < cap then n.toNat else cap - cap / 20

namespace Circle

/-- An `int` that is negative becomes a huge `size_t`. -/
theorem clampOptim_eq (c : Circle) {n : Int} (hlow : -2 ^ 31 ≤ n)
    (hhigh : n < 2 ^ 31) (hcap : c.maxqsz < 2 ^ 31) :
    c.clampOptim n = trimTarget c.maxqsz n := by
  unfold clampOptim trimTarget sizeOfInt
  by_cases hneg : n < 0
  · have hbig : c.maxqsz ≤ (n % 2 ^ 64).toNat := by omega
    rw [if_pos hbig, if_neg (by omega)]
  · have hsame : (n % 2 ^ 64).toNat = n.toNat := by omega
    rw [hsame]
    by_cases hle : c.maxqsz ≤ n.toNat
    · rw [if_pos hle, if_neg (by omega)]
    · rw [if_neg hle, if_pos (by omega)]

/-! ## The gate -/

/-- A call that does not change the optimum. -/
def KeepsOptim (c : Circle) (op : CircleOp) : Prop :=
  (c.step op).optim = c.optim

/-- Below the optimum a closed gate stays closed. -/
theorem closed_step {c : Circle} (h : c.CursorInv) {op : CircleOp}
    (hclosed : c.blockGet = true) (hkeeps : c.KeepsOptim op)
    (hlow : (c.step op).elems < c.optim) : (c.step op).blockGet = true := by
  rcases c.step_cases op with ⟨_, _, _, heq⟩ | ⟨_, hopen, _, _, _⟩ |
    ⟨_, heq⟩ | ⟨pk, k, heq⟩ | ⟨els, rfl⟩ | rfl | ⟨optim, rfl⟩ | ⟨optlen, rfl⟩
  · rw [heq] at hlow ⊢
    show (c.blockGet && decide (c.elems + 1 < c.optim)) = true
    rw [hclosed, Bool.true_and]
    exact decide_eq_true hlow
  · rw [hclosed] at hopen
    cases hopen
  · rw [heq] at hlow ⊢
    show (c.blockGet && decide (c.elems < c.optim)) = true
    rw [hclosed, Bool.true_and]
    exact decide_eq_true hlow
  · rw [heq, blockGet_assign]
    exact hclosed
  · show (c.removeBack els).blockGet = true
    rw [removeBack_eq c els h.geti]
    exact hclosed
  · exact hclosed
  · exact hclosed
  · have hsame : c.optim = c.clampOptim optlen := by
      have hoptim : (c.forceOptim optlen).optim = c.optim := hkeeps
      rw [← hoptim, forceOptim_optim c optlen h.geti]
    show (c.forceOptim optlen).blockGet = true
    rw [forceOptim_blockGet c optlen h.geti, if_neg (by simp [hsame])]
    exact hclosed

/-- As long as the optimum is not changed nor reached, the consumer gets
nothing. -/
theorem closed_run (ops : List CircleOp) :
    ∀ c : Circle, c.CursorInv → c.blockGet = true →
      Along step KeepsOptim c ops →
      Throughout step (fun d => d.elems < c.optim) c ops →
      (run step c ops).qConsume.2 = none := by
  induction ops with
  | nil =>
      intro c _ hclosed _ _
      rcases c.qConsume_cases with ⟨_, hopen, _, _⟩ | ⟨_, hnull⟩
      · rw [hclosed] at hopen
        cases hopen
      · show c.qConsume.2 = none
        rw [hnull]
  | cons op ops ih =>
      intro c h hclosed hkeeps hlow
      have hoptim : (c.step op).optim = c.optim := hkeeps.1
      have hnext := closed_step h hclosed hkeeps.1 hlow.2.head
      apply ih (c.step op) (h.step op) hnext hkeeps.2
      rw [hoptim]
      exact hlow.2

end Circle

/-! ## The producer's slot -/

/-- The producer's slot is locked, and is queued last if anything is queued. -/
structure FeedRun.ReservedInv (r : FeedRun) : Prop where
  cursors : r.circle.CursorInv
  slot : ∀ i, r.reserved = some i → i < r.circle.maxqsz
  locked : ∀ i, r.reserved = some i → (r.circle.at' i).locked = true
  newest : ∀ i, r.reserved = some i → r.circle.elems ≠ 0 →
    r.circle.queued.getLast? = some i

theorem reservedInv_init (n sz : Nat) (hn : 0 < n) :
    (FeedRun.init n sz).ReservedInv := by
  refine ⟨Circle.CursorInv.reserve n sz hn, ?_, ?_, ?_⟩ <;>
    intro i hi <;> cases hi

private theorem FeedRun.ReservedInv.fed {r : FeedRun} (h : r.ReservedInv)
    (hroom : r.circle.elems ≤ r.circle.maxqsz) :
    FeedRun.ReservedInv ⟨r.circle.fed, some r.circle.puti⟩ := by
  refine ⟨h.cursors.fed hroom, ?_, ?_, ?_⟩
  · rintro i hi
    obtain rfl := Option.some.inj hi
    exact h.cursors.puti_lt
  · rintro i hi
    obtain rfl := Option.some.inj hi
    exact Circle.locked_setLocked_self h.cursors h.cursors.puti_lt true
  · rintro i hi _
    obtain rfl := Option.some.inj hi
    show r.circle.fed.queued.getLast? = some r.circle.puti
    rw [Circle.queued_fed h.cursors, List.getLast?_concat]

private theorem FeedRun.ReservedInv.served {r : FeedRun} (h : r.ReservedInv)
    (hne : r.circle.elems ≠ 0)
    (hfree : (r.circle.at' r.circle.geti).locked = false) :
    FeedRun.ReservedInv ⟨r.circle.served, r.reserved⟩ := by
  have hapart : ∀ i, r.reserved = some i → i ≠ r.circle.geti := by
    intro i hi
    exact Circle.ne_of_locked (h.locked i hi) hfree
  refine ⟨h.cursors.served hne, h.slot, ?_, ?_⟩
  · intro i hi
    show ((r.circle.setLocked r.circle.geti true).at' i).locked = true
    rw [Circle.at_setLocked_ne _ _ _ _ (hapart i hi)]
    exact h.locked i hi
  · intro i hi hleft
    have hlast := h.newest i hi hne
    rw [Circle.queued_served h.cursors hne] at hlast
    have hcons : r.circle.served.queued ≠ [] := by
      intro hnil
      have hlen := congrArg List.length hnil
      rw [Circle.length_queued] at hlen
      exact hleft hlen
    rwa [List.getLast?_cons_of_ne_nil hcons] at hlast

/-- Dropping old slots leaves the newest one queued, or none. -/
private theorem FeedRun.ReservedInv.drops {r : FeedRun} (h : r.ReservedInv)
    {c : Circle} (hdrops : r.circle.Drops c) :
    FeedRun.ReservedInv ⟨c, r.reserved⟩ := by
  refine ⟨hdrops.inv, ?_, ?_, ?_⟩
  · intro i hi
    show i < c.maxqsz
    rw [hdrops.cap]
    exact h.slot i hi
  · intro i hi
    show (c.at' i).locked = true
    rw [Circle.at_congr hdrops.cells]
    exact h.locked i hi
  · intro i hi hleft
    have hle := hdrops.le
    have hleft' : c.elems ≠ 0 := hleft
    show c.queued.getLast? = some i
    rw [hdrops.rest, List.getLast?_drop, Circle.length_queued,
      if_neg (by omega)]
    exact h.newest i hi (by omega)

/-- Overwriting a chunk keeps the law of a slot that stays locked. -/
private theorem FeedRun.ReservedInv.assign {r : FeedRun} (h : r.ReservedInv)
    (pk : ChunkRef) (k : Chunk) {reserved : Option Nat}
    (hkeep : ∀ i, reserved = some i → r.reserved = some i ∧
      (pk = .slot i → k.locked = true)) :
    FeedRun.ReservedInv ⟨r.circle.assign pk k, reserved⟩ := by
  have hqueued : (r.circle.assign pk k).queued = r.circle.queued := by
    cases pk <;> rfl
  refine ⟨h.cursors.assign pk k, ?_, ?_, ?_⟩
  · intro i hi
    show i < (r.circle.assign pk k).maxqsz
    rw [Circle.maxqsz_assign]
    exact h.slot i (hkeep i hi).1
  · intro i hi
    obtain ⟨hold, hlock⟩ := hkeep i hi
    show ((r.circle.assign pk k).at' i).locked = true
    cases pk with
    | scrap => exact h.locked i hold
    | slot j =>
        rcases r.circle.at_setAt_cases j i k with ⟨hij, hnew⟩ | hsame
        · show ((r.circle.setAt j k).at' i).locked = true
          rw [hnew]
          exact hlock (by rw [hij])
        · show ((r.circle.setAt j k).at' i).locked = true
          rw [hsame]
          exact h.locked i hold
  · intro i hi hleft
    show (r.circle.assign pk k).queued.getLast? = some i
    rw [hqueued]
    exact h.newest i (hkeep i hi).1 (by simpa using hleft)

/-- A producer that releases its slot before it asks for another keeps the
law. -/
theorem reservedInv_step {r : FeedRun} (h : r.ReservedInv) (op : CircleOp)
    (hone : r.OneSlot op) : (r.step op).ReservedInv := by
  have hscrap : r.circle = r.circle.assign .scrap r.circle.scrap := rfl
  cases op with
  | qFeedup scrap =>
      have hnone : r.reserved = none := hone
      rcases r.circle.qFeedup_scrap_cases scrap with
        ⟨hroom, _, hfed⟩ | ⟨_, hnull⟩
      · have hstep : r.step (.qFeedup scrap) =
            ⟨r.circle.fed, some r.circle.puti⟩ := by
          simp only [FeedRun.step, Circle.step, FeedRun.reservedAfter, hfed]
        rw [hstep]
        exact h.fed hroom
      · have hstep : r.step (.qFeedup scrap) = r := by
          cases scrap <;>
            simp [FeedRun.step, Circle.step, FeedRun.reservedAfter, hnull]
        rw [hstep]
        exact h
  | qConsume =>
      rcases r.circle.qConsume_cases with ⟨hne, _, hfree, hserved⟩ | ⟨_, hnull⟩
      · have hstep : r.step .qConsume = ⟨r.circle.served, r.reserved⟩ := by
          simp only [FeedRun.step, Circle.step, FeedRun.reservedAfter, hserved]
        rw [hstep]
        exact h.served hne hfree
      · have hstep : r.step .qConsume = ⟨r.circle.refused, r.reserved⟩ := by
          simp only [FeedRun.step, Circle.step, FeedRun.reservedAfter, hnull]
        rw [hstep]
        exact h.drops (Circle.drops_refused h.cursors)
  | getOffPut index =>
      show FeedRun.ReservedInv ⟨(r.circle.getOffPut index).1, r.reserved⟩
      unfold Circle.getOffPut
      simp only
      split
      · exact h.assign (.slot _) _ fun i hi => ⟨hi, fun _ => rfl⟩
      · exact h
  | dummy =>
      exact h.assign .scrap _ fun i hi => ⟨hi, fun hpk => by cases hpk⟩
  | write pk x =>
      apply h.assign pk
      intro i hi
      refine ⟨hi, ?_⟩
      rintro rfl
      exact h.locked i hi
  | release pk =>
      cases pk with
      | none => exact h
      | some pk =>
          apply h.assign pk
          intro i hi
          cases pk with
          | scrap => exact ⟨hi, fun hpk => by cases hpk⟩
          | slot j =>
              -- releasing the producer's slot ends the reservation
              by_cases hj : r.reserved = some j
              · simp [FeedRun.reservedAfter, hj] at hi
              · have hsame : r.reserved = some i := by
                  simpa [FeedRun.reservedAfter, hj] using hi
                refine ⟨hsame, ?_⟩
                intro hpk
                obtain rfl := ChunkRef.slot.inj hpk
                exact absurd hsame hj
  | removeBack els => exact h.drops (Circle.drops_removeBack h.cursors els)
  | reset => exact h.drops (Circle.drops_reset h.cursors)
  | setOptimPerc optim =>
      exact h.drops (Circle.drops_setOptimPerc h.cursors optim)
  | forceOptim optlen =>
      exact h.drops (Circle.drops_forceOptim h.cursors optlen)

/-! ## The call -/

/-- What `force_optim(n)` with the target `m` does to the queue. -/
structure Circle.Trims (c : Circle) (n : Int) (m : Nat) : Prop where
  unchanged : m = c.optim → c.forceOptim n = c
  newest : m ≠ c.optim → (c.forceOptim n).queued =
    c.queued.drop (c.elems - min c.elems m)
  cells : (c.forceOptim n).queue = c.queue
  puti : (c.forceOptim n).puti = c.puti
  waits : m ≠ c.optim → c.elems ≤ m → ∀ ops,
    Along Circle.step Circle.KeepsOptim (c.forceOptim n) ops →
    Throughout Circle.step (fun d => d.elems < m) (c.forceOptim n) ops →
    (run Circle.step (c.forceOptim n) ops).qConsume.2 = none

theorem trims_of_inv {c : Circle} (h : c.CursorInv) {n : Int}
    (hlow : -2 ^ 31 ≤ n) (hhigh : n < 2 ^ 31) (hcap : c.maxqsz < 2 ^ 31) :
    c.Trims n (trimTarget c.maxqsz n) := by
  have htarget := c.clampOptim_eq hlow hhigh hcap
  have hdrops := Circle.drops_forceOptim h n
  rw [← htarget]
  refine ⟨?_, ?_, Circle.forceOptim_queue c n, ?_, ?_⟩
  · intro hsame
    rw [Circle.forceOptim_eq c n h.geti, if_pos hsame.symm]
  · intro hne
    have helems : (c.forceOptim n).elems = min c.elems (c.clampOptim n) := by
      rw [Circle.forceOptim_elems c n h.geti]
      split <;> omega
    rw [hdrops.rest, helems]
  · rw [Circle.forceOptim_eq c n h.geti]
    split
    · rfl
    · split <;> rfl
  · intro hne hle ops hkeeps hbelow
    have hclosed : (c.forceOptim n).blockGet = true := by
      rw [Circle.forceOptim_blockGet c n h.geti, if_pos ⟨hne.symm, hle⟩]
    apply Circle.closed_run ops _ hdrops.inv hclosed hkeeps
    rw [Circle.forceOptim_optim c n h.geti]
    exact hbelow

/-- The producer's slot stays queued when the target is not zero. -/
theorem reserved_stays {r : FeedRun} (h : r.ReservedInv) {n : Int}
    (hpos : 1 ≤ r.circle.clampOptim n) {i : Nat} (hi : r.reserved = some i)
    (hqueued : i ∈ r.circle.queued) :
    i ∈ (r.circle.forceOptim n).queued := by
  have hne : r.circle.elems ≠ 0 := by
    have hlen := List.length_pos_of_mem hqueued
    rw [Circle.length_queued] at hlen
    omega
  have hleft : (r.circle.forceOptim n).elems ≠ 0 := by
    rw [Circle.forceOptim_elems r.circle n h.cursors.geti]
    split <;> omega
  have hafter := h.drops (Circle.drops_forceOptim h.cursors n)
  exact List.mem_of_getLast? (hafter.newest i hi hleft)

/-- `force_optim` in every reachable state: it trims from the old end, and does
not take the slot the producer has reserved. -/
theorem forceOptim_trims (cap sz : Nat) (hpos : 0 < cap)
    (hcap : cap < 2 ^ 31) (ops : List CircleOp) (n : Int)
    (hlow : -2 ^ 31 ≤ n) (hhigh : n < 2 ^ 31) :
    let r := run FeedRun.step (FeedRun.init cap sz) ops
    r.circle.Trims n (trimTarget cap n) ∧
      (Along FeedRun.step FeedRun.OneSlot (FeedRun.init cap sz) ops →
        1 ≤ trimTarget cap n → ∀ i, r.reserved = some i →
        i ∈ r.circle.queued → i ∈ (r.circle.forceOptim n).queued) := by
  intro r
  have hinv : r.circle.CursorInv ∧ r.circle.maxqsz = cap := by
    have hrun : Throughout FeedRun.step
        (fun r => r.circle.CursorInv ∧ r.circle.maxqsz = cap)
        (FeedRun.init cap sz) ops :=
      throughout_of_inv
        (fun r op h => ⟨h.1.step op, (Circle.capacity_step h.1 op).trans h.2⟩)
        (fun _ h => h) ops (FeedRun.init cap sz)
        ⟨Circle.CursorInv.reserve cap sz hpos, rfl⟩
    exact hrun.last
  have hmax := hinv.2
  have htarget := r.circle.clampOptim_eq hlow hhigh (by omega)
  rw [hmax] at htarget
  constructor
  · have htrims := trims_of_inv hinv.1 hlow hhigh (by omega)
    rwa [hmax] at htrims
  · intro hone hge i hi hqueued
    have hrun := throughout_of_along (I := FeedRun.ReservedInv)
      (P := FeedRun.ReservedInv)
      (fun r op h hop => reservedInv_step h op hop) (fun _ h => h) ops
      (FeedRun.init cap sz) (reservedInv_init cap sz hpos) hone
    exact reserved_stays hrun.last (by rw [htarget]; exact hge) hi hqueued

/-- Three chunks are queued, the last of them not yet released, when the target
is one. -/
theorem forceOptim_trims_reserved :
    (1 : Nat) ∈ ((run FeedRun.step (FeedRun.init 2 4)
      [.qFeedup false, .release (some (.slot 0)), .qFeedup false,
        .release (some (.slot 1)), .qFeedup false, .release (some (.slot 0)),
        .qConsume, .release (some (.slot 0)),
        .qFeedup false]).circle.forceOptim 1).queued :=
  (forceOptim_trims 2 4 (by decide) (by decide) _ 1 (by decide)
    (by decide)).2 (by decide) (by decide) 1 (by decide) (by decide)

end RoomSpeaker
