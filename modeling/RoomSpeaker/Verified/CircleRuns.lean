import RoomSpeaker.Foundation.Run
import RoomSpeaker.Model.CircleCalls
import RoomSpeaker.Verified.CircleSpec

/-!
# What every sequence of calls keeps

The calls of a `Circle` come in any order and with any arguments.  They keep the
cursors in step, and as long as `set_optim_perc` is given percentages they keep
the optimum within the capacity.  From these two it follows that producer and
consumer are never refused together: when nothing is locked, a full queue is
above its optimum, and the gate of a queue at its optimum opens at the first
`q_consume`.

## Main results

* `step_cases` — what one call does.
* `neverStrands_run` — in every reachable state the optimum is within the
  capacity, a queue at its optimum is served, and the producer alone can bring
  the queue to its optimum.
-/

namespace RoomSpeaker

open Foundation

namespace Circle

/-! ## One call -/

/-- What a call does: it reserves a slot, hands one out, refuses to, overwrites
one chunk (or nothing), or is one of the calls that drop old slots. -/
theorem step_cases (c : Circle) (op : CircleOp) :
    (c.elems ≤ c.maxqsz ∧ (c.at' c.puti).locked = false ∧
      (∃ scrap, op = .qFeedup scrap) ∧ c.step op = c.fed) ∨
    (c.elems ≠ 0 ∧ c.blockGet = false ∧ (c.at' c.geti).locked = false ∧
      op = .qConsume ∧ c.step op = c.served) ∨
    (op = .qConsume ∧ c.step op = c.refused) ∨
    (∃ pk k, c.step op = c.assign pk k) ∨
    ((∃ els, op = .removeBack els) ∨ op = .reset ∨
      (∃ optim, op = .setOptimPerc optim) ∨
      ∃ optlen, op = .forceOptim optlen) := by
  have hsame : c = c.assign .scrap c.scrap := rfl
  cases op with
  | qFeedup scrap =>
      rcases c.qFeedup_scrap_cases scrap with ⟨hroom, hfree, hfed⟩ | ⟨_, hnull⟩
      · exact Or.inl ⟨hroom, hfree, ⟨scrap, rfl⟩, by simp only [step, hfed]⟩
      · refine Or.inr (Or.inr (Or.inr (Or.inl ⟨.scrap, c.scrap, ?_⟩)))
        simp only [step, hnull]
        exact hsame
  | qConsume =>
      rcases c.qConsume_cases with ⟨hne, hopen, hfree, hserved⟩ | ⟨_, hnull⟩
      · exact Or.inr (Or.inl
          ⟨hne, hopen, hfree, rfl, by simp only [step, hserved]⟩)
      · exact Or.inr (Or.inr (Or.inl ⟨rfl, by simp only [step, hnull]⟩))
  | getOffPut index =>
      refine Or.inr (Or.inr (Or.inr (Or.inl ?_)))
      simp only [step, getOffPut]
      split
      · exact ⟨.slot _, _, rfl⟩
      · exact ⟨.scrap, c.scrap, hsame⟩
  | dummy => exact Or.inr (Or.inr (Or.inr (Or.inl ⟨.scrap, _, rfl⟩)))
  | write pk x => exact Or.inr (Or.inr (Or.inr (Or.inl ⟨pk, _, rfl⟩)))
  | release pk =>
      refine Or.inr (Or.inr (Or.inr (Or.inl ?_)))
      cases pk with
      | some pk => exact ⟨pk, _, rfl⟩
      | none => exact ⟨.scrap, c.scrap, hsame⟩
  | removeBack els => simp
  | reset => simp
  | setOptimPerc optim => simp
  | forceOptim optlen => simp

/-- The calls of the last kind drop old slots and write no chunk. -/
theorem drops_control {c : Circle} (h : c.CursorInv) {op : CircleOp}
    (hop : (∃ els, op = .removeBack els) ∨ op = .reset ∨
      (∃ optim, op = .setOptimPerc optim) ∨
      ∃ optlen, op = .forceOptim optlen) : c.Drops (c.step op) := by
  rcases hop with ⟨els, rfl⟩ | rfl | ⟨optim, rfl⟩ | ⟨optlen, rfl⟩
  · exact drops_removeBack h els
  · exact drops_reset h
  · exact drops_setOptimPerc h optim
  · exact drops_forceOptim h optlen

@[simp] theorem maxqsz_assign (c : Circle) (pk : ChunkRef) (k : Chunk) :
    (c.assign pk k).maxqsz = c.maxqsz := by
  cases pk <;> rfl

@[simp] theorem optim_assign (c : Circle) (pk : ChunkRef) (k : Chunk) :
    (c.assign pk k).optim = c.optim := by
  cases pk <;> rfl

@[simp] theorem elems_assign (c : Circle) (pk : ChunkRef) (k : Chunk) :
    (c.assign pk k).elems = c.elems := by
  cases pk <;> rfl

@[simp] theorem blockGet_assign (c : Circle) (pk : ChunkRef) (k : Chunk) :
    (c.assign pk k).blockGet = c.blockGet := by
  cases pk <;> rfl

theorem CursorInv.assign {c : Circle} (h : c.CursorInv) (pk : ChunkRef)
    (k : Chunk) : (c.assign pk k).CursorInv := by
  cases pk with
  | slot i => exact h.setAt i k
  | scrap => exact ⟨h.pos, h.pool, h.geti, h.puti, h.fits⟩

/-- Every call keeps the cursors in step. -/
theorem CursorInv.step {c : Circle} (h : c.CursorInv) (op : CircleOp) :
    (c.step op).CursorInv := by
  rcases c.step_cases op with ⟨hroom, _, _, heq⟩ | ⟨hne, _, _, _, heq⟩ |
    ⟨_, heq⟩ | ⟨pk, k, heq⟩ | hop
  · rw [heq]
    exact h.fed hroom
  · rw [heq]
    exact h.served hne
  · rw [heq]
    exact (drops_refused h).inv
  · rw [heq]
    exact h.assign pk k
  · exact (drops_control h hop).inv

/-- No call changes the capacity. -/
theorem capacity_step {c : Circle} (h : c.CursorInv) (op : CircleOp) :
    (c.step op).maxqsz = c.maxqsz := by
  rcases c.step_cases op with ⟨_, _, _, heq⟩ | ⟨_, _, _, _, heq⟩ |
    ⟨_, heq⟩ | ⟨pk, k, heq⟩ | hop
  · rw [heq]
    rfl
  · rw [heq]
    rfl
  · rw [heq]
    rfl
  · rw [heq, maxqsz_assign]
  · exact (drops_control h hop).cap

/-! ## The optimum -/

theorem clampOptim_le (c : Circle) (optlen : Int) :
    c.clampOptim optlen ≤ c.maxqsz := by
  unfold clampOptim
  split <;> omega

theorem setOptimPerc_optim_le (c : Circle) {optim : Int} (hlow : 0 ≤ optim)
    (hhigh : optim ≤ 100) : (c.setOptimPerc optim).optim ≤ c.maxqsz := by
  have hsize : sizeOfInt optim ≤ 100 := by
    unfold sizeOfInt
    omega
  have hmul : sizeOfInt optim * c.maxqsz ≤ 100 * c.maxqsz :=
    Nat.mul_le_mul_right c.maxqsz hsize
  have hmod := Nat.mod_le (sizeOfInt optim * c.maxqsz) (2 ^ 64)
  show sizeOfInt optim * c.maxqsz % 2 ^ 64 / 100 ≤ c.maxqsz
  omega

/-- The optimum stays within the capacity when `set_optim_perc` is given a
percentage. -/
theorem optim_step_le {c : Circle} (h : c.CursorInv)
    (hoptim : c.optim ≤ c.maxqsz) {op : CircleOp} (hop : op.Percentage) :
    (c.step op).optim ≤ c.maxqsz := by
  rcases c.step_cases op with ⟨_, _, _, heq⟩ | ⟨_, _, _, _, heq⟩ |
    ⟨_, heq⟩ | ⟨pk, k, heq⟩ | ⟨els, rfl⟩ | rfl | ⟨optim, rfl⟩ | ⟨optlen, rfl⟩
  · rw [heq]
    exact hoptim
  · rw [heq]
    exact hoptim
  · rw [heq]
    exact hoptim
  · rw [heq, optim_assign]
    exact hoptim
  · show (c.removeBack els).optim ≤ c.maxqsz
    rw [removeBack_eq c els h.geti]
    exact hoptim
  · exact hoptim
  · exact c.setOptimPerc_optim_le hop.1 hop.2
  · show (c.forceOptim optlen).optim ≤ c.maxqsz
    rw [forceOptim_optim c optlen h.geti]
    exact c.clampOptim_le optlen

/-! ## Nothing is stranded -/

/-- No chunk of the pool is locked. -/
def NoneLocked (c : Circle) : Prop :=
  ∀ i < c.maxqsz, (c.at' i).locked = false

/-- The queue holds a chunk and has reached its optimum. -/
def Filled (c : Circle) : Prop := max 1 c.optim ≤ c.elems

/-- One of the next two calls of `q_consume` returns a chunk. -/
def ServesByTwo (c : Circle) : Prop :=
  c.qConsume.2 ≠ none ∨ c.qConsume.1.qConsume.2 ≠ none

/-- Producer and consumer are not both refused: whatever the gate, a queue that
is filled serves its consumer, and the producer fills it within `n` chunks. -/
structure NeverStrands (n : Nat) (c : Circle) : Prop where
  optim : c.optim ≤ n
  serves : c.NoneLocked → c.Filled → c.ServesByTwo
  fills : c.NoneLocked → ∃ k ≤ n, ∀ j ≥ k,
    (c.feedPairs j).NoneLocked ∧ (c.feedPairs j).Filled
  either : c.NoneLocked → (c.qFeedup false).2 ≠ none ∨ c.ServesByTwo

/-- The first `q_consume` of a filled queue opens the gate if it was closed, and
the next one serves. -/
theorem servesByTwo_of_filled {c : Circle} (h : c.CursorInv)
    (hfree : c.NoneLocked) (hfilled : c.Filled) : c.ServesByTwo := by
  have hmax : max 1 c.optim ≤ c.elems := hfilled
  have hgeti := hfree c.geti h.geti
  rcases c.qConsume_cases with ⟨_, _, _, hserved⟩ | ⟨_, hrefused⟩
  · apply Or.inl
    rw [hserved]
    simp
  · apply Or.inr
    rw [hrefused]
    have hopen : c.refused.blockGet = false := by
      simp only [refused, Bool.and_eq_false_iff, decide_eq_false_iff_not]
      exact Or.inr (by omega)
    rcases c.refused.qConsume_cases with ⟨_, _, _, hserved⟩ | ⟨hno, _⟩
    · rw [hserved]
      simp
    · exact absurd ⟨show c.elems ≠ 0 by omega, hopen, hgeti⟩ hno

/-- Filling one chunk takes one place and leaves nothing locked. -/
theorem feedPair_spec {c : Circle} (h : c.CursorInv) (hfree : c.NoneLocked) :
    c.feedPair.CursorInv ∧ c.feedPair.maxqsz = c.maxqsz ∧
      c.feedPair.optim = c.optim ∧ c.feedPair.NoneLocked ∧
      c.feedPair.elems = min (c.elems + 1) (c.maxqsz + 1) := by
  have hfits := h.fits
  have hputi := hfree c.puti h.puti_lt
  unfold feedPair
  rcases c.qFeedup_cases with ⟨hroom, _, hfed⟩ | ⟨hno, hnull⟩
  · rw [hfed]
    have hcur : c.fed.CursorInv := h.fed hroom
    refine ⟨hcur.assign (.slot c.puti) _, rfl, rfl, ?_, ?_⟩
    · intro i hi
      have hlt : i < c.fed.queue.length := by
        rw [hcur.pool]
        exact hi
      show ((c.fed.setLocked c.puti false).at' i).locked = false
      by_cases hip : i = c.puti
      · subst hip
        rw [at_setLocked_self _ _ _ hlt]
      · rw [at_setLocked_ne _ _ _ _ hip]
        show ((c.setLocked c.puti true).at' i).locked = false
        rw [at_setLocked_ne _ _ _ _ hip]
        exact hfree i hi
    · show c.elems + 1 = min (c.elems + 1) (c.maxqsz + 1)
      omega
  · rw [hnull]
    have hfull : ¬c.elems ≤ c.maxqsz := fun hroom => hno ⟨hroom, hputi⟩
    refine ⟨h, rfl, rfl, hfree, ?_⟩
    show c.elems = min (c.elems + 1) (c.maxqsz + 1)
    omega

/-- Filling `k` chunks takes `k` places, as long as there are any. -/
theorem feedPairs_spec (k : Nat) :
    ∀ c : Circle, c.CursorInv → c.NoneLocked →
      (c.feedPairs k).NoneLocked ∧ (c.feedPairs k).optim = c.optim ∧
      (c.feedPairs k).elems = min (c.elems + k) (c.maxqsz + 1) := by
  induction k with
  | zero =>
      intro c h hfree
      have hfits := h.fits
      refine ⟨hfree, rfl, ?_⟩
      show c.elems = min (c.elems + 0) (c.maxqsz + 1)
      omega
  | succ k ih =>
      intro c h hfree
      obtain ⟨hcur, hcap, hoptim, hfree', helems⟩ := feedPair_spec h hfree
      obtain ⟨hlast, hopt, hcount⟩ := ih c.feedPair hcur hfree'
      refine ⟨hlast, hopt.trans hoptim, ?_⟩
      show (c.feedPair.feedPairs k).elems = _
      rw [hcount, helems, hcap]
      omega

theorem neverStrands_of_inv {n : Nat} {c : Circle} (h : c.CursorInv)
    (hcap : c.maxqsz = n) (hoptim : c.optim ≤ n) : c.NeverStrands n := by
  have hpos := h.pos
  refine ⟨hoptim, servesByTwo_of_filled h, ?_, ?_⟩
  · intro hfree
    refine ⟨max 1 c.optim - c.elems, by omega, ?_⟩
    intro j hj
    obtain ⟨hlast, hopt, hcount⟩ := feedPairs_spec j c h hfree
    refine ⟨hlast, ?_⟩
    show max 1 (c.feedPairs j).optim ≤ (c.feedPairs j).elems
    rw [hopt, hcount]
    omega
  · intro hfree
    rcases c.qFeedup_cases with ⟨_, _, hfed⟩ | ⟨hno, _⟩
    · apply Or.inl
      rw [hfed]
      simp
    · have hfull : ¬c.elems ≤ c.maxqsz :=
        fun hroom => hno ⟨hroom, hfree c.puti h.puti_lt⟩
      apply Or.inr
      apply servesByTwo_of_filled h hfree
      show max 1 c.optim ≤ c.elems
      omega

/-- Whatever is called in whatever order, producer and consumer are never both
refused for ever. -/
theorem neverStrands_run (n sz : Nat) (hn : 0 < n) (ops : List CircleOp)
    (h : Along step (fun _ op => op.Percentage) (reserve n sz) ops) :
    Throughout step (NeverStrands n) (reserve n sz) ops := by
  apply throughout_of_along (C := fun _ op => op.Percentage)
    (I := fun c => c.CursorInv ∧ c.maxqsz = n ∧ c.optim ≤ n) _ _ ops _ _ h
  · intro c op hinv hop
    obtain ⟨hcur, hcap, hoptim⟩ := hinv
    refine ⟨hcur.step op, (capacity_step hcur op).trans hcap, ?_⟩
    rw [← hcap] at hoptim ⊢
    exact optim_step_le hcur hoptim hop
  · intro c hinv
    exact neverStrands_of_inv hinv.1 hinv.2.1 hinv.2.2
  · exact ⟨CursorInv.reserve n sz hn, rfl, Nat.zero_le n⟩

/-- A target that is out of reach closes the gate of a queue of one chunk, and a
reset empties it. -/
theorem neverStrands_one_chunk :
    Throughout step (NeverStrands 1) (reserve 1 4)
      [.setOptimPerc 50, .forceOptim (-1), .qFeedup false, .reset, .qConsume,
        .release (some (.slot 0)), .setOptimPerc 100] :=
  neverStrands_run 1 4 (by decide) _
    ⟨⟨by decide, by decide⟩, trivial, trivial, trivial, trivial, trivial,
      ⟨by decide, by decide⟩, trivial⟩

end Circle

end RoomSpeaker
