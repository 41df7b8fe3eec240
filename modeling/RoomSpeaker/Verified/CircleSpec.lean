import RoomSpeaker.Foundation.Ring
import RoomSpeaker.Model.Circle

/-!
# What each `Circle` method does

Every method is described once, in terms of the slots that are queued: the
window of the ring from the get cursor to the put cursor.

* `CursorInv` — the cursor congruence `_puti = (_geti + _elems) mod N` and the
  bounds every other queue property rests on.
* `qFeedup_cases`, `qConsume_cases` — the two outcomes of each call, with the
  state it leaves.
* `Drops` — the common effect of `remove_back`, `reset`, `force_optim` and
  `set_optim_perc`: some of the oldest slots leave the queue, and no chunk is
  written.
-/

namespace RoomSpeaker

open Foundation

namespace Circle

/-! ## Chunk memory -/

@[simp] theorem queue_setAt (c : Circle) (i : Nat) (k : Chunk) :
    (c.setAt i k).queue = c.queue.set i k := rfl

/-- Reading back the chunk just written. -/
theorem at_set_self (c : Circle) (i : Nat) (k : Chunk)
    (hi : i < c.queue.length) : (c.setAt i k).at' i = k := by
  simp [at', setAt, List.getD, hi]

/-- Writing one chunk leaves the others alone. -/
theorem at_set_ne (c : Circle) (i j : Nat) (k : Chunk) (h : j ≠ i) :
    (c.setAt i k).at' j = c.at' j := by
  simp [at', setAt, List.getD, List.getElem?_set_ne (Ne.symm h)]

/-- After a write, a chunk is the one written or the one it was. -/
theorem at_setAt_cases (c : Circle) (i j : Nat) (k : Chunk) :
    (j = i ∧ (c.setAt i k).at' j = k) ∨ (c.setAt i k).at' j = c.at' j := by
  by_cases hj : j = i
  · subst hj
    by_cases hlt : j < c.queue.length
    · exact Or.inl ⟨rfl, at_set_self c j k hlt⟩
    · apply Or.inr
      simp only [at', queue_setAt]
      rw [List.set_eq_of_length_le (by omega)]
  · exact Or.inr (at_set_ne c i j k hj)

/-- `at'` sees only the pool. -/
theorem at_congr {c c' : Circle} (h : c'.queue = c.queue) (i : Nat) :
    c'.at' i = c.at' i := by
  simp only [at', h]

theorem at_setLocked_self (c : Circle) (i : Nat) (b : Bool)
    (hi : i < c.queue.length) :
    (c.setLocked i b).at' i = { c.at' i with locked := b } :=
  at_set_self c i _ hi

theorem at_setLocked_ne (c : Circle) (i j : Nat) (b : Bool) (h : j ≠ i) :
    (c.setLocked i b).at' j = c.at' j :=
  at_set_ne c i j _ h

/-- A locked chunk and a free one are two chunks. -/
theorem ne_of_locked {c : Circle} {i j : Nat}
    (hlock : (c.at' i).locked = true) (hfree : (c.at' j).locked = false) :
    i ≠ j := by
  rintro rfl
  rw [hfree] at hlock
  cases hlock

/-- A lock flag is no content. -/
@[simp] theorem content_setLocked (c : Circle) (i j : Nat) (b : Bool) :
    ((c.setLocked i b).at' j).content = (c.at' j).content := by
  rcases at_setAt_cases c i j { c.at' i with locked := b } with
    ⟨hj, hnew⟩ | hold
  · have hcontent := congrArg Chunk.content hnew
    rw [hj] at hcontent ⊢
    exact hcontent
  · exact congrArg Chunk.content hold

/-- The chunks of a new queue. -/
theorem at_reserve {n j : Nat} (sz : Nat) (hj : j < n) :
    (Circle.reserve n sz).at' j = Chunk.new sz := by
  simp [reserve, at', List.getD, hj]

/-! ## The queued slots -/

/-- The slots `q_consume` will hand out, oldest first. -/
def queued (c : Circle) : List Nat := window c.maxqsz c.geti c.elems

@[simp] theorem length_queued (c : Circle) : c.queued.length = c.elems :=
  length_window _ _ _

/-- The cursor congruence, with the bounds on the cursors and the count.  The
count may pass the capacity by one: `q_feedup` tests `_elems <= _maxqsz`. -/
structure CursorInv (c : Circle) : Prop where
  pos : 0 < c.maxqsz
  pool : c.queue.length = c.maxqsz
  geti : c.geti < c.maxqsz
  puti : c.puti = (c.geti + c.elems) % c.maxqsz
  fits : c.elems ≤ c.maxqsz + 1

theorem CursorInv.puti_lt {c : Circle} (h : c.CursorInv) :
    c.puti < c.maxqsz := by
  rw [h.puti]
  exact Nat.mod_lt _ h.pos

theorem CursorInv.reserve (n sz : Nat) (hn : 0 < n) :
    (Circle.reserve n sz).CursorInv where
  pos := hn
  pool := by simp [Circle.reserve]
  geti := hn
  puti := by simp [Circle.reserve]
  fits := by simp [Circle.reserve]

/-- Writing a chunk moves no cursor. -/
theorem CursorInv.setAt {c : Circle} (h : c.CursorInv) (i : Nat) (k : Chunk) :
    (c.setAt i k).CursorInv where
  pos := h.pos
  pool := by simp [Circle.setAt, h.pool]
  geti := h.geti
  puti := h.puti
  fits := h.fits

theorem locked_setLocked_self {c : Circle} (h : c.CursorInv) {i : Nat}
    (hi : i < c.maxqsz) (b : Bool) : ((c.setLocked i b).at' i).locked = b := by
  rw [at_setLocked_self c i b (h.pool ▸ hi)]

/-! ## Feeding and consuming -/

/-- The queue after a `q_feedup` that reserved a slot. -/
def fed (c : Circle) : Circle :=
  { c.setLocked c.puti true with
      puti := c.inc c.puti
      elems := c.elems + 1
      blockGet := c.blockGet && decide (c.elems + 1 < c.optim) }

/-- The queue after a `q_consume` that handed out a slot. -/
def served (c : Circle) : Circle :=
  { c.setLocked c.geti true with
      geti := c.inc c.geti
      elems := c.elems - 1 }

/-- The queue after a `q_consume` that returned null. -/
def refused (c : Circle) : Circle :=
  { c with blockGet := c.blockGet && decide (c.elems < c.optim) }

/-- `q_feedup` either reserves the slot under the put cursor or changes
nothing. -/
theorem qFeedup_scrap_cases (c : Circle) (scrap : Bool) :
    (c.elems ≤ c.maxqsz ∧ (c.at' c.puti).locked = false ∧
      c.qFeedup scrap = (c.fed, some (.slot c.puti))) ∨
    (¬(c.elems ≤ c.maxqsz ∧ (c.at' c.puti).locked = false) ∧
      c.qFeedup scrap = (c, if scrap then some .scrap else none)) := by
  by_cases h : c.elems ≤ c.maxqsz ∧ (c.at' c.puti).locked = false
  · exact Or.inl ⟨h.1, h.2, by rw [qFeedup, if_pos h]; rfl⟩
  · exact Or.inr ⟨h, by rw [qFeedup, if_neg h]⟩

/-- `q_feedup(false)` either reserves the slot under the put cursor or returns
null and changes nothing. -/
theorem qFeedup_cases (c : Circle) :
    (c.elems ≤ c.maxqsz ∧ (c.at' c.puti).locked = false ∧
      c.qFeedup false = (c.fed, some (.slot c.puti))) ∨
    (¬(c.elems ≤ c.maxqsz ∧ (c.at' c.puti).locked = false) ∧
      c.qFeedup false = (c, none)) :=
  c.qFeedup_scrap_cases false

/-- `q_consume` either hands out the slot under the get cursor or returns null,
in which case only `_block_get` may have changed. -/
theorem qConsume_cases (c : Circle) :
    (c.elems ≠ 0 ∧ c.blockGet = false ∧ (c.at' c.geti).locked = false ∧
      c.qConsume = (c.served, some (.slot c.geti))) ∨
    (¬(c.elems ≠ 0 ∧ c.blockGet = false ∧ (c.at' c.geti).locked = false) ∧
      c.qConsume = (c.refused, none)) := by
  by_cases h : c.elems ≠ 0 ∧ c.blockGet = false ∧
      (c.at' c.geti).locked = false
  · exact Or.inl ⟨h.1, h.2.1, h.2.2, by rw [qConsume, if_pos h]; rfl⟩
  · exact Or.inr ⟨h, by rw [qConsume, if_neg h]; rfl⟩

theorem CursorInv.fed {c : Circle} (h : c.CursorInv)
    (hroom : c.elems ≤ c.maxqsz) : c.fed.CursorInv where
  pos := h.pos
  pool := by simp [Circle.fed, setLocked, Circle.setAt, h.pool]
  geti := h.geti
  puti := by
    show (c.puti + 1) % c.maxqsz = (c.geti + (c.elems + 1)) % c.maxqsz
    rw [h.puti, Nat.mod_add_mod, Nat.add_assoc]
  fits := Nat.succ_le_succ hroom

theorem CursorInv.served {c : Circle} (h : c.CursorInv)
    (hne : c.elems ≠ 0) : c.served.CursorInv where
  pos := h.pos
  pool := by simp [Circle.served, setLocked, Circle.setAt, h.pool]
  geti := Nat.mod_lt _ h.pos
  puti := by
    show c.puti = ((c.geti + 1) % c.maxqsz + (c.elems - 1)) % c.maxqsz
    rw [h.puti, Nat.mod_add_mod]
    congr 1
    omega
  fits := Nat.le_trans (Nat.sub_le _ _) h.fits

/-- A fed slot is queued last. -/
theorem queued_fed {c : Circle} (h : c.CursorInv) :
    c.fed.queued = c.queued ++ [c.puti] := by
  show window c.maxqsz c.geti (c.elems + 1) = _
  rw [window_succ_last, ← h.puti]
  rfl

/-- The slot handed out is the one queued first. -/
theorem queued_served {c : Circle} (h : c.CursorInv) (hne : c.elems ≠ 0) :
    c.queued = c.geti :: c.served.queued := by
  show window c.maxqsz c.geti c.elems =
    c.geti :: window c.maxqsz ((c.geti + 1) % c.maxqsz) (c.elems - 1)
  obtain ⟨e, he⟩ := Nat.exists_eq_succ_of_ne_zero hne
  rw [he, window_mod, window_succ, Nat.mod_eq_of_lt h.geti,
    Nat.succ_sub_one]

/-- Below capacity the slot under the put cursor is not queued. -/
theorem puti_notMem_queued {c : Circle} (h : c.CursorInv)
    (hroom : c.elems < c.maxqsz) : c.puti ∉ c.queued := by
  rw [h.puti]
  exact next_notMem_window hroom

/-! ## Dropping from the old end -/

/-- The queue with its `k` oldest slots taken out. -/
def dropFront (c : Circle) (k : Nat) : Circle :=
  { c with geti := (c.geti + k) % c.maxqsz, elems := c.elems - k }

private theorem dropOne_dropFront (c : Circle) (k : Nat) :
    (c.dropOne).dropFront k = c.dropFront (k + 1) := by
  simp only [dropOne, dropFront, inc, Nat.mod_add_mod, Circle.mk.injEq,
    true_and, and_true]
  exact ⟨by congr 1; omega, by omega⟩

theorem dropFront_zero {c : Circle} (hg : c.geti < c.maxqsz) :
    c.dropFront 0 = c := by
  simp only [dropFront, Nat.add_zero, Nat.mod_eq_of_lt hg, Nat.sub_zero]

private theorem trimLoop_eq (k : Nat) :
    ∀ c : Circle, c.geti < c.maxqsz → c.elems - c.optim ≤ k →
      trimLoop k c = c.dropFront (c.elems - c.optim) := by
  induction k with
  | zero =>
      intro c hg hk
      rw [Nat.le_zero.mp hk, dropFront_zero hg]
      rfl
  | succ k ih =>
      intro c hg hk
      by_cases hgt : c.elems > c.optim
      · have hpos : 0 < c.maxqsz := Nat.lt_of_le_of_lt (Nat.zero_le _) hg
        have hloop := ih c.dropOne (Nat.mod_lt _ hpos)
          (show c.elems - 1 - c.optim ≤ k by omega)
        rw [trimLoop, if_pos hgt, hloop, dropOne_dropFront]
        congr 1
        show c.elems - 1 - c.optim + 1 = c.elems - c.optim
        omega
      · rw [trimLoop, if_neg hgt, show c.elems - c.optim = 0 by omega,
          dropFront_zero hg]

/-- The number of iterations of `remove_back`: a negative argument never
reaches zero, so it empties the queue. -/
def removeCount (els : Int) (elems : Nat) : Nat :=
  if els < 0 then elems else min els.toNat elems

private theorem removeBackLoop_eq (k : Nat) :
    ∀ (c : Circle) (els : Int), c.geti < c.maxqsz → c.elems ≤ k →
      removeBackLoop k els c = c.dropFront (removeCount els c.elems) := by
  induction k with
  | zero =>
      intro c els hg hk
      have hzero : removeCount els c.elems = 0 := by
        unfold removeCount
        split <;> omega
      rw [hzero, dropFront_zero hg]
      rfl
  | succ k ih =>
      intro c els hg hk
      by_cases hgo : els ≠ 0 ∧ c.elems ≠ 0
      · have hpos : 0 < c.maxqsz := Nat.lt_of_le_of_lt (Nat.zero_le _) hg
        have hloop := ih c.dropOne (els - 1) (Nat.mod_lt _ hpos)
          (show c.elems - 1 ≤ k by omega)
        rw [removeBackLoop, if_pos hgo, hloop, dropOne_dropFront]
        congr 1
        show removeCount (els - 1) (c.elems - 1) + 1 =
          removeCount els c.elems
        unfold removeCount
        split <;> split <;> omega
      · have hzero : removeCount els c.elems = 0 := by
          unfold removeCount
          split <;> omega
        rw [removeBackLoop, if_neg hgo, hzero, dropFront_zero hg]

theorem removeBack_eq (c : Circle) (els : Int) (hg : c.geti < c.maxqsz) :
    c.removeBack els = c.dropFront (removeCount els c.elems) :=
  removeBackLoop_eq c.elems c els hg (Nat.le_refl _)

/-- What `force_optim` does: nothing when the clamped target is the current
optimum; otherwise the target becomes the optimum, and either the oldest slots
above it are dropped or consumers are held back. -/
theorem forceOptim_eq (c : Circle) (n : Int) (hg : c.geti < c.maxqsz) :
    c.forceOptim n =
      if c.optim = c.clampOptim n then c
      else if c.clampOptim n < c.elems then
        { c with optim := c.clampOptim n }.dropFront
          (c.elems - c.clampOptim n)
      else { c with optim := c.clampOptim n, blockGet := true } := by
  unfold forceOptim
  by_cases hsame : c.optim = c.clampOptim n
  · simp [hsame]
  · by_cases hlt : c.clampOptim n < c.elems
    · simp only [ne_eq, hsame, not_false_eq_true, if_true, gt_iff_lt, hlt,
        if_false]
      exact trimLoop_eq c.elems { c with optim := c.clampOptim n } hg
        (Nat.sub_le _ _)
    · simp only [ne_eq, hsame, not_false_eq_true, if_true, gt_iff_lt, hlt,
        if_false]

/-- Dropping writes no chunk. -/
theorem forceOptim_queue (c : Circle) (n : Int) :
    (c.forceOptim n).queue = c.queue := by
  have htrim : ∀ (k : Nat) (c : Circle), (trimLoop k c).queue = c.queue := by
    intro k
    induction k with
    | zero => intro c; rfl
    | succ k ih =>
        intro c
        unfold trimLoop
        split
        · exact ih c.dropOne
        · rfl
  unfold forceOptim
  simp only
  split
  · split
    · exact htrim _ _
    · rfl
  · rfl

/-- After `force_optim` the optimum is the clamped target. -/
theorem forceOptim_optim (c : Circle) (n : Int) (hg : c.geti < c.maxqsz) :
    (c.forceOptim n).optim = c.clampOptim n := by
  rw [forceOptim_eq c n hg]
  by_cases hsame : c.optim = c.clampOptim n
  · rw [if_pos hsame]
    exact hsame
  · rw [if_neg hsame]
    split <;> rfl

/-- The count is cut down to a new target below it. -/
theorem forceOptim_elems (c : Circle) (n : Int) (hg : c.geti < c.maxqsz) :
    (c.forceOptim n).elems =
      if c.optim ≠ c.clampOptim n ∧ c.clampOptim n < c.elems then
        c.clampOptim n
      else c.elems := by
  rw [forceOptim_eq c n hg]
  by_cases hsame : c.optim = c.clampOptim n
  · simp [hsame]
  · by_cases hlt : c.clampOptim n < c.elems
    · simp only [hsame, hlt, if_false, if_true, ne_eq, not_false_eq_true,
        and_self, dropFront]
      omega
    · simp [hsame, hlt]

/-- A new target that is not below the count closes the gate. -/
theorem forceOptim_blockGet (c : Circle) (n : Int) (hg : c.geti < c.maxqsz) :
    (c.forceOptim n).blockGet =
      if c.optim ≠ c.clampOptim n ∧ c.elems ≤ c.clampOptim n then true
      else c.blockGet := by
  rw [forceOptim_eq c n hg]
  by_cases hsame : c.optim = c.clampOptim n
  · simp [hsame]
  · by_cases hlt : c.clampOptim n < c.elems
    · simp only [hsame, hlt, if_false, if_true, ne_eq, not_false_eq_true,
        true_and, dropFront]
      rw [if_neg (by omega)]
    · simp only [hsame, hlt, if_false, ne_eq, not_false_eq_true, true_and]
      rw [if_pos (by omega)]

/-- `c'` is `c` with some of its oldest slots gone from the queue and every
chunk as it was. -/
structure Drops (c c' : Circle) : Prop where
  cells : c'.queue = c.queue
  spare : c'.scrap = c.scrap
  cap : c'.maxqsz = c.maxqsz
  le : c'.elems ≤ c.elems
  rest : c'.queued = c.queued.drop (c.elems - c'.elems)
  inv : c'.CursorInv

theorem drops_dropFront {c : Circle} (h : c.CursorInv) (k : Nat)
    (hk : k ≤ c.elems) : c.Drops (c.dropFront k) where
  cells := rfl
  spare := rfl
  cap := rfl
  le := Nat.sub_le _ _
  rest := by
    show window c.maxqsz ((c.geti + k) % c.maxqsz) (c.elems - k) =
      c.queued.drop (c.elems - (c.elems - k))
    rw [window_mod, queued, window_drop]
    congr 1 <;> omega
  inv :=
    { pos := h.pos
      pool := h.pool
      geti := Nat.mod_lt _ h.pos
      puti := by
        show c.puti = ((c.geti + k) % c.maxqsz + (c.elems - k)) % c.maxqsz
        rw [h.puti, Nat.mod_add_mod]
        congr 1
        omega
      fits := Nat.le_trans (Nat.sub_le _ _) h.fits }

/-- Changing the optimum or the gate drops nothing. -/
theorem drops_gate {c : Circle} (h : c.CursorInv) (o : Nat) (b : Bool) :
    c.Drops { c with optim := o, blockGet := b } where
  cells := rfl
  spare := rfl
  cap := rfl
  le := Nat.le_refl _
  rest := by
    rw [Nat.sub_self, List.drop_zero]
    rfl
  inv := ⟨h.pos, h.pool, h.geti, h.puti, h.fits⟩

theorem drops_removeBack {c : Circle} (h : c.CursorInv) (els : Int) :
    c.Drops (c.removeBack els) := by
  rw [removeBack_eq c els h.geti]
  apply drops_dropFront h
  unfold removeCount
  split <;> omega

theorem drops_reset {c : Circle} (h : c.CursorInv) : c.Drops c.reset where
  cells := rfl
  spare := rfl
  cap := rfl
  le := Nat.zero_le _
  rest := by
    rw [List.drop_eq_nil_of_le (by simp [reset])]
    rfl
  inv := ⟨h.pos, h.pool, h.pos, by simp [reset], Nat.zero_le _⟩

theorem drops_setOptimPerc {c : Circle} (h : c.CursorInv) (p : Int) :
    c.Drops (c.setOptimPerc p) :=
  drops_gate h _ c.blockGet

theorem drops_forceOptim {c : Circle} (h : c.CursorInv) (n : Int) :
    c.Drops (c.forceOptim n) := by
  rw [forceOptim_eq c n h.geti]
  split
  · exact drops_gate h c.optim c.blockGet
  · split
    · have hgate := drops_gate h (c.clampOptim n) c.blockGet
      have hdrop := drops_dropFront hgate.inv (c.elems - c.clampOptim n)
        (Nat.sub_le _ _)
      exact ⟨hdrop.cells, hdrop.spare, hdrop.cap, hdrop.le, hdrop.rest,
        hdrop.inv⟩
    · exact drops_gate h _ true

/-- A null `q_consume` drops nothing. -/
theorem drops_refused {c : Circle} (h : c.CursorInv) : c.Drops c.refused :=
  drops_gate h c.optim _

end Circle

end RoomSpeaker
