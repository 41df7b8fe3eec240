import RoomSpeaker.Foundation.Run
import RoomSpeaker.Verified.CircleSpec

/-!
# Holding consumers back (`_block_get`)

`force_optim` may close the gate `_block_get`; `q_feedup` and `q_consume` open it
again once the count has reached the optimum.  This module says for how many
further chunks a queue holds its consumer back, over every interleaving of
feeding, releasing and consuming.

## Main results

* `waitInv_run` — what such a run leaves of the queue as long as nothing is
  handed out.
* `heldFor_iff` — the queue holds its consumer back for exactly `k` further
  chunks iff the gate is closed and the optimum is `k` above the count, or, for
  `k = 0`, the gate is open or the optimum is reached.
-/

namespace RoomSpeaker

open Foundation

/-- A call on the queue while no resync happens: a chunk is fed and filled, a
chunk is released, or the consumer asks for one. -/
inductive GateOp where
  | feed (x : Content)
  | release (i : Nat)
  | consume

namespace Circle

def gateStep (c : Circle) : GateOp → Circle
  | .feed x =>
      match c.qFeedup false with
      | (c, some (.slot i)) => c.setAt i ((c.at' i).fill x)
      | (c, _) => c
  | .release i => c.release (some (.slot i))
  | .consume => c.qConsume.1

/-- One mark for each chunk that is fed. -/
def feeds (c : Circle) : GateOp → List Unit
  | .feed _ => if (c.qFeedup false).2 = none then [] else [()]
  | _ => []

/-- How many chunks a run feeds. -/
def fedIn (c : Circle) (ops : List GateOp) : Nat :=
  (trace gateStep feeds c ops).length

/-- No call of `q_consume` in the run returns a chunk. -/
def Quiet (c : Circle) (ops : List GateOp) : Prop :=
  Along gateStep (fun c op => op = .consume → c.qConsume.2 = none) c ops

/-- `q_consume` returns the chunk numbered `q`, at its second call at the
latest: the first may only open the gate. -/
def ServesSoon (c : Circle) (q : BitVec 32) : Prop :=
  ∃ i, (c.at' i).hdr.curSeq = q ∧
    (c.qConsume.2 = some (.slot i) ∨
      (c.qConsume.2 = none ∧ c.qConsume.1.qConsume.2 = some (.slot i)))

/-- Consumers get nothing until `k` further chunks are fed, and then the chunk
numbered `q`. -/
structure HeldFor (c : Circle) (k : Nat) (q : BitVec 32) : Prop where
  waits : ∀ ops, c.fedIn ops < k → c.Quiet ops
  serves : ∀ ops, c.Quiet ops → c.fedIn ops = k →
    (run gateStep c ops).ServesSoon q

/-! ## One call -/

/-- What a run in which nothing is handed out leaves of the queue `c`: `f`
chunks more, and the gate open only if it was or the optimum is reached. -/
structure WaitInv (c : Circle) (f : Nat) (d : Circle) : Prop where
  cursors : d.CursorInv
  cap : d.maxqsz = c.maxqsz
  optim : d.optim = c.optim
  geti : d.geti = c.geti
  elems : d.elems = c.elems + f
  front : (d.at' c.geti).hdr = (c.at' c.geti).hdr
  free : (d.at' c.geti).locked = false
  closed : d.blockGet = true → c.blockGet = true
  opened : d.blockGet = false → c.blockGet = false ∨ c.optim ≤ c.elems + f

theorem WaitInv.refl {c : Circle} (h : c.CursorInv)
    (hfree : (c.at' c.geti).locked = false) : WaitInv c 0 c :=
  ⟨h, rfl, rfl, rfl, rfl, rfl, hfree, id, Or.inl⟩

/-- With room left, feeding does not touch the oldest chunk. -/
private theorem puti_ne_geti {d : Circle} (h : d.CursorInv)
    (hne : d.elems ≠ 0) (hroom : d.elems < d.maxqsz) : d.geti ≠ d.puti := by
  intro heq
  apply puti_notMem_queued h hroom
  rw [queued_served h hne, ← heq]
  exact List.mem_cons_self

private theorem WaitInv.feed {c d : Circle} {f : Nat} (h : WaitInv c f d)
    (hne : c.elems ≠ 0) (hroom : c.elems + f < c.maxqsz) (x : Content)
    (hfed : d.qFeedup false = (d.fed, some (.slot d.puti))) :
    WaitInv c (f + 1) (d.gateStep (.feed x)) := by
  have hstep : d.gateStep (.feed x) =
      d.fed.setAt d.puti ((d.fed.at' d.puti).fill x) := by
    simp only [gateStep, hfed]
  have helems := h.elems
  have hcap := h.cap
  have hdist : c.geti ≠ d.puti := by
    rw [← h.geti]
    exact puti_ne_geti h.cursors (by omega) (by omega)
  have hfront : (d.gateStep (.feed x)).at' c.geti = d.at' c.geti := by
    rw [hstep, at_set_ne _ _ _ _ hdist]
    exact at_setLocked_ne d d.puti c.geti true hdist
  constructor
  · rw [hstep]
    exact (h.cursors.fed (by omega)).setAt _ _
  · rw [hstep]
    exact h.cap
  · rw [hstep]
    exact h.optim
  · rw [hstep]
    exact h.geti
  · rw [hstep]
    show d.elems + 1 = c.elems + (f + 1)
    omega
  · rw [hfront]
    exact h.front
  · rw [hfront]
    exact h.free
  · rw [hstep]
    intro hb
    have hb' : (d.blockGet && decide (d.elems + 1 < d.optim)) = true := hb
    rw [Bool.and_eq_true] at hb'
    exact h.closed hb'.1
  · rw [hstep]
    intro hb
    have hb' : (d.blockGet && decide (d.elems + 1 < d.optim)) = false := hb
    rw [Bool.and_eq_false_iff] at hb'
    rcases hb' with hd | hlt
    · rcases h.opened hd with hc | hle
      · exact Or.inl hc
      · exact Or.inr (by omega)
    · have hoptim := h.optim
      have hnot := of_decide_eq_false hlt
      exact Or.inr (by omega)

private theorem WaitInv.release {c d : Circle} {f : Nat} (h : WaitInv c f d)
    (i : Nat) : WaitInv c f (d.gateStep (.release i)) := by
  have hhdr := congrArg Prod.fst (content_setLocked d i c.geti false)
  have hfree : ((d.setLocked i false).at' c.geti).locked = false := by
    by_cases hi : c.geti = i
    · subst hi
      have hlt : c.geti < d.queue.length := by
        rw [h.cursors.pool, ← h.geti]
        exact h.cursors.geti
      rw [at_setLocked_self d c.geti false hlt]
    · rw [at_setLocked_ne d i c.geti false hi]
      exact h.free
  exact ⟨h.cursors.setAt i _, h.cap, h.optim, h.geti, h.elems,
    hhdr.trans h.front, hfree, h.closed, h.opened⟩

private theorem WaitInv.refused {c d : Circle} {f : Nat} (h : WaitInv c f d) :
    WaitInv c f d.refused := by
  have hcursors := (drops_refused h.cursors).inv
  refine ⟨hcursors, h.cap, h.optim, h.geti, h.elems, h.front, h.free, ?_, ?_⟩
  · intro hb
    have hb' : (d.blockGet && decide (d.elems < d.optim)) = true := hb
    rw [Bool.and_eq_true] at hb'
    exact h.closed hb'.1
  · intro hb
    have hb' : (d.blockGet && decide (d.elems < d.optim)) = false := hb
    rw [Bool.and_eq_false_iff] at hb'
    rcases hb' with hd | hlt
    · exact h.opened hd
    · have helems := h.elems
      have hoptim := h.optim
      have hnot := of_decide_eq_false hlt
      exact Or.inr (by omega)

/-- With the oldest chunk free, `q_consume` hands it out when the gate is open
and opens the gate when the optimum is reached. -/
theorem WaitInv.consume {c d : Circle} {f : Nat} (h : WaitInv c f d)
    (hne : c.elems ≠ 0) :
    (d.blockGet = false ∧ d.qConsume.2 = some (.slot c.geti)) ∨
    (d.blockGet = true ∧ d.qConsume = (d.refused, none)) := by
  have helems := h.elems
  have hgeti := h.geti
  have hfree := h.free
  rcases qConsume_cases d with ⟨_, hb, _, hq⟩ | ⟨hno, hq⟩
  · rw [hq, hgeti]
    exact Or.inl ⟨hb, rfl⟩
  · apply Or.inr
    refine ⟨?_, hq⟩
    by_contra hb
    apply hno
    rw [hgeti]
    exact ⟨by omega, by simpa using hb, hfree⟩

/-- `q_consume` serves the oldest chunk, at its second call at the latest, when
the gate is open or the optimum is reached. -/
theorem WaitInv.servesSoon_iff {c d : Circle} {f : Nat} (h : WaitInv c f d)
    (hne : c.elems ≠ 0) {q : BitVec 32} (hq : (c.at' c.geti).hdr.curSeq = q) :
    d.ServesSoon q ↔ d.blockGet = false ∨ c.optim ≤ c.elems + f := by
  have helems := h.elems
  have hoptim := h.optim
  have hseq : (d.at' c.geti).hdr.curSeq = q := by rw [h.front, hq]
  rcases h.consume hne with ⟨hopen, hserve⟩ | ⟨hclosed, hrefuse⟩
  · constructor
    · intro _
      exact Or.inl hopen
    · intro _
      exact ⟨c.geti, hseq, Or.inl hserve⟩
  · have hgate : d.refused.blockGet = decide (d.elems < d.optim) := by
      simp [Circle.refused, hclosed]
    rcases h.refused.consume hne with ⟨hopen, hserve⟩ | ⟨hshut, hrefuse'⟩
    · rw [hgate] at hopen
      have hnot := of_decide_eq_false hopen
      constructor
      · intro _
        exact Or.inr (by omega)
      · intro _
        refine ⟨c.geti, hseq, Or.inr ⟨by rw [hrefuse], ?_⟩⟩
        rw [hrefuse]
        exact hserve
    · rw [hgate] at hshut
      have hlt := of_decide_eq_true hshut
      constructor
      · rintro ⟨i, _, hsome | ⟨_, hsome⟩⟩
        · rw [hrefuse] at hsome
          cases hsome
        · rw [hrefuse] at hsome
          rw [show (d.refused, (none : Option ChunkRef)).1 = d.refused from rfl,
            hrefuse'] at hsome
          cases hsome
      · rintro (hopen | hle)
        · rw [hclosed] at hopen
          cases hopen
        · omega

/-! ## Runs -/

section

variable {c : Circle} {k : Nat} (hne : c.elems ≠ 0)
  (hroom : c.elems + k ≤ c.maxqsz)

theorem fedIn_cons (d : Circle) (op : GateOp) (ops : List GateOp) :
    d.fedIn (op :: ops) = (d.feeds op).length + (d.gateStep op).fedIn ops := by
  simp [fedIn, trace]

include hne hroom in
private theorem WaitInv.step {d : Circle} {f : Nat} (h : WaitInv c f d)
    (op : GateOp) (hquiet : op = .consume → d.qConsume.2 = none)
    (hf : f + (d.feeds op).length ≤ k) :
    WaitInv c (f + (d.feeds op).length) (d.gateStep op) := by
  cases op with
  | feed x =>
      rcases qFeedup_cases d with ⟨_, _, hfed⟩ | ⟨_, hnull⟩
      · have hone : (d.feeds (.feed x)).length = 1 := by
          simp [feeds, hfed]
        rw [hone] at hf ⊢
        exact h.feed hne (by omega) x hfed
      · have hzero : (d.feeds (.feed x)).length = 0 := by
          simp [feeds, hnull]
        have hsame : d.gateStep (.feed x) = d := by
          simp [gateStep, hnull]
        rw [hzero, hsame]
        exact h
  | release i => exact h.release i
  | consume =>
      rcases h.consume hne with ⟨_, hserve⟩ | ⟨_, hrefuse⟩
      · rw [hquiet rfl] at hserve
        cases hserve
      · show WaitInv c f d.qConsume.1
        rw [hrefuse]
        exact h.refused

include hne hroom in
/-- What a run in which nothing is handed out leaves of the queue. -/
theorem waitInv_run (ops : List GateOp) :
    ∀ (f : Nat) (d : Circle), WaitInv c f d → d.Quiet ops →
      f + d.fedIn ops ≤ k →
      WaitInv c (f + d.fedIn ops) (run gateStep d ops) := by
  induction ops with
  | nil => intro f d h _ _; exact h
  | cons op ops ih =>
      intro f d h hquiet hf
      rw [fedIn_cons] at hf ⊢
      have hstep := h.step hne hroom op hquiet.1 (by omega)
      rw [← Nat.add_assoc]
      exact ih _ _ hstep hquiet.2 (by omega)

include hne hroom in
/-- A closed gate stays closed until the optimum is reached. -/
private theorem quiet_of_closed (hclosed : c.blockGet = true)
    (hoptim : c.optim = c.elems + k) (ops : List GateOp) :
    ∀ (f : Nat) (d : Circle), WaitInv c f d → f + d.fedIn ops < k →
      d.Quiet ops := by
  induction ops with
  | nil => intro f d _ _; trivial
  | cons op ops ih =>
      intro f d h hf
      rw [fedIn_cons] at hf
      have hquiet : op = .consume → d.qConsume.2 = none := by
        intro _
        rcases h.consume hne with ⟨hopen, _⟩ | ⟨_, hrefuse⟩
        · rcases h.opened hopen with hc | hle
          · rw [hclosed] at hc
            cases hc
          · omega
        · rw [hrefuse]
      have hstep := h.step hne hroom op hquiet (by omega)
      exact ⟨hquiet, ih _ _ hstep (by omega)⟩

end

/-- The gate after one feed, and after `t` more, is the gate after `t + 1`. -/
private theorem gate_feeds (b : Bool) (n o t : Nat) :
    (b && decide (n + 1 < o) && (decide (t = 0) || decide (n + 1 + t < o))) =
      (b && (decide (t + 1 = 0) || decide (n + (t + 1) < o))) := by
  cases b with
  | false => rfl
  | true =>
      simp only [Bool.true_and]
      by_cases hlt : n + (t + 1) < o
      · simp [hlt, show n + 1 < o by omega, show n + 1 + t < o by omega]
      · by_cases ht : t = 0
        · subst ht
          simp [hlt]
        · simp [hlt, ht, show ¬n + 1 + t < o by omega]

/-- While there is room, chunks can be fed without anything being handed
out. -/
private theorem exists_feeds (t : Nat) :
    ∀ d : Circle, d.CursorInv → d.elems + t ≤ d.maxqsz →
      ∃ ops, d.Quiet ops ∧ d.fedIn ops = t ∧
        (run gateStep d ops).blockGet =
          (d.blockGet && (decide (t = 0) || decide (d.elems + t < d.optim))) := by
  induction t with
  | zero =>
      intro d _ _
      exact ⟨[], trivial, rfl, by simp⟩
  | succ t ih =>
      intro d h hroom
      have hfree : ((d.setLocked d.puti false).at' d.puti).locked = false :=
        locked_setLocked_self h h.puti_lt false
      let e := d.setLocked d.puti false
      have hcur : e.CursorInv := h.setAt _ _
      rcases qFeedup_cases e with ⟨_, _, hfed⟩ | ⟨hno, _⟩
      · have hstep : e.gateStep (.feed default) =
            e.fed.setAt e.puti ((e.fed.at' e.puti).fill default) := by
          simp only [gateStep, hfed]
        have hnext : (e.gateStep (.feed default)).CursorInv := by
          rw [hstep]
          exact (hcur.fed (show d.elems ≤ d.maxqsz by omega)).setAt _ _
        obtain ⟨ops, hquiet, hcount, hgate⟩ := ih (e.gateStep (.feed default))
          hnext (by rw [hstep]; show d.elems + 1 + t ≤ d.maxqsz; omega)
        refine ⟨.release d.puti :: .feed default :: ops, ?_, ?_, ?_⟩
        · refine ⟨?_, ?_, hquiet⟩
          · intro hc
            cases hc
          · intro hc
            cases hc
        · rw [fedIn_cons, fedIn_cons]
          show 0 + ((e.feeds (.feed default)).length +
            (e.gateStep (.feed default)).fedIn ops) = t + 1
          rw [hcount]
          have hone : (e.feeds (.feed default)).length = 1 := by
            simp [feeds, hfed]
          omega
        · show (run gateStep (e.gateStep (.feed default)) ops).blockGet = _
          rw [hgate, hstep]
          exact gate_feeds d.blockGet d.elems d.optim t
      · exact absurd ⟨show d.elems ≤ d.maxqsz by omega, hfree⟩ hno

/-! ## For how long -/

section

variable {c : Circle} (h : c.CursorInv) (hne : c.elems ≠ 0)
  (hfree : (c.at' c.geti).locked = false)

include h hne hfree

/-- With `t` chunks fed, the next `q_consume` calls serve the oldest chunk
exactly when the gate is open by then. -/
private theorem exists_served {t : Nat} (hroom : c.elems + t ≤ c.maxqsz)
    {q : BitVec 32} (hq : (c.at' c.geti).hdr.curSeq = q) :
    ∃ ops, c.Quiet ops ∧ c.fedIn ops = t ∧
      ((run gateStep c ops).ServesSoon q ↔
        (c.blockGet && (decide (t = 0) || decide (c.elems + t < c.optim))) =
          false ∨ c.optim ≤ c.elems + t) := by
  obtain ⟨ops, hquiet, hcount, hgate⟩ := exists_feeds t c h hroom
  have hinv := waitInv_run hne hroom ops 0 c (WaitInv.refl h hfree) hquiet
    (by omega)
  rw [Nat.zero_add, hcount] at hinv
  have hsoon := hinv.servesSoon_iff hne hq
  rw [hgate] at hsoon
  exact ⟨ops, hquiet, hcount, hsoon⟩

/-- A queue that holds its consumer back for `k` further chunks is not ready
after fewer: asking twice must not be enough. -/
private theorem HeldFor.not_ready {k : Nat} {q : BitVec 32}
    (hheld : c.HeldFor k q) (hroom : c.elems + k ≤ c.maxqsz)
    (hq : (c.at' c.geti).hdr.curSeq = q) {t : Nat} (ht : t < k) :
    ¬(c.blockGet = false ∨ c.optim ≤ c.elems + t) := by
  intro hready
  obtain ⟨ops, _, hcount, hiff⟩ := exists_served h hne hfree
    (show c.elems + t ≤ c.maxqsz by omega) hq
  have hsoon : (run gateStep c ops).ServesSoon q := by
    apply hiff.mpr
    rcases hready with hb | hle
    · rw [hb]
      exact Or.inl rfl
    · exact Or.inr hle
  have htwice := hheld.waits (ops ++ [.consume, .consume]) (by
    rw [fedIn, trace_append, List.length_append]
    show c.fedIn ops + 0 < k
    omega)
  rw [Quiet, along_append] at htwice
  obtain ⟨i, _, hsome | ⟨_, hsome⟩⟩ := hsoon
  · rw [htwice.2.1 rfl] at hsome
    cases hsome
  · have hnone := htwice.2.2.1 rfl
    change (run gateStep c ops).qConsume.1.qConsume.2 = none at hnone
    rw [hnone] at hsome
    cases hsome

/-- The gate of a queue that holds its consumer back for `k` further chunks. -/
private theorem HeldFor.gate {k : Nat} {q : BitVec 32} (hheld : c.HeldFor k q)
    (hroom : c.elems + k ≤ c.maxqsz) (hq : (c.at' c.geti).hdr.curSeq = q)
    (hk : k ≠ 0) : c.blockGet = true ∧ c.optim = c.elems + k := by
  have hlow : ∀ t < k, ¬(c.blockGet = false ∨ c.optim ≤ c.elems + t) :=
    fun t ht => hheld.not_ready h hne hfree hroom hq ht
  have hclosed : c.blockGet = true := by
    have hnot := hlow 0 (by omega)
    simpa using fun hb => hnot (Or.inl hb)
  refine ⟨hclosed, ?_⟩
  have hge : c.elems + k ≤ c.optim := by
    by_contra hlt
    exact hlow (k - 1) (by omega) (Or.inr (by omega))
  by_contra hneq
  obtain ⟨ops, hquiet, hcount, hiff⟩ := exists_served h hne hfree hroom hq
  rcases hiff.mp (hheld.serves ops hquiet hcount) with hopen | hle
  · rw [hclosed] at hopen
    simp [show c.elems + k < c.optim by omega] at hopen
  · omega

/-- The queue holds its consumer back for exactly `k` further chunks iff the
gate is closed and the optimum is `k` above the count, or, for `k = 0`, the gate
is open or the optimum is reached. -/
theorem heldFor_iff {k : Nat} (hroom : c.elems + k ≤ c.maxqsz) {q : BitVec 32}
    (hq : (c.at' c.geti).hdr.curSeq = q) :
    c.HeldFor k q ↔
      if k = 0 then c.blockGet = false ∨ c.optim ≤ c.elems
      else c.blockGet = true ∧ c.optim = c.elems + k := by
  have hrefl := WaitInv.refl h hfree
  constructor
  · intro hheld
    by_cases hk : k = 0
    · subst hk
      rw [if_pos rfl]
      have hsoon := hheld.serves [] trivial rfl
      exact (hrefl.servesSoon_iff hne hq).mp hsoon
    · rw [if_neg hk]
      exact hheld.gate h hne hfree hroom hq hk
  · intro hgate
    constructor
    · intro ops hf
      rw [if_neg (by omega)] at hgate
      exact quiet_of_closed hne hroom hgate.1 hgate.2 ops 0 c hrefl (by omega)
    · intro ops hquiet hcount
      have hinv := waitInv_run hne hroom ops 0 c hrefl hquiet (by omega)
      rw [Nat.zero_add, hcount] at hinv
      rw [hinv.servesSoon_iff hne hq]
      by_cases hk : k = 0
      · subst hk
        rw [if_pos rfl] at hgate
        rcases hgate with hb | hle
        · by_cases hd : (run gateStep c ops).blockGet = true
          · rw [hinv.closed hd] at hb
            cases hb
          · exact Or.inl (by simpa using hd)
        · exact Or.inr hle
      · rw [if_neg hk] at hgate
        exact Or.inr (by omega)

end

end Circle

end RoomSpeaker
