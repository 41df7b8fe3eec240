import Mathlib.Data.List.Forall2
import RoomSpeaker.Foundation.Pointwise
import RoomSpeaker.Foundation.Run
import RoomSpeaker.Model.QueueThreads
import RoomSpeaker.Verified.CircleSpec

/-!
# `Circle` as a bounded FIFO

`q_feedup` tests `_elems <= _maxqsz`, so on a full ring whose oldest chunk is
free it hands that chunk, still queued, to the producer.  Every other call keeps
the simulation between the ring and the numbered FIFO.

## Main results

* `QInv` — the simulation: the FIFO's queue and the queued slots correspond
  pairwise, and the slot the producer holds can only be the newest.
* `qInv_step` — every call that is not a `q_feedup` on a full ring keeps it.
* `fifoRefines_iff_roomToFeed` — a run is a bounded FIFO in all its states iff
  no `q_feedup` in it finds the ring full with the chunk under the put cursor
  free.
-/

namespace RoomSpeaker

open Foundation

/-! ## The simulation -/

/-- The producer holds a slot it has not written yet. -/
def QThreads.pending (s : QThreads) : Nat :=
  match s.put with
  | some (_, false) => 1
  | _ => 0

/-- The slot `k` stands for the item numbered `n`: it carries what was written
for `n`, and it is the producer's exactly when `n` is the newest item. -/
structure QRun.Fits (r : QRun) (n k : Nat) : Prop where
  lt : n < r.fifo.next
  content : ∀ x, r.written[n]? = some x →
    (r.threads.circle.at' k).content = x
  newest : ∀ i b, r.threads.put = some (i, b) →
    (k = i ↔ n + 1 = r.fifo.next)

structure QInv (r : QRun) : Prop where
  cursors : r.threads.circle.CursorInv
  room : r.threads.circle.elems ≤ r.threads.circle.maxqsz
  count : r.written.length + r.threads.pending = r.fifo.next
  fits : List.Forall₂ r.Fits r.fifo.queue r.threads.circle.queued
  putSlot : ∀ i b, r.threads.put = some (i, b) →
    i < r.threads.circle.maxqsz ∧ (r.threads.circle.at' i).locked = true
  getSlot : ∀ j b, r.threads.get = some (j, b) →
    j < r.threads.circle.maxqsz ∧ (r.threads.circle.at' j).locked = true
  apart : ∀ i b j d, r.threads.put = some (i, b) →
    r.threads.get = some (j, d) → i ≠ j
  held : ∀ j, r.threads.get = some (j, false) →
    ∃ n, r.fifo.served.getLast? = some n ∧
      r.written[n]? = some (r.threads.circle.at' j).content
  reads : r.reads.map some = r.readNumbers.map fun n => r.written[n]?

/-- A producer that holds no slot has written every item. -/
theorem QInv.written_all {r : QRun} (h : QInv r) (hput : r.threads.put = none) :
    r.written.length = r.fifo.next := by
  have hcount := h.count
  simp only [QThreads.pending, hput] at hcount
  exact hcount

/-- A producer that fills a slot has one item left to write. -/
theorem QInv.written_but_one {r : QRun} (h : QInv r) {i : Nat}
    (hput : r.threads.put = some (i, false)) :
    r.written.length + 1 = r.fifo.next := by
  have hcount := h.count
  simp only [QThreads.pending, hput] at hcount
  exact hcount

/-- An item other than the one being filled has been written. -/
theorem QInv.written_of_lt {r : QRun} (h : QInv r) {n : Nat}
    (hn : n < r.fifo.next)
    (hnew : ∀ i b, r.threads.put = some (i, b) → n + 1 ≠ r.fifo.next) :
    n < r.written.length := by
  have hcount := h.count
  unfold QThreads.pending at hcount
  split at hcount
  · rename_i i heq
    have hne := hnew i false heq
    omega
  · omega

theorem qInv_init (n sz : Nat) (hn : 0 < n) : QInv (QRun.init n sz) where
  cursors := Circle.CursorInv.reserve n sz hn
  room := Nat.zero_le _
  count := rfl
  fits := List.Forall₂.nil
  putSlot := by intro i b h; cases h
  getSlot := by intro i b h; cases h
  apart := by intro i b j d h; cases h
  held := by intro j h; cases h
  reads := rfl

/-- The simulation gives the FIFO law. -/
theorem QInv.fifoRefines {r : QRun} (h : QInv r) : r.FifoRefines where
  reads := h.reads
  inOrder := r.fifo.order.sublist (List.sublist_append_left _ _)
  account := r.fifo.account
  oldEnd := (List.pairwise_append.mp r.fifo.oldEnd).2.2
  counted := by
    rw [h.fits.length_eq, Circle.length_queued]
    rfl
  kept := by
    intro j n x hj hx
    have hlen := h.fits.length_eq
    obtain ⟨hjq, hjn⟩ := List.getElem?_eq_some_iff.mp hj
    have hjw : j < r.threads.circle.queued.length := hlen ▸ hjq
    have hfit := h.fits.get hjq hjw
    have hslot : r.threads.circle.queued.get ⟨j, hjw⟩ =
        (r.threads.circle.geti + j) % r.threads.circle.maxqsz := by
      simp [Circle.queued, window]
    rw [List.get_eq_getElem, hjn, hslot] at hfit
    exact hfit.content x hx
  bound := h.room

/-! ## One lemma for each kind of call -/

/-- A slot keeps its item as long as its bytes stay and it is the newest item's
exactly when the producer holds it. -/
private theorem QRun.Fits.keep {r r' : QRun} {n k : Nat} (h : r.Fits n k)
    (hnext : r.fifo.next ≤ r'.fifo.next) (hwritten : r'.written = r.written)
    (hcontent : (r'.threads.circle.at' k).content =
      (r.threads.circle.at' k).content)
    (hnewest : ∀ i b, r'.threads.put = some (i, b) →
      (k = i ↔ n + 1 = r'.fifo.next)) : r'.Fits n k where
  lt := Nat.lt_of_lt_of_le h.lt hnext
  content := by
    intro x hx
    rw [hwritten] at hx
    rw [hcontent]
    exact h.content x hx
  newest := hnewest

/-- The newest item's slot takes the bytes that are written for it; any other
slot keeps its own. -/
private theorem QRun.Fits.write {r r' : QRun} {n k i : Nat} {x : Content}
    (h : r.Fits n k) (hput : r.threads.put = some (i, false))
    (hlast : r.written.length + 1 = r.fifo.next)
    (hi : i < r.threads.circle.queue.length)
    (hnext : r'.fifo.next = r.fifo.next) (hwritten : r'.written = r.written ++ [x])
    (hcircle : r'.threads.circle =
      r.threads.circle.setAt i ((r.threads.circle.at' i).fill x))
    (hput' : r'.threads.put = some (i, true)) : r'.Fits n k where
  lt := hnext ▸ h.lt
  content := by
    have hnew := h.newest i false hput
    intro y hy
    rw [hwritten] at hy
    rw [hcircle]
    by_cases hk : k = i
    · subst hk
      have hn : n = r.written.length := by
        have hnewest := hnew.mp rfl
        omega
      rw [hn, List.getElem?_concat_length, Option.some.injEq] at hy
      rw [Circle.at_set_self _ _ _ hi, ← hy]
      rfl
    · have hn : n < r.written.length := by
        have hne : n + 1 ≠ r.fifo.next := fun he => hk (hnew.mpr he)
        have hlt := h.lt
        omega
      rw [List.getElem?_append_left hn] at hy
      rw [Circle.at_set_ne _ _ _ _ hk]
      exact h.content y hy
  newest := by
    intro j b hj
    rw [hput', Option.some.injEq, Prod.mk.injEq] at hj
    rw [← hj.1, hnext]
    exact h.newest i false hput

/-- What was read was written before, so it is still there after another item
is written. -/
private theorem QInv.reads_append {r : QRun} (h : QInv r) (x : Content) :
    r.reads.map some = r.readNumbers.map fun n => (r.written ++ [x])[n]? := by
  have hkeep : ∀ n ∈ r.readNumbers,
      (r.written ++ [x])[n]? = r.written[n]? := by
    intro n hn
    have hmem : r.written[n]? ∈ r.reads.map some := by
      rw [h.reads]
      exact List.mem_map_of_mem hn
    obtain ⟨y, _, hy⟩ := List.mem_map.mp hmem
    obtain ⟨hlt, _⟩ := List.getElem?_eq_some_iff.mp hy.symm
    exact List.getElem?_append_left hlt
  rw [h.reads]
  exact (List.map_congr_left hkeep).symm

/-- Writing or unlocking one slot leaves another one locked. -/
private theorem locked_setAt {c : Circle} {i j : Nat} (k : Chunk) (hne : j ≠ i)
    (hlock : (c.at' j).locked = true) :
    ((c.setAt i k).at' j).locked = true := by
  rw [Circle.at_set_ne _ _ _ _ hne]
  exact hlock

/-- Dropping the oldest slots discards the oldest items. -/
theorem QInv.drops {r : QRun} (h : QInv r) {c : Circle}
    (hd : r.threads.circle.Drops c) :
    QInv
      { r with
        threads := { r.threads with circle := c }
        fifo := r.fifo.discard (r.threads.circle.length - c.length) } where
  cursors := hd.inv
  room := by
    have hle := hd.le
    have hroom := h.room
    show c.elems ≤ c.maxqsz
    rw [hd.cap]
    omega
  count := h.count
  fits := by
    have hdrop := List.forall₂_drop (r.threads.circle.elems - c.elems) h.fits
    rw [← hd.rest] at hdrop
    refine hdrop.imp ?_
    intro n k hfit
    have hcontent := congrArg Chunk.content (Circle.at_congr hd.cells k)
    exact hfit.keep (Nat.le_refl _) rfl hcontent hfit.newest
  putSlot := by
    intro i b hput
    show i < c.maxqsz ∧ (c.at' i).locked = true
    rw [hd.cap, Circle.at_congr hd.cells]
    exact h.putSlot i b hput
  getSlot := by
    intro j b hget
    show j < c.maxqsz ∧ (c.at' j).locked = true
    rw [hd.cap, Circle.at_congr hd.cells]
    exact h.getSlot j b hget
  apart := h.apart
  held := by
    intro j hget
    show ∃ n, r.fifo.served.getLast? = some n ∧
      r.written[n]? = some (c.at' j).content
    rw [Circle.at_congr hd.cells]
    exact h.held j hget
  reads := h.reads

/-- A call that only moves the optimum or the gate. -/
theorem QInv.gate {r : QRun} (h : QInv r) (o : Nat) (b : Bool) :
    QInv
      { r with
        threads :=
          { r.threads with
            circle := { r.threads.circle with optim := o, blockGet := b } } }
    where
  cursors := (Circle.drops_gate h.cursors o b).inv
  room := h.room
  count := h.count
  fits := h.fits.imp fun _ _ hfit =>
    hfit.keep (Nat.le_refl _) rfl rfl hfit.newest
  putSlot := h.putSlot
  getSlot := h.getSlot
  apart := h.apart
  held := h.held
  reads := h.reads

/-- A `q_feedup` below capacity accepts the next item. -/
theorem QInv.feedup {r : QRun} (h : QInv r) (hput : r.threads.put = none)
    (hroom : r.threads.circle.elems < r.threads.circle.maxqsz)
    (hfree : (r.threads.circle.at' r.threads.circle.puti).locked = false) :
    QInv
      { r with
        threads :=
          { r.threads with
            circle := r.threads.circle.fed
            put := some (r.threads.circle.puti, false) }
        fifo := r.fifo.accept } where
  cursors := h.cursors.fed (Nat.le_of_lt hroom)
  room := hroom
  count := by
    show r.written.length + 1 = r.fifo.next + 1
    rw [h.written_all hput]
  fits := by
    have hwritten := h.written_all hput
    have hold : List.Forall₂
        (QRun.Fits
          { r with
            threads :=
              { r.threads with
                circle := r.threads.circle.fed
                put := some (r.threads.circle.puti, false) }
            fifo := r.fifo.accept })
        r.fifo.queue r.threads.circle.queued := by
      refine (forall₂_mem h.fits).imp ?_
      rintro n k ⟨hfit, hn, hk⟩
      refine hfit.keep (Nat.le_succ _) rfl
        (Circle.content_setLocked _ _ k true) ?_
      intro i b hi
      have hk' : k ≠ r.threads.circle.puti := by
        rintro rfl
        exact Circle.puti_notMem_queued h.cursors hroom hk
      have hlt := hfit.lt
      simp only [Option.some.injEq, Prod.mk.injEq] at hi
      rw [← hi.1]
      show k = r.threads.circle.puti ↔ n + 1 = r.fifo.next + 1
      constructor
      · intro hcontra
        exact absurd hcontra hk'
      · intro hcontra
        omega
    show List.Forall₂ _ (r.fifo.queue ++ [r.fifo.next])
      r.threads.circle.fed.queued
    rw [Circle.queued_fed h.cursors]
    refine List.rel_append hold (.cons ⟨Nat.lt_succ_self _, ?_, ?_⟩ .nil)
    · intro x hx
      have hnone : r.written[r.fifo.next]? = none :=
        List.getElem?_eq_none (by omega)
      rw [hnone] at hx
      cases hx
    · intro i b hi
      simp only [Option.some.injEq, Prod.mk.injEq] at hi
      simp [← hi.1, Fifo.accept]
  putSlot := by
    intro i b hi
    simp only [Option.some.injEq, Prod.mk.injEq] at hi
    rw [← hi.1]
    exact ⟨h.cursors.puti_lt,
      Circle.locked_setLocked_self h.cursors h.cursors.puti_lt true⟩
  getSlot := by
    intro j b hget
    obtain ⟨hlt, hlock⟩ := h.getSlot j b hget
    exact ⟨hlt, locked_setAt _ (Circle.ne_of_locked hlock hfree) hlock⟩
  apart := by
    intro i b j d hi hget
    simp only [Option.some.injEq, Prod.mk.injEq] at hi
    rw [← hi.1]
    exact Ne.symm (Circle.ne_of_locked (h.getSlot j d hget).2 hfree)
  held := by
    intro j hget
    show ∃ n, r.fifo.served.getLast? = some n ∧ r.written[n]? =
      some ((r.threads.circle.setLocked _ true).at' j).content
    rw [Circle.content_setLocked]
    exact h.held j hget
  reads := h.reads

/-- Writing the chunk the producer holds fills the newest item and disturbs no
other. -/
theorem QInv.write {r : QRun} (h : QInv r) (x : Content) {i : Nat}
    (hput : r.threads.put = some (i, false)) :
    QInv
      { r with
        threads :=
          { r.threads with
            circle := r.threads.circle.setAt i
              ((r.threads.circle.at' i).fill x)
            put := some (i, true) }
        written := r.written ++ [x] } where
  cursors := h.cursors.setAt _ _
  room := h.room
  count := by
    show (r.written ++ [x]).length + 0 = r.fifo.next
    rw [List.length_append]
    exact h.written_but_one hput
  fits := by
    have hi := (h.putSlot i false hput).1
    refine h.fits.imp ?_
    intro n k hfit
    exact hfit.write hput (h.written_but_one hput) (h.cursors.pool ▸ hi) rfl rfl
      rfl rfl
  putSlot := by
    intro i' b hi'
    simp only [Option.some.injEq, Prod.mk.injEq] at hi'
    obtain ⟨hlt, hlock⟩ := h.putSlot i false hput
    rw [← hi'.1]
    refine ⟨hlt, ?_⟩
    show ((r.threads.circle.setAt i _).at' i).locked = true
    rw [Circle.at_set_self _ _ _ (h.cursors.pool ▸ hlt)]
    exact hlock
  getSlot := by
    intro j b hget
    obtain ⟨hlt, hlock⟩ := h.getSlot j b hget
    have hne := h.apart i false j b hput hget
    exact ⟨hlt, locked_setAt _ (Ne.symm hne) hlock⟩
  apart := by
    intro i' b j d hi' hget
    simp only [Option.some.injEq, Prod.mk.injEq] at hi'
    rw [← hi'.1]
    exact h.apart i false j d hput hget
  held := by
    intro j hget
    have hne := h.apart i false j false hput hget
    obtain ⟨n, hn, hw⟩ := h.held j hget
    refine ⟨n, hn, ?_⟩
    obtain ⟨hlt, _⟩ := List.getElem?_eq_some_iff.mp hw
    show (r.written ++ [x])[n]? =
      some ((r.threads.circle.setAt i _).at' j).content
    rw [List.getElem?_append_left hlt, Circle.at_set_ne _ _ _ _ (Ne.symm hne)]
    exact hw
  reads := h.reads_append x

/-- A `q_consume` that hands out a slot serves the oldest item. -/
theorem QInv.consume {r : QRun} (h : QInv r) (hget : r.threads.get = none)
    (hne : r.threads.circle.elems ≠ 0)
    (hfree : (r.threads.circle.at' r.threads.circle.geti).locked = false) :
    QInv
      { r with
        threads :=
          { r.threads with
            circle := r.threads.circle.served
            get := some (r.threads.circle.geti, false) }
        fifo := r.fifo.serve } := by
  have hfits := h.fits
  rw [Circle.queued_served h.cursors hne] at hfits
  cases hq : r.fifo.queue with
  | nil =>
      rw [hq] at hfits
      cases hfits
  | cons n q =>
      rw [hq] at hfits
      obtain ⟨hhead, htail⟩ := List.forall₂_cons.mp hfits
      -- the chunk handed out is free, so it is not the one being filled
      have hold : ∀ i b, r.threads.put = some (i, b) →
          r.threads.circle.geti ≠ i := by
        intro i b hi
        exact Ne.symm (Circle.ne_of_locked (h.putSlot i b hi).2 hfree)
      have hwritten : n < r.written.length :=
        h.written_of_lt hhead.lt fun i b hi hnew =>
          hold i b hi ((hhead.newest i b hi).mpr hnew)
      have hserved : r.fifo.serve.served = r.fifo.served ++ [n] := by
        simp [Fifo.serve, hq]
      have hqueue : r.fifo.serve.queue = q := by
        simp [Fifo.serve, hq]
      exact
        { cursors := h.cursors.served hne
          room := Nat.le_trans (Nat.sub_le _ _) h.room
          count := h.count
          fits := by
            show List.Forall₂ _ r.fifo.serve.queue _
            rw [hqueue]
            refine htail.imp ?_
            intro m k hfit
            have hcontent := Circle.content_setLocked r.threads.circle
              r.threads.circle.geti k true
            have hnext : r.fifo.serve.next = r.fifo.next := by
              simp [Fifo.serve, hq]
            exact hfit.keep (Nat.le_of_eq hnext.symm) rfl hcontent
              (hnext.symm ▸ hfit.newest)
          putSlot := by
            intro i b hi
            obtain ⟨hlt, hlock⟩ := h.putSlot i b hi
            exact ⟨hlt, locked_setAt _ (Ne.symm (hold i b hi)) hlock⟩
          getSlot := by
            intro j b hj
            simp only [Option.some.injEq, Prod.mk.injEq] at hj
            rw [← hj.1]
            exact ⟨h.cursors.geti,
              Circle.locked_setLocked_self h.cursors h.cursors.geti true⟩
          apart := by
            intro i b j d hi hj
            simp only [Option.some.injEq, Prod.mk.injEq] at hj
            rw [← hj.1]
            exact Ne.symm (hold i b hi)
          held := by
            intro j hj
            simp only [Option.some.injEq, Prod.mk.injEq, and_true] at hj
            refine ⟨n, ?_, ?_⟩
            · show r.fifo.serve.served.getLast? = some n
              rw [hserved, List.getLast?_concat]
            · show r.written[n]? =
                some ((r.threads.circle.setLocked _ true).at' j).content
              have hx := hhead.content r.written[n]
                (List.getElem?_eq_getElem hwritten)
              rw [Circle.content_setLocked, ← hj, hx]
              exact List.getElem?_eq_getElem hwritten
          reads := by
            have hreads := h.reads
            simp only [QRun.readNumbers, hget] at hreads
            show r.reads.map some =
              r.fifo.serve.served.dropLast.map fun n => r.written[n]?
            rw [hserved, List.dropLast_concat]
            exact hreads }

/-- Reading the chunk the consumer holds yields what was written for the item
last served. -/
theorem QInv.read {r : QRun} (h : QInv r) {j : Nat}
    (hget : r.threads.get = some (j, false)) :
    QInv
      { r with
        threads := { r.threads with get := some (j, true) }
        reads := r.reads ++ [(r.threads.circle.at' j).content] } where
  cursors := h.cursors
  room := h.room
  count := h.count
  fits := h.fits.imp fun _ _ hfit =>
    hfit.keep (Nat.le_refl _) rfl rfl hfit.newest
  putSlot := h.putSlot
  getSlot := by
    intro j' b hj
    simp only [Option.some.injEq, Prod.mk.injEq] at hj
    rw [← hj.1]
    exact h.getSlot j false hget
  apart := by
    intro i b j' d hi hj
    simp only [Option.some.injEq, Prod.mk.injEq] at hj
    rw [← hj.1]
    exact h.apart i b j false hi hget
  held := by
    intro j' hj
    simp at hj
  reads := by
    obtain ⟨n, hn, hw⟩ := h.held j hget
    have hreads := h.reads
    simp only [QRun.readNumbers, hget] at hreads
    show (r.reads ++ [(r.threads.circle.at' j).content]).map some =
      r.fifo.served.map fun n => r.written[n]?
    rw [List.map_append, hreads, List.map_singleton, ← hw]
    obtain ⟨init, hinit⟩ := List.getLast?_eq_some_iff.mp hn
    rw [hinit, List.dropLast_concat, List.map_append, List.map_singleton]

/-- The producer releases the chunk it has written. -/
theorem QInv.releasePut {r : QRun} (h : QInv r) {i : Nat}
    (hput : r.threads.put = some (i, true)) :
    QInv
      { r with
        threads :=
          { r.threads with
            circle := r.threads.circle.release (some (.slot i))
            put := none } } := by
  show QInv
    { r with
      threads :=
        { r.threads with
          circle := r.threads.circle.setLocked i false
          put := none } }
  exact
    { cursors := h.cursors.setAt _ _
      room := h.room
      count := by
        have hcount := h.count
        simpa only [QThreads.pending, hput] using hcount
      fits := by
        refine h.fits.imp ?_
        intro n k hfit
        refine hfit.keep (Nat.le_refl _) rfl
          (Circle.content_setLocked _ i k false) ?_
        intro i' b hi
        cases hi
      putSlot := by intro i' b hi; cases hi
      getSlot := by
        intro j b hget
        obtain ⟨hlt, hlock⟩ := h.getSlot j b hget
        have hne := h.apart i true j b hput hget
        exact ⟨hlt, locked_setAt _ (Ne.symm hne) hlock⟩
      apart := by intro i' b j d hi; cases hi
      held := by
        intro j hget
        show ∃ n, r.fifo.served.getLast? = some n ∧ r.written[n]? =
          some ((r.threads.circle.setLocked i false).at' j).content
        rw [Circle.content_setLocked]
        exact h.held j hget
      reads := h.reads }

/-- The consumer releases the chunk it has read. -/
theorem QInv.releaseGet {r : QRun} (h : QInv r) {j : Nat}
    (hget : r.threads.get = some (j, true)) :
    QInv
      { r with
        threads :=
          { r.threads with
            circle := r.threads.circle.release (some (.slot j))
            get := none } } := by
  show QInv
    { r with
      threads :=
        { r.threads with
          circle := r.threads.circle.setLocked j false
          get := none } }
  exact
    { cursors := h.cursors.setAt _ _
      room := h.room
      count := h.count
      fits := by
        refine h.fits.imp ?_
        intro n k hfit
        exact hfit.keep (Nat.le_refl _) rfl
          (Circle.content_setLocked _ j k false) hfit.newest
      putSlot := by
        intro i b hi
        obtain ⟨hlt, hlock⟩ := h.putSlot i b hi
        have hne := h.apart i b j true hi hget
        exact ⟨hlt, locked_setAt _ hne hlock⟩
      getSlot := by intro j' b hj; cases hj
      apart := by intro i b j' d _ hj; cases hj
      held := by intro j' hj; cases hj
      reads := by
        have hreads := h.reads
        simpa only [QRun.readNumbers, hget] using hreads }

/-! ## Steps and runs -/

private theorem step_feedup {r : QRun} (h : QInv r)
    (hroom : r.RoomToFeed .feedup) : QInv (r.step .feedup) := by
  cases hput : r.threads.put with
  | some p =>
      have hstep : r.step .feedup = r := by
        simp [QRun.step, QThreads.step, Fifo.follow, QThreads.wrote,
          QThreads.took, hput]
      rw [hstep]
      exact h
  | none =>
      rcases r.threads.circle.qFeedup_cases with
        ⟨hle, hfree, hcall⟩ | ⟨_, hcall⟩
      · have hlt : r.threads.circle.elems < r.threads.circle.maxqsz :=
          Nat.lt_of_le_of_ne hle (hroom rfl hput hfree)
        have hstep : r.step .feedup =
            { r with
              threads :=
                { r.threads with
                  circle := r.threads.circle.fed
                  put := some (r.threads.circle.puti, false) }
              fifo := r.fifo.accept } := by
          simp [QRun.step, QThreads.step, Fifo.follow, QThreads.wrote,
            QThreads.took, hput, hcall]
        rw [hstep]
        exact h.feedup hput hlt hfree
      · have hstep : r.step .feedup = r := by
          simp only [QRun.step, QThreads.step, Fifo.follow, QThreads.wrote,
            QThreads.took, hput, hcall, ne_eq, not_true_eq_false, and_false,
            if_false, List.append_nil]
          rw [← hput]
        rw [hstep]
        exact h

private theorem step_consume {r : QRun} (h : QInv r) :
    QInv (r.step .consume) := by
  cases hget : r.threads.get with
  | some p =>
      have hstep : r.step .consume = r := by
        simp [QRun.step, QThreads.step, Fifo.follow, QThreads.wrote,
          QThreads.took, hget]
      rw [hstep]
      exact h
  | none =>
      rcases r.threads.circle.qConsume_cases with
        ⟨hne, _, hfree, hcall⟩ | ⟨_, hcall⟩
      · have hstep : r.step .consume =
            { r with
              threads :=
                { r.threads with
                  circle := r.threads.circle.served
                  get := some (r.threads.circle.geti, false) }
              fifo := r.fifo.serve } := by
          simp [QRun.step, QThreads.step, Fifo.follow, QThreads.wrote,
            QThreads.took, hget, hcall]
        rw [hstep]
        exact h.consume hget hne hfree
      · have hstep : r.step .consume =
            { r with
              threads :=
                { r.threads with circle := r.threads.circle.refused } } := by
          simp [QRun.step, QThreads.step, Fifo.follow, QThreads.wrote,
            QThreads.took, hget, hcall]
        rw [hstep]
        exact h.gate _ _

private theorem step_put {r : QRun} (h : QInv r) (op : QOp)
    (hop : op = .releasePut ∨ ∃ x, op = .write x) : QInv (r.step op) := by
  cases hput : r.threads.put with
  | none =>
      have hstep : r.step op = r := by
        rcases hop with rfl | ⟨x, rfl⟩ <;>
          simp [QRun.step, QThreads.step, Fifo.follow, QThreads.wrote,
            QThreads.took, hput]
      rw [hstep]
      exact h
  | some p =>
      obtain ⟨i, b⟩ := p
      rcases hop with rfl | ⟨x, rfl⟩
      · cases b with
        | false =>
            have hstep : r.step .releasePut = r := by
              simp [QRun.step, QThreads.step, Fifo.follow, QThreads.wrote,
                QThreads.took, hput]
            rw [hstep]
            exact h
        | true =>
            have hrel := h.releasePut hput
            simpa [QRun.step, QThreads.step, Fifo.follow, QThreads.wrote,
              QThreads.took, hput] using hrel
      · cases b with
        | true =>
            have hstep : r.step (.write x) = r := by
              simp [QRun.step, QThreads.step, Fifo.follow, QThreads.wrote,
                QThreads.took, hput]
            rw [hstep]
            exact h
        | false =>
            have hwrite := h.write x hput
            simpa [QRun.step, QThreads.step, Fifo.follow, QThreads.wrote,
              QThreads.took, hput] using hwrite

private theorem step_get {r : QRun} (h : QInv r) (op : QOp)
    (hop : op = .releaseGet ∨ op = .read) : QInv (r.step op) := by
  cases hget : r.threads.get with
  | none =>
      have hstep : r.step op = r := by
        rcases hop with rfl | rfl <;>
          simp [QRun.step, QThreads.step, Fifo.follow, QThreads.wrote,
            QThreads.took, hget]
      rw [hstep]
      exact h
  | some p =>
      obtain ⟨j, b⟩ := p
      rcases hop with rfl | rfl
      · cases b with
        | false =>
            have hstep : r.step .releaseGet = r := by
              simp [QRun.step, QThreads.step, Fifo.follow, QThreads.wrote,
                QThreads.took, hget]
            rw [hstep]
            exact h
        | true =>
            have hrel := h.releaseGet hget
            simpa [QRun.step, QThreads.step, Fifo.follow, QThreads.wrote,
              QThreads.took, hget] using hrel
      · cases b with
        | true =>
            have hstep : r.step .read = r := by
              simp [QRun.step, QThreads.step, Fifo.follow, QThreads.wrote,
                QThreads.took, hget]
            rw [hstep]
            exact h
        | false =>
            have hread := h.read hget
            simpa [QRun.step, QThreads.step, Fifo.follow, QThreads.wrote,
              QThreads.took, hget] using hread

/-- Every call but a `q_feedup` on a full ring keeps the simulation. -/
theorem qInv_step {r : QRun} (h : QInv r) (op : QOp) (hroom : r.RoomToFeed op) :
    QInv (r.step op) := by
  cases op with
  | feedup => exact step_feedup h hroom
  | write x => exact step_put h _ (Or.inr ⟨x, rfl⟩)
  | releasePut => exact step_put h _ (Or.inl rfl)
  | consume => exact step_consume h
  | read => exact step_get h _ (Or.inr rfl)
  | releaseGet => exact step_get h _ (Or.inl rfl)
  | forceOptim n =>
      have hdrop := h.drops (Circle.drops_forceOptim h.cursors n)
      simpa [QRun.step, QThreads.step, Fifo.follow, QThreads.wrote,
        QThreads.took] using hdrop
  | removeBack n =>
      have hdrop := h.drops (Circle.drops_removeBack h.cursors n)
      simpa [QRun.step, QThreads.step, Fifo.follow, QThreads.wrote,
        QThreads.took] using hdrop
  | reset =>
      have hdrop := h.drops (Circle.drops_reset h.cursors)
      simpa [QRun.step, QThreads.step, Fifo.follow, QThreads.wrote,
        QThreads.took] using hdrop
  | setOptimPerc p =>
      have hgate := h.gate
        (Circle.sizeOfInt p * r.threads.circle.maxqsz % 2 ^ 64 / 100)
        r.threads.circle.blockGet
      simpa [QRun.step, QThreads.step, Fifo.follow, QThreads.wrote,
        QThreads.took, Circle.setOptimPerc] using hgate

/-- A `q_feedup` that succeeds on a full ring takes the count past the
capacity. -/
theorem roomToFeed_of_bound {r : QRun} (op : QOp)
    (hbound : (r.step op).FifoRefines) : r.RoomToFeed op := by
  intro hop hput hfree hfull
  subst hop
  have hle : r.threads.circle.elems ≤ r.threads.circle.maxqsz :=
    Nat.le_of_eq hfull
  have hcall : r.threads.circle.qFeedup false =
      (r.threads.circle.fed, some (.slot r.threads.circle.puti)) := by
    rcases r.threads.circle.qFeedup_cases with ⟨_, _, hcall⟩ | ⟨hno, _⟩
    · exact hcall
    · exact absurd ⟨hle, hfree⟩ hno
  have hcircle : (r.step .feedup).threads.circle = r.threads.circle.fed := by
    simp [QRun.step, QThreads.step, hput, hcall]
  have hlen := hbound.bound
  rw [hcircle] at hlen
  have hcount : r.threads.circle.elems + 1 ≤ r.threads.circle.maxqsz := hlen
  have hfull' : r.threads.circle.elems = r.threads.circle.maxqsz := hfull
  omega

/--
**The ring is a bounded FIFO exactly as long as it is not fed when full.**

For every capacity and every interleaving of the calls, the FIFO law holds in
every state of the run iff no `q_feedup` of the run finds `length() =
capacity()` with the chunk under the put cursor free.
-/
theorem fifoRefines_iff_roomToFeed (n sz : Nat) (hn : 0 < n) (ops : List QOp) :
    Throughout QRun.step QRun.FifoRefines (QRun.init n sz) ops ↔
      Along QRun.step QRun.RoomToFeed (QRun.init n sz) ops :=
  throughout_iff_along (fun _ op h hroom => qInv_step h op hroom)
    (fun _ h => h.fifoRefines) (fun _ op _ => roomToFeed_of_bound op)
    ops _ (qInv_init n sz hn)

/-- One chunk through a ring of capacity one, produced and consumed. -/
theorem fifoRefines_single :
    Throughout QRun.step QRun.FifoRefines (QRun.init 1 4)
      [.feedup, .write (BufHdr.zero, [7]), .releasePut, .consume, .read,
        .releaseGet] := by
  refine (fifoRefines_iff_roomToFeed 1 4 (by decide) _).mpr ?_
  decide

/-- The third chunk fed to a ring of capacity two, with nothing consumed, is
put over the first one. -/
theorem fifoRefines_fails_when_fed_full :
    ¬ Throughout QRun.step QRun.FifoRefines (QRun.init 2 4)
      [.feedup, .write (BufHdr.zero, [1]), .releasePut,
        .feedup, .write (BufHdr.zero, [2]), .releasePut,
        .feedup, .write (BufHdr.zero, [3])] := by
  intro h
  have hkept := h.last.kept 0 0 (BufHdr.zero, [1]) (by decide) (by decide)
  revert hkept
  decide

end RoomSpeaker
