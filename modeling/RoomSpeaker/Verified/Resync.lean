import RoomSpeaker.Model.Sclient
import RoomSpeaker.Verified.Gate

/-!
# What a resync does to the queue

A sync frame carries `cur_seq`, the newest frame sent, and `pilot_seq`, the
frame the pilot played last.  A client whose queue holds the frames
`s+1, …, s+L` and whose pilot played `p` is aligned by dropping `p-s` chunks, or
by waiting for `s-p` more: its queue should then hold `L-(p-s)` chunks.
`_check_stream` asks `force_optim` for `L - (pilot_seq - cur_seq)` instead, which
is `L` more than that.

## Main results

* `checkStream_resync` — the `force_optim` call a sync frame leads to.
* `aligned_iff_resyncExact` — the exact condition under which the resync aligns
  the client.
-/

namespace RoomSpeaker

open Foundation

/-! ## Sequence numbers -/

/-- The sequence numbers of the queued chunks, oldest first. -/
def Circle.seqs (c : Circle) : List (BitVec 32) :=
  c.queued.map fun i => (c.at' i).hdr.curSeq

/-- The `n` sequence numbers after `s`. -/
def seqsFrom (s : BitVec 32) (n : Nat) : List (BitVec 32) :=
  (List.range n).map fun k => s + BitVec.ofNat 32 (k + 1)

@[simp] theorem Circle.length_seqs (c : Circle) : c.seqs.length = c.elems := by
  simp [Circle.seqs]

/-- `pilot_seq - cur_seq` when the pilot is `d` frames ahead of `s` and the frame
is `s + n`. -/
theorem toInt_frmdiff (s p : BitVec 32) (n : Nat)
    (hlow : -2 ^ 31 ≤ (p - s).toInt - n) (hhigh : (p - s).toInt - n < 2 ^ 31) :
    (p - (s + BitVec.ofNat 32 n)).toInt = (p - s).toInt - n := by
  rw [← BitVec.sub_sub, BitVec.toInt_sub, BitVec.toInt_ofNat', Int.sub_bmod_bmod]
  apply Int.bmod_eq_of_le_mul_two
  · omega
  · omega

/-- The frame after the pilot's, counted from either end. -/
theorem seq_after_pilot (s p : BitVec 32) :
    s + BitVec.ofNat 32 ((p - s).toInt.toNat + 1) =
      p + BitVec.ofNat 32 (-(p - s).toInt).toNat + 1 := by
  have hdiff : BitVec.ofInt 32 (p - s).toInt = p - s := BitVec.ofInt_toInt
  have hp : p = s + BitVec.ofInt 32 (p - s).toInt := by
    rw [hdiff, BitVec.add_comm, BitVec.sub_add_cancel]
  generalize hd : (p - s).toInt = d at hp
  rw [hp]
  rcases Int.le_total 0 d with hpos | hneg
  · obtain ⟨n, rfl⟩ := Int.eq_ofNat_of_zero_le hpos
    rw [BitVec.ofInt_natCast, Int.toNat_natCast, Int.toNat_of_nonpos (by omega),
      BitVec.ofNat_add]
    simp [BitVec.add_assoc]
  · obtain ⟨n, hn⟩ := Int.eq_ofNat_of_zero_le (Int.neg_nonneg_of_nonpos hneg)
    have hdn : d = -(n : Int) := by omega
    rw [hdn, BitVec.ofInt_neg, BitVec.ofInt_natCast, Int.neg_neg,
      Int.toNat_natCast, Int.toNat_of_nonpos (by omega)]
    rw [BitVec.add_assoc s, BitVec.add_left_neg, BitVec.add_zero]
    rfl

/-! ## The situation of a resync -/

/-- A client that is not the pilot is about to process a sync frame.  It got the
slot `j` for it from the queue `before`, in which no chunk is held; the frame
passes the gates, and with it the queue holds the frames `s+1, …, s+L`. -/
structure SyncFrame (cli : Sclient) (before c : Circle) (j : Nat) (i : StreamIn)
    (s p : BitVec 32) : Prop where
  cursors : before.CursorInv
  int : before.maxqsz < 2 ^ 31
  free : ∀ k ∈ before.queued, (before.at' k).locked = false
  slot : before.qFeedup false = (c, some (.slot j))
  ok : (recvFrame (c.at' j) i.recv).ok = true
  sig : (recvFrame (c.at' j) i.recv).chunk.hdr.frmSig = syncData
  pilotSeq : (recvFrame (c.at' j) i.recv).chunk.hdr.pilotSeq = p
  played : p ≠ 0
  notPilot : (recvFrame (c.at' j) i.recv).chunk.hdr.isPilot = false
  perc : (((recvFrame (c.at' j) i.recv).chunk.hdr.pilotQPerc.toNat : Int) -
    cliSyncPercent).natAbs < synchedDelta
  interval : i.time - cli.requeTime > maxRequeInterval
  seqs : (c.setAt j (recvFrame (c.at' j) i.recv).chunk).seqs =
    seqsFrom s c.elems

/-- The queue after the frame was processed and its chunk released. -/
def Sclient.resynced (cli : Sclient) (c : Circle) (j : Nat) (i : StreamIn) :
    Circle :=
  (cli.checkStream c (.slot j) i).rq.release (some (.slot j))

/-- The length a queue of `n` chunks from `s+1` on should get when the pilot
played `p`. -/
def alignedLen (s p : BitVec 32) (n : Nat) : Int := n - (p - s).toInt

/-- The client is aligned: of the queue `c` the `p-s` oldest chunks were
dropped, or none, and consumers wait for `s-p` further chunks, or none; the next
chunk is the one after the pilot's. -/
structure Aligned (c c' : Circle) (s p : BitVec 32) : Prop where
  dropped : c'.seqs = c.seqs.drop (p - s).toInt.toNat
  held : c'.HeldFor (-(p - s).toInt).toNat
    (p + BitVec.ofNat 32 (-(p - s).toInt).toNat + 1)

/-- The value `force_optim` settles on for a queue of `n` chunks. -/
def Circle.newOptim (c : Circle) (s p : BitVec 32) (n : Nat) : Nat :=
  c.clampOptim (n + alignedLen s p n)

/-- What `force_optim` settles on is the aligned length, and it is a new
optimum; or it is the present optimum, and either no change is due and
consumers are not waiting for more, or they wait for the right number. -/
def ResyncExact (c : Circle) (s p : BitVec 32) : Prop :=
  if c.optim = c.newOptim s p c.elems then
    ((p - s).toInt = 0 ∧
      (c.blockGet = false ∨ c.newOptim s p c.elems ≤ c.elems)) ∨
    ((p - s).toInt < 0 ∧ c.blockGet = true ∧
      (c.newOptim s p c.elems : Int) = alignedLen s p c.elems)
  else (c.newOptim s p c.elems : Int) = alignedLen s p c.elems

instance (c : Circle) (s p : BitVec 32) : Decidable (ResyncExact c s p) := by
  unfold ResyncExact
  infer_instance

section

variable {cli : Sclient} {before c : Circle} {j : Nat} {i : StreamIn}
  {s p : BitVec 32} (h : SyncFrame cli before c j i s p)

include h

/-! ## The state in which the frame is processed -/

theorem SyncFrame.fed : c = before.fed ∧ j = before.puti ∧
    before.elems ≤ before.maxqsz := by
  have hslot := h.slot
  rcases Circle.qFeedup_cases before with ⟨hroom, _, hq⟩ | ⟨_, hq⟩
  · rw [hq] at hslot
    simp only [Prod.mk.injEq, Option.some.injEq, ChunkRef.slot.injEq] at hslot
    exact ⟨hslot.1.symm, hslot.2.symm, hroom⟩
  · rw [hq] at hslot
    cases hslot

theorem SyncFrame.inv : c.CursorInv := by
  obtain ⟨hc, _, hroom⟩ := h.fed
  rw [hc]
  exact h.cursors.fed hroom

theorem SyncFrame.queued : c.queued = before.queued ++ [j] := by
  obtain ⟨hc, hj, _⟩ := h.fed
  rw [hc, hj]
  exact Circle.queued_fed h.cursors

theorem SyncFrame.elems_ne : c.elems ≠ 0 := by
  obtain ⟨hc, _, _⟩ := h.fed
  rw [hc]
  exact Nat.succ_ne_zero _

theorem SyncFrame.slot_lt : j < c.queue.length := by
  obtain ⟨hc, hj, _⟩ := h.fed
  have hlt := h.cursors.puti_lt
  rw [h.inv.pool, hj, hc]
  exact hlt

/-- Every queued chunk but the frame's own is free. -/
theorem SyncFrame.free_queued (k : Nat) (hk : k ∈ c.queued) (hne : k ≠ j) :
    (c.at' k).locked = false := by
  obtain ⟨hc, hj, _⟩ := h.fed
  rw [h.queued, List.mem_append, List.mem_singleton] at hk
  rcases hk with hk | hk
  · have hfree := h.free k hk
    rw [hc]
    show ((before.setLocked before.puti true).at' k).locked = false
    rw [Circle.at_setLocked_ne _ _ _ _ (hj ▸ hne)]
    exact hfree
  · exact absurd hk hne

/-- The frame is the newest of the queue. -/
theorem SyncFrame.curSeq :
    (recvFrame (c.at' j) i.recv).chunk.hdr.curSeq =
      s + BitVec.ofNat 32 c.elems := by
  obtain ⟨n, hn⟩ := Nat.exists_eq_succ_of_ne_zero h.elems_ne
  have hseqs := h.seqs
  have hlast := congrArg List.getLast? hseqs
  unfold Circle.seqs seqsFrom at hlast
  rw [show (c.setAt j (recvFrame (c.at' j) i.recv).chunk).queued = c.queued
    from rfl, h.queued, hn, List.range_succ] at hlast
  simp only [List.map_append, List.map_cons, List.map_nil,
    List.getLast?_append, List.getLast?_singleton, Option.some_or,
    Option.some.injEq] at hlast
  rw [Circle.at_set_self _ _ _ h.slot_lt] at hlast
  rw [hlast, hn]

/-! ## The resync -/

/-- The frame leads to a `force_optim` for the length of the queue more than the
aligned length. -/
theorem checkStream_resync (hlow : 2 * synchedDelta < alignedLen s p c.elems)
    (hhigh : alignedLen s p c.elems < c.maxqsz) :
    (cli.checkStream c (.slot j) i).rq =
      (c.setAt j (recvFrame (c.at' j) i.recv).chunk).forceOptim
        (c.elems + alignedLen s p c.elems) := by
  obtain ⟨hc, _, _⟩ := h.fed
  have hint := h.int
  have hcap : c.maxqsz = before.maxqsz := by
    rw [hc]
    rfl
  unfold synchedDelta alignedLen at *
  have hdiff := toInt_frmdiff s p c.elems (by omega) (by omega)
  have hreset : (recvFrame (c.at' j) i.recv).chunk.hdr.frmSig ≠ resetAll := by
    rw [h.sig]
    decide
  have hsyncs : (recvFrame (c.at' j) i.recv).chunk.hdr.syncs = true := by
    simp only [BufHdr.syncs, h.sig, h.pilotSeq, decide_true, Bool.true_and]
    exact decide_eq_true h.played
  have hwhole : (recvFrame (c.at' j) i.recv).whole = true := by
    have hok := h.ok
    rw [Received.ok, Bool.and_eq_true] at hok
    exact hok.1
  have hfrmdiff : ((recvFrame (c.at' j) i.recv).chunk.hdr.pilotSeq -
      (recvFrame (c.at' j) i.recv).chunk.hdr.curSeq).toInt =
      (p - s).toInt - c.elems := by
    rw [h.pilotSeq, h.curSeq, hdiff]
  have hperc := h.perc
  unfold synchedDelta at hperc
  have hinterval := h.interval
  have hnewopt : (c.elems : Int) - ((p - s).toInt - c.elems) > 4 * 2 := by
    omega
  have hsum : (c.elems : Int) - ((p - s).toInt - c.elems) =
      c.elems + (c.elems - (p - s).toInt) := by
    omega
  have hoff : (p - s).toInt - c.elems ≠ 0 := by
    omega
  unfold Sclient.checkStream
  simp only [Circle.deref, Circle.assign, h.ok, hwhole, if_true]
  unfold Sclient.onFrame
  simp only [if_neg hreset, hsyncs, if_true]
  unfold Sclient.requeue Sclient.mayRequeue Sclient.measure
  simp only [h.notPilot, hfrmdiff, synchedDelta, hperc, hinterval, hoff, ne_eq,
    not_false_eq_true, decide_true, Bool.and_self, if_true]
  simp only [Circle.length, Circle.setAt, hnewopt, if_true]
  rw [hsum]

/-! ## The queue afterwards -/

omit h in
/-- Dropping chunks and releasing one keep the numbers of those that stay. -/
private theorem seqs_released {c₁ x : Circle} (hd : c₁.Drops x) (j : Nat) :
    (x.setLocked j false).seqs = c₁.seqs.drop (c₁.elems - x.elems) := by
  have hat : ∀ k, ((x.setLocked j false).at' k).hdr.curSeq =
      (c₁.at' k).hdr.curSeq := by
    intro k
    have hcontent := congrArg Prod.fst (Circle.content_setLocked x j k false)
    have hhdr : ((x.setLocked j false).at' k).hdr = (x.at' k).hdr := hcontent
    rw [hhdr, Circle.at_congr hd.cells]
  unfold Circle.seqs
  show x.queued.map _ = _
  rw [hd.rest, ← List.map_drop]
  simp only [hat]

/-- After the frame's chunk is released the oldest chunk is free. -/
private theorem SyncFrame.front_free {x : Circle}
    (hd : (c.setAt j (recvFrame (c.at' j) i.recv).chunk).Drops x)
    (hne : x.elems ≠ 0) :
    ((x.setLocked j false).at' x.geti).locked = false := by
  by_cases hj : x.geti = j
  · rw [← hj]
    exact Circle.locked_setLocked_self hd.inv hd.inv.geti false
  · have hmem : x.geti ∈ c.queued := by
      have hfront : x.geti ∈ x.queued := by
        rw [Circle.queued_served hd.inv hne]
        exact List.mem_cons_self
      rw [hd.rest] at hfront
      exact List.mem_of_mem_drop hfront
    rw [Circle.at_setLocked_ne x j x.geti false hj, Circle.at_congr hd.cells,
      Circle.at_set_ne c j x.geti _ hj]
    exact h.free_queued x.geti hmem hj

/-- After the right number of drops, the oldest chunk is the one after the
pilot's. -/
private theorem SyncFrame.front_seq {x : Circle}
    (hd : (c.setAt j (recvFrame (c.at' j) i.recv).chunk).Drops x)
    (hne : x.elems ≠ 0) (hcount : c.elems = x.elems + (p - s).toInt.toNat) :
    ((x.setLocked j false).at' x.geti).hdr.curSeq =
      p + BitVec.ofNat 32 (-(p - s).toInt).toNat + 1 := by
  have hseqs := seqs_released hd j
  rw [h.seqs] at hseqs
  have hk : (c.setAt j (recvFrame (c.at' j) i.recv).chunk).elems - x.elems =
      (p - s).toInt.toNat := by
    show c.elems - x.elems = _
    omega
  rw [hk] at hseqs
  have hhead := congrArg List.head? hseqs
  have hq : (x.setLocked j false).queued = x.queued := rfl
  unfold Circle.seqs seqsFrom at hhead
  rw [hq, Circle.queued_served hd.inv hne, ← List.map_drop, List.head?_map,
    List.head?_map, List.head?_drop, List.getElem?_range (by omega)] at hhead
  simp only [List.head?_cons, Option.map_some, Option.some.injEq] at hhead
  rw [hhead, seq_after_pilot]

private theorem SyncFrame.aligned_iff {x : Circle}
    (hd : (c.setAt j (recvFrame (c.at' j) i.recv).chunk).Drops x)
    (hlow : 2 * synchedDelta < alignedLen s p c.elems)
    (hhigh : alignedLen s p c.elems < c.maxqsz) :
    Aligned (c.setAt j (recvFrame (c.at' j) i.recv).chunk)
        (x.setLocked j false) s p ↔
      c.elems = x.elems + (p - s).toInt.toNat ∧
      (if (-(p - s).toInt).toNat = 0 then x.blockGet = false ∨ x.optim ≤ x.elems
        else x.blockGet = true ∧ x.optim = x.elems + (-(p - s).toInt).toNat) := by
  unfold alignedLen synchedDelta at *
  have hle : x.elems ≤ c.elems := hd.le
  have hcap : x.maxqsz = c.maxqsz := hd.cap
  have hseqs := seqs_released hd j
  have hpos := h.elems_ne
  by_cases hcount : c.elems = x.elems + (p - s).toInt.toNat
  · have hne : x.elems ≠ 0 := by omega
    have hinv : (x.setLocked j false).CursorInv := hd.inv.setAt _ _
    have hheld := Circle.heldFor_iff hinv hne (h.front_free hd hne)
      (show x.elems + (-(p - s).toInt).toNat ≤ x.maxqsz by omega)
      (h.front_seq hd hne hcount)
    have hdropped : (x.setLocked j false).seqs =
        (c.setAt j (recvFrame (c.at' j) i.recv).chunk).seqs.drop
          (p - s).toInt.toNat := by
      rw [hseqs]
      congr 1
      show c.elems - x.elems = _
      omega
    constructor
    · intro hal
      exact ⟨hcount, hheld.mp hal.held⟩
    · intro hgate
      exact ⟨hdropped, hheld.mpr hgate.2⟩
  · constructor
    · intro hal
      have hlen := congrArg List.length hal.dropped
      rw [List.length_drop, Circle.length_seqs, Circle.length_seqs] at hlen
      change x.elems = c.elems - (p - s).toInt.toNat at hlen
      omega
    · intro hgate
      exact absurd hgate.1 hcount

omit h in
/-- The count, the gate and the optimum after `force_optim`, against those of an
aligned queue: `n` chunks, the pilot `d` frames ahead, the optimum `m` asked for
and the present one `o`. -/
private theorem gate_arith {n o m : Nat} {b : Bool} {d : Int}
    (hpos : 0 < (n : Int) - d) :
    (n = (if o ≠ m ∧ m < n then m else n) + d.toNat ∧
      (if (-d).toNat = 0 then
        (if o ≠ m ∧ n ≤ m then true else b) = false ∨
          m ≤ if o ≠ m ∧ m < n then m else n
      else (if o ≠ m ∧ n ≤ m then true else b) = true ∧
        m = (if o ≠ m ∧ m < n then m else n) + (-d).toNat)) ↔
    if o = m then (d = 0 ∧ (b = false ∨ m ≤ n)) ∨
      (d < 0 ∧ b = true ∧ (m : Int) = n - d)
    else (m : Int) = n - d := by
  by_cases hsame : o = m
  · simp only [hsame, ne_eq, not_true_eq_false, false_and, if_false, if_true]
    rcases Int.lt_trichotomy d 0 with hd | hd | hd
    · rw [if_neg (by omega)]
      cases b
      · simp
        omega
      · simp only [true_and, hd]
        omega
    · subst hd
      simp
    · simp only [show ¬d < 0 by omega, show ¬d = 0 by omega, false_and, or_self,
        iff_false]
      omega
  · simp only [hsame, ne_eq, not_false_eq_true, true_and, if_false]
    by_cases hlt : m < n
    · simp only [hlt, if_true, show ¬n ≤ m by omega, if_false, Nat.le_refl,
        or_true]
      split
      · simp only [and_true]
        omega
      · constructor
        · intro hgate
          omega
        · intro hm
          omega
    · simp only [hlt, if_false, show n ≤ m by omega, if_true]
      split
      · simp only [Bool.true_eq_false, false_or]
        omega
      · simp only [true_and]
        omega

/-- The resync aligns the client exactly under the condition `ResyncExact`. -/
theorem aligned_iff_resyncExact
    (hlow : 2 * synchedDelta < alignedLen s p c.elems)
    (hhigh : alignedLen s p c.elems < c.maxqsz) :
    Aligned (c.setAt j (recvFrame (c.at' j) i.recv).chunk)
      (cli.resynced c j i) s p ↔ ResyncExact c s p := by
  have hinv : (c.setAt j (recvFrame (c.at' j) i.recv).chunk).CursorInv :=
    h.inv.setAt _ _
  have hdrops := Circle.drops_forceOptim hinv (c.elems + alignedLen s p c.elems)
  have hres : cli.resynced c j i =
      ((c.setAt j (recvFrame (c.at' j) i.recv).chunk).forceOptim
        (c.elems + alignedLen s p c.elems)).setLocked j false := by
    unfold Sclient.resynced
    rw [checkStream_resync h hlow hhigh]
    rfl
  rw [hres, h.aligned_iff hdrops hlow hhigh,
    Circle.forceOptim_elems _ _ hinv.geti, Circle.forceOptim_optim _ _ hinv.geti,
    Circle.forceOptim_blockGet _ _ hinv.geti]
  apply gate_arith
  unfold alignedLen synchedDelta at hlow
  omega

end

/-! ## A client in step with the pilot -/

/-- Twenty chunks, of which the frames 101 to 108 are queued. -/
def sampleQueue (optim : Nat) : Circle where
  queue := (List.range 20).map fun k =>
    ⟨{ BufHdr.zero with curSeq := BitVec.ofNat 32 (101 + k) }, [0], false⟩
  scrap := Chunk.new 1
  chunksz := 1
  maxqsz := 20
  optim := optim
  puti := 8
  geti := 0
  elems := 8
  blockGet := false

/-- The frame 109 arrives while the pilot has played 100, as this client has. -/
def sampleFrame : StreamIn where
  recv := [.data (BufHdr.encode
    { BufHdr.zero with
      frmSig := syncData, curSeq := 109, pilotSeq := 100, pilotQPerc := 50
      bufLen := 1 } ++ [7])]
  time := 6
  tick := 0
  sends := []

private theorem syncFrame_sample (optim : Nat)
    (h : optim = 10 ∨ optim = 18) :
    SyncFrame (Sclient.new 0 0) (sampleQueue optim)
      ((sampleQueue optim).qFeedup false).1 8 sampleFrame 100 100 := by
  rcases h with rfl | rfl <;>
  exact
    { cursors := ⟨by decide, by decide, by decide, by decide, by decide⟩
      int := by decide
      free := by decide +kernel
      slot := by decide +kernel
      ok := by decide +kernel
      sig := by decide +kernel
      pilotSeq := by decide +kernel
      played := by decide
      notPilot := by decide +kernel
      perc := by decide +kernel
      interval := by decide
      seqs := by decide +kernel }

/-- With the optimum at 18 already the resync asks for no change, which is
right. -/
theorem aligned_at_the_optimum :
    Aligned (((sampleQueue 18).qFeedup false).1.setAt 8
        (recvFrame (((sampleQueue 18).qFeedup false).1.at' 8)
          sampleFrame.recv).chunk)
      ((Sclient.new 0 0).resynced ((sampleQueue 18).qFeedup false).1 8
        sampleFrame) 100 100 :=
  (aligned_iff_resyncExact (syncFrame_sample 18 (Or.inr rfl))
    (by decide +kernel) (by decide +kernel)).mpr (by decide +kernel)

/-- With the optimum at 10 the client, which is in step with the pilot, is made
to wait for 9 further chunks. -/
theorem aligned_fails_in_step :
    ¬∀ cli before c j i s p, SyncFrame cli before c j i s p →
      2 * synchedDelta < alignedLen s p c.elems →
      alignedLen s p c.elems < c.maxqsz →
      Aligned (c.setAt j (recvFrame (c.at' j) i.recv).chunk)
        (cli.resynced c j i) s p := by
  intro h
  have hal := h _ _ _ _ _ _ _ (syncFrame_sample 10 (Or.inl rfl))
    (by decide +kernel) (by decide +kernel)
  obtain ⟨k, _, hsome | ⟨_, hsome⟩⟩ := hal.held.serves [] trivial rfl
  · have hnone : ((Sclient.new 0 0).resynced
        ((sampleQueue 10).qFeedup false).1 8 sampleFrame).qConsume.2 = none := by
      decide +kernel
    exact absurd (hnone.symm.trans hsome) (by simp)
  · have hnone : ((Sclient.new 0 0).resynced
        ((sampleQueue 10).qFeedup false).1 8
          sampleFrame).qConsume.1.qConsume.2 = none := by
      decide +kernel
    exact absurd (hnone.symm.trans hsome) (by simp)

end RoomSpeaker
