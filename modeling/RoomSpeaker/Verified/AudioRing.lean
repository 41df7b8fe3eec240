import RoomSpeaker.Foundation.Ring
import RoomSpeaker.Foundation.Run
import RoomSpeaker.Model.AoCls

/-!
# The Android output does not overwrite what is queued

The slots in the buffer queue are consecutive slots of `sbuf`, and the slot that
`play` fills next comes right behind them.  As long as the queue has room that
slot is not among them; draining takes slots away at the other end.

## Main results

* `inv_step` — this is kept by draining and by every step of `play`.
* `turn_progress` — a step of `play` either waits for the queue or brings the
  call nearer to its end.
* `neverOverwrites_run` — what holds in every run.
-/

namespace RoomSpeaker

open Foundation

namespace AoCls

/-! ## The slots -/

/-- The buffers queued are `e` consecutive slots from slot `g` on, and the next
slot follows them. -/
def OnRing (s : AoCls) (g e : Nat) : Prop :=
  e ≤ s.buffers ∧
    s.queue.map Queued.off = (window s.buffers g e).map (· * s.buffSz) ∧
    s.sbuffCount = (g + e) % s.buffers * s.buffSz

theorem OnRing.length {s : AoCls} {g e : Nat} (h : s.OnRing g e) :
    s.queue.length = e := by
  have hlen := congrArg List.length h.2.1
  simpa using hlen

/-- Two slots do not meet. -/
theorem slots_apart {i j z : Nat} (h : i ≠ j) :
    i * z + z ≤ j * z ∨ j * z + z ≤ i * z := by
  rcases Nat.lt_or_gt_of_ne h with hlt | hgt
  · apply Or.inl
    rw [← Nat.succ_mul]
    exact Nat.mul_le_mul_right z hlt
  · apply Or.inr
    rw [← Nat.succ_mul]
    exact Nat.mul_le_mul_right z hgt

/-- The next slot lies in `sbuf`. -/
theorem OnRing.inside {s : AoCls} {g e : Nat} (h : s.OnRing g e)
    (hpos : 0 < s.buffers) :
    s.sbuffCount + s.buffSz ≤ s.buffers * s.buffSz := by
  rw [h.2.2, ← Nat.succ_mul]
  exact Nat.mul_le_mul_right _ (Nat.mod_lt _ hpos)

/-- While there is room, the next slot meets no slot that is queued. -/
theorem OnRing.fresh {s : AoCls} {g e : Nat} (h : s.OnRing g e)
    (hroom : s.queue.length < s.buffers) :
    ∀ q ∈ s.queue, q.off + s.buffSz ≤ s.sbuffCount ∨
      s.sbuffCount + s.buffSz ≤ q.off := by
  intro q hq
  have hmem : q.off ∈ (window s.buffers g e).map (· * s.buffSz) :=
    h.2.1 ▸ List.mem_map_of_mem hq
  obtain ⟨i, hi, hoff⟩ := List.mem_map.mp hmem
  have hnext : (g + e) % s.buffers ∉ window s.buffers g e :=
    next_notMem_window (h.length ▸ hroom)
  have hne : i ≠ (g + e) % s.buffers := by
    rintro rfl
    exact hnext hi
  rw [← hoff, h.2.2]
  exact slots_apart hne

theorem OnRing.drained {s : AoCls} {g e : Nat} (h : s.OnRing g e) :
    ∃ g' e', (s.step .drained).OnRing g' e' := by
  cases e with
  | zero =>
      have hnil : s.queue = [] := List.length_eq_zero_iff.mp h.length
      refine ⟨g, 0, h.1, ?_, h.2.2⟩
      simp [step, hnil]
  | succ e =>
      refine ⟨g + 1, e, by have := h.1; exact (by omega : e ≤ s.buffers), ?_, ?_⟩
      · have htail := congrArg List.tail h.2.1
        rw [window_succ, List.map_cons, List.tail_cons, ← List.map_tail] at htail
        exact htail
      · have hcount : s.sbuffCount = (g + (e + 1)) % s.buffers * s.buffSz := h.2.2
        rw [show (s.step .drained).sbuffCount = s.sbuffCount from rfl, hcount,
          Nat.add_assoc, Nat.add_comm 1 e]
        rfl

/-- The cursor behind an enqueued slot. -/
theorem OnRing.next {s : AoCls} {g e : Nat} (h : s.OnRing g e) :
    (s.sbuffCount + s.buffSz) % (s.buffers * s.buffSz) =
      (g + (e + 1)) % s.buffers * s.buffSz := by
  rw [h.2.2, ← Nat.succ_mul, Nat.mul_mod_mul_right, Nat.succ_eq_add_one,
    Nat.mod_add_mod, Nat.add_assoc]

/-! ## The invariant -/

/-- The pieces enqueued are the audio before `bufLoc`, and `len` bytes are
left. -/
structure Cut (s : AoCls) (pb : List Byte) (bufLoc len : Nat) : Prop where
  asked : s.asked = pb
  sum : bufLoc + len = pb.length
  done : s.pieces.flatten = pb.take bufLoc

/-- How far the call has come. -/
def CallInv (s : AoCls) : Prop :=
  match s.pc with
  | .idle => s.pieces.flatten = s.asked
  | .waiting pb => s.asked = pb ∧ s.pieces = []
  | .filling pb bufLoc len => s.Cut pb bufLoc len
  | .copying pb bufLoc len =>
      s.Cut pb bufLoc len ∧ 0 < len ∧ s.queue.length < s.buffers
  | .enqueuing pb bufLoc len =>
      s.Cut pb bufLoc len ∧ 0 < len ∧ s.queue.length < s.buffers ∧
        readAt s.sbuf s.sbuffCount (s.toCopy len) =
          readAt pb bufLoc (s.toCopy len)

structure Inv (s : AoCls) : Prop where
  pos : 0 < s.buffers
  word : s.buffers < 2 ^ 64
  cell : 0 < s.buffSz
  mem : s.sbuf.length = s.buffers * s.buffSz
  ring : ∃ g e, s.OnRing g e
  size : ∀ q ∈ s.queue, q.size ≤ s.buffSz
  intact : ∀ q ∈ s.queue, readAt s.sbuf q.off q.size = q.audio
  short : ∀ p ∈ s.pieces, p.length ≤ s.buffSz
  call : s.CallInv

theorem inv_initAo (fresh : Nat → Byte) : (initAo fresh).Inv where
  pos := by
    show 0 < 8
    decide
  word := by
    show 8 < 2 ^ 64
    decide
  cell := by
    show 0 < 4096
    decide
  mem := by simp only [initAo, List.length_map, List.length_range]
  ring := ⟨0, 0, Nat.zero_le _, rfl, (Nat.zero_mul _).symm⟩
  size := fun q hq => absurd hq List.not_mem_nil
  intact := fun q hq => absurd hq List.not_mem_nil
  short := fun p hp => absurd hp List.not_mem_nil
  call := List.flatten_nil

theorem toCopy_eq (s : AoCls) (len : Nat) : s.toCopy len = min len s.buffSz := by
  unfold toCopy
  split <;> omega

/-- The unsigned difference is not 0 exactly when the queue is not full. -/
theorem Inv.hasRoom_iff {s : AoCls} (h : s.Inv) :
    s.hasRoom = true ↔ s.queue.length < s.buffers := by
  obtain ⟨g, e, hring⟩ := h.ring
  have hword := h.word
  have hlen := hring.length
  have hfull := hring.1
  unfold hasRoom
  rw [decide_eq_true_eq]
  omega

/-! ## Steps -/

/-- Draining leaves the call where it is. -/
theorem callInv_drained {s : AoCls} (h : s.CallInv) :
    (s.step .drained).CallInv := by
  have hlen : s.queue.tail.length ≤ s.queue.length := by
    rw [List.length_tail]
    omega
  cases hpc : s.pc with
  | idle =>
      simp only [CallInv, hpc, step] at h ⊢
      exact h
  | waiting pb =>
      simp only [CallInv, hpc, step] at h ⊢
      exact h
  | filling pb bufLoc len =>
      simp only [CallInv, hpc, step] at h ⊢
      exact ⟨h.asked, h.sum, h.done⟩
  | copying pb bufLoc len =>
      simp only [CallInv, hpc, step] at h ⊢
      obtain ⟨hcut, hleft, hroom⟩ := h
      exact ⟨⟨hcut.asked, hcut.sum, hcut.done⟩, hleft, by omega⟩
  | enqueuing pb bufLoc len =>
      simp only [CallInv, hpc, step] at h ⊢
      obtain ⟨hcut, hleft, hroom, hcopied⟩ := h
      exact ⟨⟨hcut.asked, hcut.sum, hcut.done⟩, hleft, by omega, hcopied⟩

theorem inv_drained {s : AoCls} (h : s.Inv) : (s.step .drained).Inv where
  pos := h.pos
  word := h.word
  cell := h.cell
  mem := h.mem
  ring := by
    obtain ⟨g, e, hring⟩ := h.ring
    exact hring.drained
  size := fun q hq => h.size q (List.mem_of_mem_tail hq)
  intact := fun q hq => h.intact q (List.mem_of_mem_tail hq)
  short := h.short
  call := callInv_drained h.call

theorem inv_play {s : AoCls} (h : s.Inv) (pb : List Byte) :
    (s.step (.play pb)).Inv := by
  unfold step
  by_cases hidle : s.pc = .idle
  · simp only [if_pos hidle]
    exact
      { pos := h.pos
        word := h.word
        cell := h.cell
        mem := h.mem
        ring := h.ring
        size := h.size
        intact := h.intact
        short := fun p hp => absurd hp List.not_mem_nil
        call := ⟨rfl, rfl⟩ }
  · simp only [if_neg hidle]
    exact h

/-- The copy goes into the slot behind those that are queued. -/
theorem inv_copy {s : AoCls} (h : s.Inv) {pb : List Byte} {bufLoc len : Nat}
    (hpc : s.pc = .copying pb bufLoc len) : s.turn.Inv := by
  have hcall := h.call
  simp only [CallInv, hpc] at hcall
  obtain ⟨hcut, hleft, hroom⟩ := hcall
  obtain ⟨g, e, hring⟩ := h.ring
  have hcopy := s.toCopy_eq len
  have hsum := hcut.sum
  have hlen : (readAt pb bufLoc (s.toCopy len)).length = s.toCopy len := by
    rw [readAt, List.length_take, List.length_drop]
    omega
  have hin := hring.inside h.pos
  have hmem := h.mem
  have hfits : s.sbuffCount + (readAt pb bufLoc (s.toCopy len)).length ≤
      s.sbuf.length := by
    omega
  have hturn : s.turn =
      { s with
        sbuf := storeAt s.sbuf s.sbuffCount (readAt pb bufLoc (s.toCopy len))
        pc := .enqueuing pb bufLoc len } := by
    simp only [turn, hpc]
  rw [hturn]
  refine ⟨h.pos, h.word, h.cell, ?_, ⟨g, e, hring⟩, h.size, ?_, h.short, ?_⟩
  · exact (length_storeAt hfits).trans h.mem
  · intro q hq
    have hsize := h.size q hq
    have hsame := h.intact q hq
    rcases hring.fresh hroom q hq with hbefore | hafter
    · exact (readAt_storeAt_before hfits (by omega)).trans hsame
    · exact (readAt_storeAt_after hfits (by omega)).trans hsame
  · refine ⟨⟨hcut.asked, hcut.sum, hcut.done⟩, hleft, hroom, ?_⟩
    show readAt (storeAt s.sbuf s.sbuffCount _) s.sbuffCount (s.toCopy len) = _
    conv =>
      lhs
      arg 3
      rw [← hlen]
    exact readAt_storeAt hfits

/-- The slot that was filled joins the queue. -/
theorem inv_enqueue {s : AoCls} (h : s.Inv) {pb : List Byte}
    {bufLoc len : Nat} (hpc : s.pc = .enqueuing pb bufLoc len) :
    s.turn.Inv := by
  have hcall := h.call
  simp only [CallInv, hpc] at hcall
  obtain ⟨hcut, hleft, hroom, hcopied⟩ := hcall
  obtain ⟨g, e, hring⟩ := h.ring
  have hcopy := s.toCopy_eq len
  have hsum := hcut.sum
  have hturn : s.turn =
      { s with
        queue := s.queue ++ [⟨s.sbuffCount, s.toCopy len,
          readAt s.sbuf s.sbuffCount (s.toCopy len)⟩]
        pieces := s.pieces ++ [readAt s.sbuf s.sbuffCount (s.toCopy len)]
        sbuffCount := (s.sbuffCount + s.buffSz) % (s.buffers * s.buffSz)
        pc := .filling pb (bufLoc + s.toCopy len) (len - s.toCopy len) } := by
    simp only [turn, hpc]
  rw [hturn]
  refine ⟨h.pos, h.word, h.cell, h.mem, ⟨g, e + 1, ?_⟩, ?_, ?_, ?_, ?_⟩
  · refine ⟨?_, ?_, hring.next⟩
    · show e + 1 ≤ s.buffers
      have hlen := hring.length
      omega
    · show (s.queue ++ [_]).map Queued.off = _
      rw [List.map_append, hring.2.1, window_succ_last, List.map_append,
        List.map_singleton, List.map_singleton, hring.2.2]
  · intro q hq
    rcases List.mem_append.mp hq with hq | hq
    · exact h.size q hq
    · rw [List.mem_singleton.mp hq]
      show s.toCopy len ≤ s.buffSz
      omega
  · intro q hq
    rcases List.mem_append.mp hq with hq | hq
    · exact h.intact q hq
    · rw [List.mem_singleton.mp hq]
  · intro p hp
    rcases List.mem_append.mp hp with hp | hp
    · exact h.short p hp
    · rw [List.mem_singleton.mp hp, readAt, List.length_take]
      show min (s.toCopy len) _ ≤ s.buffSz
      omega
  · refine ⟨hcut.asked, ?_, ?_⟩
    · omega
    · show (s.pieces ++ [_]).flatten = _
      rw [List.flatten_append, hcut.done, hcopied, List.flatten_singleton,
        readAt, List.take_add]

theorem inv_turn {s : AoCls} (h : s.Inv) : s.turn.Inv := by
  have hcall := h.call
  cases hpc : s.pc with
  | idle =>
      have hturn : s.turn = s := by simp only [turn, hpc]
      rw [hturn]
      exact h
  | waiting pb =>
      simp only [CallInv, hpc] at hcall
      by_cases hbusy : s.queue.length ≠ 0
      · have hturn : s.turn = s := by simp only [turn, hpc, if_pos hbusy]
        rw [hturn]
        exact h
      · have hturn : s.turn = { s with pc := .filling pb 0 pb.length } := by
          simp only [turn, hpc, if_neg hbusy]
        rw [hturn]
        refine ⟨h.pos, h.word, h.cell, h.mem, h.ring, h.size, h.intact, h.short,
          ⟨hcall.1, Nat.zero_add _, ?_⟩⟩
        show s.pieces.flatten = _
        rw [hcall.2]
        rfl
  | filling pb bufLoc len =>
      simp only [CallInv, hpc] at hcall
      by_cases hdone : len = 0
      · have hturn : s.turn = { s with pc := .idle } := by
          simp only [turn, hpc, if_pos hdone]
        rw [hturn]
        refine ⟨h.pos, h.word, h.cell, h.mem, h.ring, h.size, h.intact, h.short,
          ?_⟩
        show s.pieces.flatten = s.asked
        have hsum := hcall.sum
        rw [hcall.done, hcall.asked, List.take_of_length_le (by omega)]
      · by_cases hroom : s.hasRoom = true
        · have hturn : s.turn = { s with pc := .copying pb bufLoc len } := by
            simp only [turn, hpc, if_neg hdone, if_pos hroom]
          rw [hturn]
          exact ⟨h.pos, h.word, h.cell, h.mem, h.ring, h.size, h.intact, h.short,
            ⟨hcall.asked, hcall.sum, hcall.done⟩, Nat.pos_of_ne_zero hdone,
            h.hasRoom_iff.mp hroom⟩
        · have hturn : s.turn = s := by
            simp only [turn, hpc, if_neg hdone, if_neg hroom]
          rw [hturn]
          exact h
  | copying pb bufLoc len => exact inv_copy h hpc
  | enqueuing pb bufLoc len => exact inv_enqueue h hpc

theorem inv_step {s : AoCls} (h : s.Inv) (e : Ev) : (s.step e).Inv := by
  cases e with
  | drained => exact inv_drained h
  | play pb => exact inv_play h pb
  | turn => exact inv_turn h

/-! ## Progress -/

/-- The number of pieces `len` bytes are cut into. -/
def bufRequired (s : AoCls) (len : Nat) : Nat := (len + s.buffSz - 1) / s.buffSz

theorem bufRequired_zero {s : AoCls} (h : 0 < s.buffSz) : s.bufRequired 0 = 0 := by
  rw [bufRequired, Nat.zero_add]
  exact Nat.div_eq_of_lt (by omega)

/-- One piece less is left after a copy. -/
theorem bufRequired_toCopy {s : AoCls} (h : 0 < s.buffSz) {len : Nat}
    (hlen : 0 < len) :
    s.bufRequired len = s.bufRequired (len - s.toCopy len) + 1 := by
  rw [toCopy_eq]
  rcases Nat.le_total len s.buffSz with hle | hge
  · rw [Nat.min_eq_left hle, Nat.sub_self, bufRequired_zero h, bufRequired]
    exact Nat.div_eq_of_lt_le (by omega) (by omega)
  · rw [Nat.min_eq_right hge, bufRequired, bufRequired,
      ← Nat.add_div_right _ h]
    congr 1
    omega

/-- The steps a call has left if it need not wait. -/
def turnsLeft (s : AoCls) : Nat :=
  match s.pc with
  | .idle => 0
  | .waiting pb => 3 * s.bufRequired pb.length + 2
  | .filling _ _ len => 3 * s.bufRequired len + 1
  | .copying _ _ len => 3 * s.bufRequired len
  | .enqueuing _ _ len => 3 * s.bufRequired len - 1

/-- A call with no step left has returned. -/
theorem Inv.idle_of_turnsLeft {s : AoCls} (h : s.Inv) (hzero : s.turnsLeft = 0) :
    s.pc = .idle := by
  have hcall := h.call
  cases hpc : s.pc with
  | idle => rfl
  | waiting pb =>
      simp only [turnsLeft, hpc] at hzero
      omega
  | filling pb bufLoc len =>
      simp only [turnsLeft, hpc] at hzero
      omega
  | copying pb bufLoc len =>
      simp only [turnsLeft, hpc] at hzero
      simp only [CallInv, hpc] at hcall
      have hpieces := bufRequired_toCopy h.cell hcall.2.1
      omega
  | enqueuing pb bufLoc len =>
      simp only [turnsLeft, hpc] at hzero
      simp only [CallInv, hpc] at hcall
      have hpieces := bufRequired_toCopy h.cell hcall.2.1
      omega

/-- With an empty queue a step brings the call nearer to its end. -/
theorem turn_progress {s : AoCls} (h : s.Inv) (hempty : s.queue = []) :
    s.turn.turnsLeft = s.turnsLeft - 1 := by
  have hcall := h.call
  cases hpc : s.pc with
  | idle => simp only [turn, hpc, turnsLeft]
  | waiting pb =>
      simp only [turn, hpc, hempty, List.length_nil, ne_eq, not_true, if_false,
        turnsLeft]
      show 3 * s.bufRequired pb.length + 1 = _
      omega
  | filling pb bufLoc len =>
      by_cases hdone : len = 0
      · subst hdone
        simp only [turn, hpc, turnsLeft, if_true, bufRequired_zero h.cell]
      · have hroom : s.hasRoom = true := by
          rw [h.hasRoom_iff, hempty]
          exact h.pos
        simp only [turn, hpc, if_neg hdone, if_pos hroom, turnsLeft]
        show 3 * s.bufRequired len = _
        omega
  | copying pb bufLoc len =>
      simp only [turn, hpc, turnsLeft]
      rfl
  | enqueuing pb bufLoc len =>
      simp only [CallInv, hpc] at hcall
      have hpieces := bufRequired_toCopy h.cell hcall.2.1
      simp only [turn, hpc, turnsLeft]
      show 3 * s.bufRequired (len - s.toCopy len) + 1 = _
      omega

theorem turn_buffers (s : AoCls) : s.turn.buffers = s.buffers := by
  cases hpc : s.pc with
  | idle => simp only [turn, hpc]
  | waiting pb =>
      simp only [turn, hpc]
      split <;> rfl
  | filling pb bufLoc len =>
      simp only [turn, hpc]
      split
      · rfl
      · split <;> rfl
  | copying pb bufLoc len => simp only [turn, hpc]
  | enqueuing pb bufLoc len => simp only [turn, hpc]

theorem run_drained (d : Nat) : ∀ s : AoCls,
    run step s (List.replicate d .drained) = { s with queue := s.queue.drop d } := by
  induction d with
  | zero => intro s; rfl
  | succ d ih =>
      intro s
      rw [List.replicate_succ, run_cons, ih]
      simp only [step, List.drop_tail]

/-- The queue drains and `play` takes a step. -/
def round (d : Nat) : List Ev := List.replicate d .drained ++ [.turn]

/-- In rounds that drain the queue the call returns. -/
theorem returns_of_rounds (ds : List Nat) :
    ∀ s : AoCls, s.Inv → (∀ d ∈ ds, s.buffers ≤ d) →
      s.turnsLeft ≤ ds.length → (run step s (ds.flatMap round)).pc = .idle := by
  induction ds with
  | nil =>
      intro s h _ hleft
      exact h.idle_of_turnsLeft (Nat.le_zero.mp hleft)
  | cons d ds ih =>
      intro s h hds hleft
      obtain ⟨g, e, hring⟩ := h.ring
      have hd := hds d List.mem_cons_self
      have hlen := hring.length
      have hfull := hring.1
      have hempty : s.queue.drop d = [] := List.drop_eq_nil_of_le (by omega)
      have hdrain := run_drained d s
      rw [hempty] at hdrain
      have hinv : ({ s with queue := [] } : AoCls).Inv := by
        rw [← hdrain]
        exact (throughout_of_inv (P := Inv) (fun _ e h => inv_step h e)
          (fun _ h => h) _ _ h).last
      rw [List.flatMap_cons, round, List.append_assoc, run_append, hdrain]
      show (run step ({ s with queue := [] } : AoCls).turn _).pc = _
      apply ih
      · exact inv_turn hinv
      · intro d' hd'
        rw [turn_buffers]
        exact hds d' (List.mem_cons_of_mem d hd')
      · have hstep := turn_progress hinv rfl
        have hsame : ({ s with queue := [] } : AoCls).turnsLeft = s.turnsLeft := rfl
        rw [hstep, hsame]
        rw [List.length_cons] at hleft
        omega

/-! ## Runs -/

/-- A copy of `play` goes into a slot that is not queued, and stays inside `sbuf`
and inside the caller's buffer. -/
structure CopyFits (s : AoCls) (pb : List Byte) (bufLoc len : Nat) : Prop where
  fresh : ∀ q ∈ s.queue, q.off + s.buffSz ≤ s.sbuffCount ∨
    s.sbuffCount + s.buffSz ≤ q.off
  slot : s.toCopy len ≤ s.buffSz
  inSbuf : s.sbuffCount + s.toCopy len ≤ s.sbuf.length
  inCaller : bufLoc + s.toCopy len ≤ pb.length

/-- If the step is a copy, it fits. -/
def CopiesFit (s : AoCls) (e : Ev) : Prop :=
  ∀ pb bufLoc len, s.pc = .copying pb bufLoc len → e = .turn →
    s.CopyFits pb bufLoc len

/-- The queued slots hold what was enqueued; the pieces of the call are the audio
it was given, as far as it has come; and the call returns if the queue drains. -/
structure Plays (s : AoCls) : Prop where
  queued : s.queue.length ≤ s.buffers
  intact : ∀ q ∈ s.queue, readAt s.sbuf q.off q.size = q.audio
  short : ∀ p ∈ s.pieces, p.length ≤ s.buffSz
  front : s.pieces.flatten <+: s.asked
  whole : s.pc = .idle → s.pieces.flatten = s.asked
  returns : ∀ ds : List Nat, (∀ d ∈ ds, s.buffers ≤ d) → s.turnsLeft ≤ ds.length →
    (run step s (ds.flatMap round)).pc = .idle

theorem copiesFit_of_inv {s : AoCls} (h : s.Inv) (e : Ev) : s.CopiesFit e := by
  intro pb bufLoc len hpc _
  have hcall := h.call
  simp only [CallInv, hpc] at hcall
  obtain ⟨hcut, _, hroom⟩ := hcall
  obtain ⟨g, n, hring⟩ := h.ring
  have hcopy := s.toCopy_eq len
  have hin := hring.inside h.pos
  have hmem := h.mem
  have hsum := hcut.sum
  exact ⟨hring.fresh hroom, by omega, by omega, by omega⟩

/-- The audio enqueued is the front of what the call was given. -/
theorem Inv.front {s : AoCls} (h : s.Inv) : s.pieces.flatten <+: s.asked := by
  have hcall := h.call
  cases hpc : s.pc with
  | idle =>
      simp only [CallInv, hpc] at hcall
      exact hcall ▸ List.prefix_refl _
  | waiting pb =>
      simp only [CallInv, hpc] at hcall
      rw [hcall.2]
      exact List.nil_prefix
  | filling pb bufLoc len =>
      simp only [CallInv, hpc] at hcall
      rw [hcall.done, hcall.asked]
      exact List.take_prefix _ _
  | copying pb bufLoc len =>
      simp only [CallInv, hpc] at hcall
      rw [hcall.1.done, hcall.1.asked]
      exact List.take_prefix _ _
  | enqueuing pb bufLoc len =>
      simp only [CallInv, hpc] at hcall
      rw [hcall.1.done, hcall.1.asked]
      exact List.take_prefix _ _

theorem plays_of_inv {s : AoCls} (h : s.Inv) : s.Plays where
  queued := by
    obtain ⟨g, e, hring⟩ := h.ring
    rw [hring.length]
    exact hring.1
  intact := h.intact
  short := h.short
  front := h.front
  whole := by
    intro hidle
    have hcall := h.call
    simp only [CallInv, hidle] at hcall
    exact hcall
  returns := fun ds => returns_of_rounds ds s h

/-- Whatever is played and however the queue drains, no copy meets a slot that
is queued, and each call enqueues what it was given. -/
theorem neverOverwrites_run (fresh : Nat → Byte) (evs : List Ev) :
    Along step CopiesFit (initAo fresh) evs ∧
      Throughout step Plays (initAo fresh) evs := by
  have hinit := inv_initAo fresh
  constructor
  · apply along_of_inv (I := Inv) (C := fun _ _ => True)
    · intro s e h _
      exact inv_step h e
    · intro s e h _
      exact copiesFit_of_inv h e
    · exact hinit
    · exact along_true step evs _
  · apply throughout_of_inv (I := Inv)
    · intro s e h
      exact inv_step h e
    · intro s h
      exact plays_of_inv h
    · exact hinit

end AoCls

end RoomSpeaker
