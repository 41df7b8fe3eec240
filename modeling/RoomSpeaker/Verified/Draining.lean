import RoomSpeaker.Foundation.History
import RoomSpeaker.Verified.FailedReceive
import RoomSpeaker.Verified.Ownership
import RoomSpeaker.Verified.Playback

/-!
# When nothing more arrives (`player::play`, `_fill_q`)

With the network silent the player is alone with the queue.  It goes on playing,
but stops before the queue is empty: below `Q_ALMOST_EMPTY` chunks it first looks
whether the optimum is there, and without new frames it never will be again.

A turn of the player's loop ends in the call that fills, in a `q_consume` that
returns null, or in a chunk that is played.  Each is a run of a fixed number of
steps, and the threshold, the two flags and the length decide which one it is.

## Main results

* `fill_turn`, `refused_turn`, `play_turn` — what each kind of turn does.
* `unstarted_heard` — a player that cannot start never plays again.
* `runs_dry` — what is still played from any state of any run, and when.
-/

namespace RoomSpeaker

open Foundation

/-! ## The player alone -/

/-- The program after `n` steps of the player. -/
def Speaker.playN (s : Speaker) (n : Nat) : Speaker :=
  run Speaker.step s (List.replicate n .play)

/-- What these steps play. -/
def Speaker.heard (s : Speaker) (n : Nat) : List Content :=
  trace Speaker.step Speaker.played s (List.replicate n .play)

theorem heard_add (s : Speaker) (m n : Nat) :
    s.heard (m + n) = s.heard m ++ (s.playN m).heard n := by
  unfold Speaker.heard Speaker.playN
  rw [List.replicate_add, trace_append]

theorem playN_add (s : Speaker) (m n : Nat) :
    s.playN (m + n) = (s.playN m).playN n := by
  unfold Speaker.playN
  rw [List.replicate_add, run_append]

/-- More steps play more, and what was played stays played. -/
theorem heard_prefix (s : Speaker) {m n : Nat} (h : m ≤ n) :
    s.heard m <+: s.heard n := by
  obtain ⟨k, rfl⟩ := Nat.exists_eq_add_of_le h
  rw [heard_add]
  exact List.prefix_append _ _

/-- A step in which nothing is connected and nothing arrives. -/
def SpkOp.Silent : SpkOp → Prop
  | .net i => i.up = false ∧ i.ready = false
  | .play => True

/-- The number of steps of the player. -/
def playCount (ops : List SpkOp) : Nat :=
  ops.countP fun op => match op with
    | .play => true
    | .net _ => false

/-- A network thread that holds nothing does nothing while the network is
silent. -/
theorem netStep_silent (s : Speaker) (hidle : s.net.holds = none) (i : NetIn)
    (hsilent : (SpkOp.net i).Silent) : s.netStep i = s := by
  unfold Speaker.netStep
  cases hpc : s.net with
  | lost => simp only [hsilent.1, Bool.false_eq_true, if_false]
  | loop => simp only [hsilent.2, Bool.false_eq_true, if_false]
  | _ =>
      rw [hpc] at hidle
      cases hidle

/-- So only the player's steps count. -/
theorem silent_run (ops : List SpkOp) (hsilent : ∀ op ∈ ops, op.Silent) :
    ∀ s : Speaker, s.net.holds = none →
      run Speaker.step s ops = s.playN (playCount ops) ∧
      trace Speaker.step Speaker.played s ops = s.heard (playCount ops) := by
  induction ops with
  | nil => intro s _; exact ⟨rfl, rfl⟩
  | cons op ops ih =>
      intro s hidle
      have hrest := ih fun o ho => hsilent o (List.mem_cons_of_mem op ho)
      cases op with
      | net i =>
          have hsame : s.step (.net i) = s :=
            netStep_silent s hidle i (hsilent _ List.mem_cons_self)
          rw [run_cons, trace, hsame]
          exact hrest s hidle
      | play =>
          have hcount : playCount (.play :: ops) = 1 + playCount ops := by
            rw [playCount, List.countP_cons_of_pos rfl, Nat.add_comm]
            rfl
          have hnet : (s.step .play).net.holds = none := by
            rw [show (s.step .play).net = s.net from net_playStep s]
            exact hidle
          obtain ⟨hrun, htrace⟩ := hrest (s.step .play) hnet
          rw [run_cons, trace, hcount, playN_add, heard_add, hrun, htrace]
          exact ⟨rfl, by rw [Speaker.heard, Speaker.heard, List.replicate_one,
            trace, trace, List.append_nil]; rfl⟩

/-! ## The queue between two turns -/

namespace Circle

@[simp] theorem length_contents (c : Circle) : c.contents.length = c.elems := by
  rw [contents, List.length_map, length_queued]

/-- The queue after the oldest slot was handed out, cleared and given back. -/
def recycled (c : Circle) : Circle :=
  (c.served.assign (.slot c.geti) (c.served.at' c.geti).clear).release
    (some (.slot c.geti))

theorem at_recycled_ne (c : Circle) {j : Nat} (h : j ≠ c.geti) :
    c.recycled.at' j = c.at' j := by
  rw [recycled, release, assign, deref, assign, at_set_ne _ _ _ _ h,
    at_set_ne _ _ _ _ h]
  exact at_setLocked_ne c c.geti j true h

theorem CursorInv.recycled {c : Circle} (h : c.CursorInv) (hne : c.elems ≠ 0) :
    c.recycled.CursorInv :=
  ((h.served hne).setAt _ _).setAt _ _

theorem lock_recycled {c : Circle} (h : c.CursorInv) (hfree : ∀ j, c.lock j = false)
    (j : Nat) : c.recycled.lock j = false := by
  by_cases hj : j = c.geti
  · subst hj
    have hlen : c.geti < (c.served.setAt c.geti
        (c.served.at' c.geti).clear).queue.length := by
      show c.geti < ((c.queue.set _ _).set _ _).length
      rw [List.length_set, List.length_set, h.pool]
      exact h.geti
    show (Circle.at' _ _).locked = false
    rw [show c.recycled = (c.served.setAt c.geti
        (c.served.at' c.geti).clear).setLocked c.geti false from rfl,
      at_setLocked_self _ _ _ hlen]
  · rw [lock, at_recycled_ne c hj]
    exact hfree j

theorem contents_recycled {c : Circle} (h : c.CursorInv) (hne : c.elems ≠ 0)
    (hroom : c.elems ≤ c.maxqsz) :
    c.contents = (c.at' c.geti).content :: c.recycled.contents := by
  have hqueued : c.queued = c.geti :: c.recycled.queued := queued_served h hne
  have hnodup : c.queued.Nodup := window_nodup hroom
  rw [hqueued, List.nodup_cons] at hnodup
  rw [contents, hqueued, List.map_cons, contents]
  congr 1
  apply List.map_congr_left
  intro j hj
  rw [at_recycled_ne c (fun heq => hnodup.1 (heq ▸ hj))]

end Circle

/-- The player stands at the head of its loop, and no slot is locked. -/
structure Speaker.Ready (s : Speaker) : Prop where
  head : s.play = .loop
  cursors : s.rq.CursorInv
  room : s.rq.elems ≤ s.rq.maxqsz
  free : ∀ j, s.rq.lock j = false

/-- The player finds the queue low. -/
def Speaker.Low (s : Speaker) : Prop :=
  s.rq.length < s.fillingsz ∨ s.filling = true

/-! ## Turns -/

/-- A turn that ends in `_fill_q`. -/
def Speaker.filled (s : Speaker) : Speaker :=
  { s with
    filling := (s.filling || decide (s.rq.length = 0)) &&
      decide (s.rq.length ≤ s.rq.optim)
    fillingsz := s.rq.optim }

/-- A turn in which `q_consume` returns null. -/
def Speaker.refused (s : Speaker) : Speaker :=
  { s with fillingsz := qAlmostEmpty, rq := s.rq.refused }

/-- A turn in which the oldest chunk is played. -/
def Speaker.playedOne (s : Speaker) : Speaker :=
  { s with
    fillingsz := qAlmostEmpty
    rq := s.rq.recycled
    cli := s.cli.updateFrame s.rq.recycled (s.rq.at' s.rq.geti).hdr }

section Turns

variable {s : Speaker}

theorem Speaker.Ready.filled (h : s.Ready) : s.filled.Ready :=
  ⟨h.head, h.cursors, h.room, h.free⟩

theorem Speaker.Ready.refused (h : s.Ready) : s.refused.Ready :=
  ⟨h.head, (Circle.drops_refused h.cursors).inv, h.room, h.free⟩

theorem Speaker.Ready.playedOne (h : s.Ready) (hne : s.rq.elems ≠ 0) :
    s.playedOne.Ready :=
  ⟨h.head, h.cursors.recycled hne, Nat.le_trans (Nat.sub_le _ _) h.room,
    Circle.lock_recycled h.cursors h.free⟩

theorem fill_turn (h : s.Ready) (hlow : s.Low) :
    s.playN 4 = s.filled ∧ s.heard 4 = [] := by
  obtain ⟨rq, cli, net, play, filling, fillingsz⟩ := s
  obtain rfl : play = .loop := h.head
  have hlow' : rq.length < fillingsz ∨ filling = true := hlow
  constructor
  · simp [Speaker.playN, Speaker.step, Speaker.playStep, List.replicate_succ, hlow',
      Speaker.filled]
  · simp [Speaker.heard, trace, Speaker.step, Speaker.playStep, List.replicate_succ,
      hlow', Speaker.played]

theorem refused_turn (h : s.Ready) (hlow : ¬s.Low)
    (hnull : s.rq.blockGet = true ∨ s.rq.elems = 0) :
    s.playN 2 = s.refused ∧ s.heard 2 = [] := by
  obtain ⟨rq, cli, net, play, filling, fillingsz⟩ := s
  obtain rfl : play = .loop := h.head
  have hlow' : ¬(rq.length < fillingsz ∨ filling = true) := hlow
  have hcall : rq.qConsume = (rq.refused, none) := by
    rcases rq.qConsume_cases with ⟨hne, hopen, _⟩ | ⟨_, hcall⟩
    · rcases hnull with hblock | hzero
      · exact absurd (hblock.symm.trans hopen) (by decide)
      · exact absurd hzero hne
    · exact hcall
  constructor
  · simp only [Speaker.playN, Speaker.step, Speaker.playStep, List.replicate_succ,
      List.replicate_zero, run_cons, run_nil, if_neg hlow', hcall]
    rfl
  · simp only [Speaker.heard, trace, Speaker.step, Speaker.playStep,
      List.replicate_succ, List.replicate_zero, if_neg hlow', Speaker.played,
      List.append_nil]

theorem play_turn (h : s.Ready) (hlow : ¬s.Low) (hne : s.rq.elems ≠ 0)
    (hopen : s.rq.blockGet = false) :
    s.playN 5 = s.playedOne ∧ s.heard 5 = [(s.rq.at' s.rq.geti).content] := by
  obtain ⟨rq, cli, net, play, filling, fillingsz⟩ := s
  obtain rfl : play = .loop := h.head
  have hlow' : ¬(rq.length < fillingsz ∨ filling = true) := hlow
  have hcall : rq.qConsume = (rq.served, some (.slot rq.geti)) := by
    rcases rq.qConsume_cases with ⟨_, _, _, hcall⟩ | ⟨hno, _⟩
    · exact hcall
    · exact absurd ⟨hne, hopen, h.free rq.geti⟩ hno
  have hchunk : (rq.served.at' rq.geti).content = (rq.at' rq.geti).content :=
    Circle.content_setLocked rq rq.geti rq.geti true
  constructor
  · simp only [Speaker.playN, Speaker.step, Speaker.playStep, List.replicate_succ,
      List.replicate_zero, run_cons, run_nil, if_neg hlow', hcall, Circle.deref]
    rw [show (rq.served.at' rq.geti).hdr = (rq.at' rq.geti).hdr from
      congrArg Prod.fst hchunk]
    rfl
  · simp only [Speaker.heard, trace, Speaker.step, Speaker.playStep,
      List.replicate_succ, List.replicate_zero, if_neg hlow', hcall, Speaker.played,
      Circle.deref, hchunk, List.append_nil, List.nil_append]

end Turns

/-! ## When the player can start -/

/-- The player will come to take a chunk though no frame is added: the queue is
not held back, a queue that is being filled is over the optimum, and the
threshold or the optimum is reached. -/
structure Speaker.Starts (s : Speaker) : Prop where
  some : s.rq.elems ≠ 0
  gate : s.rq.blockGet = true → s.rq.optim ≤ s.rq.elems
  filled : s.filling = true → s.rq.optim < s.rq.elems
  enough : s.fillingsz ≤ s.rq.elems ∨ s.rq.optim ≤ s.rq.elems

instance (s : Speaker) : Decidable s.Starts :=
  decidable_of_iff (s.rq.elems ≠ 0 ∧
      (s.rq.blockGet = true → s.rq.optim ≤ s.rq.elems) ∧
      (s.filling = true → s.rq.optim < s.rq.elems) ∧
      (s.fillingsz ≤ s.rq.elems ∨ s.rq.optim ≤ s.rq.elems))
    ⟨fun h => ⟨h.1, h.2.1, h.2.2.1, h.2.2.2⟩,
      fun h => ⟨h.some, h.gate, h.filled, h.enough⟩⟩

/-- The chunks that are never played without new ones. -/
def Speaker.rest (s : Speaker) : Nat := min (qAlmostEmpty - 1) (s.rq.optim - 1)

section Starting

variable {s : Speaker}

theorem starts_playedOne (hfilling : s.filling = false) (hopen : s.rq.blockGet = false) :
    s.playedOne.Starts ↔ s.rest < s.rq.elems - 1 := by
  have hfour : qAlmostEmpty = 4 := rfl
  have helems : s.playedOne.rq.elems = s.rq.elems - 1 := rfl
  have hoptim : s.playedOne.rq.optim = s.rq.optim := rfl
  have hsize : s.playedOne.fillingsz = 4 := rfl
  unfold Speaker.rest
  constructor
  · rintro ⟨hsome, _, _, henough⟩
    rw [helems] at hsome henough
    rw [hoptim, hsize] at henough
    omega
  · intro hlt
    constructor
    · rw [helems]
      omega
    · intro hblock
      exact absurd (hopen.symm.trans hblock) (by decide)
    · intro hfill
      exact absurd (hfilling.symm.trans hfill) (by decide)
    · rw [helems, hoptim, hsize]
      omega

/-- A turn of a player that cannot start is quiet, and it cannot start
afterwards. -/
theorem unstarted_turn (h : s.Ready) (hstart : ¬s.Starts) :
    ∃ m, 0 < m ∧ s.heard m = [] ∧ (s.playN m).Ready ∧ ¬(s.playN m).Starts := by
  by_cases hlow : s.Low
  · obtain ⟨hstate, hheard⟩ := fill_turn h hlow
    refine ⟨4, by decide, hheard, hstate ▸ h.filled, ?_⟩
    rw [hstate]
    rintro ⟨hsome, hgate, hfilled, henough⟩
    have hle : s.rq.optim ≤ s.rq.elems := henough.elim id id
    refine hstart ⟨hsome, hgate, fun hfill => ?_, Or.inr hle⟩
    by_contra hnot
    refine hnot (hfilled ?_)
    show ((s.filling || _) && decide (s.rq.elems ≤ s.rq.optim)) = true
    rw [hfill, Bool.true_or, Bool.true_and, decide_eq_true_eq]
    exact Nat.not_lt.mp hnot
  · have hnotlow := not_or.mp hlow
    have hsize : s.fillingsz ≤ s.rq.elems := Nat.not_lt.mp hnotlow.1
    have hnull : s.rq.blockGet = true ∨ s.rq.elems = 0 := by
      by_contra hopen
      obtain ⟨hblock, hzero⟩ := not_or.mp hopen
      exact hstart ⟨hzero, fun hb => absurd hb hblock,
        fun hf => absurd hf hnotlow.2, Or.inl hsize⟩
    obtain ⟨hstate, hheard⟩ := refused_turn h hlow hnull
    refine ⟨2, by decide, hheard, hstate ▸ h.refused, ?_⟩
    rw [hstate]
    rintro ⟨hsome, hgate, _, _⟩
    refine hstart ⟨hsome, fun hblock => ?_, fun hf => absurd hf hnotlow.2,
      Or.inl hsize⟩
    by_contra hnot
    refine hnot (hgate ?_)
    show (s.rq.blockGet && decide (s.rq.elems < s.rq.optim)) = true
    rw [hblock, Bool.true_and, decide_eq_true_eq]
    exact Nat.not_le.mp hnot

/-- A player that cannot start never plays again. -/
theorem unstarted_heard (h : s.Ready) (hstart : ¬s.Starts) (n : Nat) :
    s.heard n = [] := by
  have hfar : ∀ k, ∃ m, k ≤ m ∧ s.heard m = [] ∧ (s.playN m).Ready ∧
      ¬(s.playN m).Starts := by
    intro k
    induction k with
    | zero => exact ⟨0, Nat.le_refl 0, rfl, h, hstart⟩
    | succ k ih =>
        obtain ⟨m, hle, hquiet, hready, hnot⟩ := ih
        obtain ⟨m', hpos, hquiet', hready', hnot'⟩ := unstarted_turn hready hnot
        refine ⟨m + m', by omega, ?_, ?_⟩
        · rw [heard_add, hquiet, hquiet']
          rfl
        · rw [playN_add]
          exact ⟨hready', hnot'⟩
  obtain ⟨m, hle, hquiet, _⟩ := hfar n
  exact List.prefix_nil.mp (hquiet ▸ heard_prefix s hle)

/-- The player is about to take a chunk. -/
structure Speaker.About (s : Speaker) : Prop extends s.Ready where
  some : s.rq.elems ≠ 0
  filling : s.filling = false
  enough : s.fillingsz ≤ s.rq.elems
  gate : s.rq.blockGet = false

theorem Speaker.About.notLow (h : s.About) : ¬s.Low :=
  not_or.mpr ⟨Nat.not_lt.mpr h.enough, by rw [h.filling]; decide⟩

/-- `t` has the queue of `s`, but for the gate. -/
structure Speaker.SameRing (s t : Speaker) : Prop where
  contents : t.rq.contents = s.rq.contents
  elems : t.rq.elems = s.rq.elems
  optim : t.rq.optim = s.rq.optim

theorem starts_filled (hstart : s.Starts) (hlow : s.Low) :
    s.filled.Starts ∧ ¬s.filled.Low := by
  have hle : s.rq.optim ≤ s.rq.elems := by
    rcases hlow with hlt | hfill
    · have hlt' : s.rq.elems < s.fillingsz := hlt
      rcases hstart.enough with hsize | hle
      · omega
      · exact hle
    · exact Nat.le_of_lt (hstart.filled hfill)
  have hfilling : s.filled.filling = false := by
    show ((s.filling || decide (s.rq.elems = 0)) &&
      decide (s.rq.elems ≤ s.rq.optim)) = false
    rw [decide_eq_false hstart.some, Bool.or_false, Bool.and_eq_false_iff]
    by_cases hfill : s.filling = true
    · exact Or.inr (decide_eq_false (Nat.not_le.mpr (hstart.filled hfill)))
    · exact Or.inl (Bool.eq_false_of_not_eq_true hfill)
  constructor
  · exact ⟨hstart.some, hstart.gate,
      fun hfill => absurd (hfilling.symm.trans hfill) (by decide), Or.inr hle⟩
  · exact not_or.mpr ⟨Nat.not_lt.mpr hle, by rw [hfilling]; decide⟩

/-- Quiet steps that lead to `t` come before what is played from there. -/
theorem quiet_trans {m n : Nat} {t : Speaker} (hstate : s.playN m = t)
    (hquiet : s.heard m = []) (hrest : t.heard n = []) :
    s.playN (m + n) = t.playN n ∧ s.heard (m + n) = [] := by
  rw [playN_add, heard_add, hstate, hquiet, hrest]
  exact ⟨rfl, rfl⟩

/-- With the gate open at most one call of `_fill_q` comes first. -/
theorem about_of_open (h : s.Ready) (hstart : s.Starts)
    (hopen : s.rq.blockGet = false) :
    ∃ m ≤ 4, s.heard m = [] ∧ (s.playN m).About ∧ s.SameRing (s.playN m) := by
  by_cases hlow : s.Low
  · obtain ⟨hstate, hquiet⟩ := fill_turn h hlow
    obtain ⟨_, hnot⟩ := starts_filled hstart hlow
    obtain ⟨hsize, hfilling⟩ := not_or.mp hnot
    refine ⟨4, Nat.le_refl 4, hquiet, ?_⟩
    rw [hstate]
    exact ⟨⟨h.filled, hstart.some, Bool.eq_false_of_not_eq_true hfilling,
      Nat.not_lt.mp hsize, hopen⟩, rfl, rfl, rfl⟩
  · obtain ⟨hsize, hfilling⟩ := not_or.mp hlow
    exact ⟨0, Nat.zero_le 4, rfl, ⟨h, hstart.some,
      Bool.eq_false_of_not_eq_true hfilling, Nat.not_lt.mp hsize, hopen⟩,
      rfl, rfl, rfl⟩

/-- With the gate closed and the queue not low, `q_consume` opens the gate. -/
theorem about_of_closed (h : s.Ready) (hstart : s.Starts) (hlow : ¬s.Low)
    (hclosed : s.rq.blockGet = true) :
    ∃ m ≤ 6, s.heard m = [] ∧ (s.playN m).About ∧ s.SameRing (s.playN m) := by
  have hle := hstart.gate hclosed
  have hopen : s.refused.rq.blockGet = false := by
    show (s.rq.blockGet && decide (s.rq.elems < s.rq.optim)) = false
    rw [decide_eq_false (Nat.not_lt.mpr hle), Bool.and_false]
  have hstart' : s.refused.Starts :=
    ⟨hstart.some, fun _ => hle, hstart.filled, Or.inr hle⟩
  obtain ⟨hstate, hquiet⟩ := refused_turn h hlow (Or.inl hclosed)
  obtain ⟨m, hm, hquiet', habout, hring⟩ := about_of_open h.refused hstart' hopen
  obtain ⟨hend, hall⟩ := quiet_trans hstate hquiet hquiet'
  refine ⟨2 + m, by omega, hall, ?_⟩
  rw [hend]
  exact ⟨habout, hring.contents, hring.elems, hring.optim⟩

/-- Within ten quiet steps a player that can start is about to. -/
theorem about_of_starts (h : s.Ready) (hstart : s.Starts) :
    ∃ m ≤ 10, s.heard m = [] ∧ (s.playN m).About ∧ s.SameRing (s.playN m) := by
  by_cases hopen : s.rq.blockGet = false
  · obtain ⟨m, hm, habout⟩ := about_of_open h hstart hopen
    exact ⟨m, by omega, habout⟩
  · have hclosed := Bool.eq_true_of_not_eq_false hopen
    by_cases hlow : s.Low
    · obtain ⟨hstate, hquiet⟩ := fill_turn h hlow
      obtain ⟨hstart', hlow'⟩ := starts_filled hstart hlow
      obtain ⟨m, hm, hquiet', habout, hring⟩ :=
        about_of_closed h.filled hstart' hlow' hclosed
      obtain ⟨hend, hall⟩ := quiet_trans hstate hquiet hquiet'
      refine ⟨4 + m, by omega, hall, ?_⟩
      rw [hend]
      exact ⟨habout, hring.contents, hring.elems, hring.optim⟩
    · obtain ⟨m, hm, habout⟩ := about_of_closed h hstart hlow hclosed
      exact ⟨m, by omega, habout⟩

/-- A player that is about to take a chunk plays the oldest one. -/
theorem About.heard (h : s.About) :
    ∃ x, s.rq.contents = x :: s.playedOne.rq.contents ∧ s.heard 5 = [x] ∧
      s.playN 5 = s.playedOne := by
  obtain ⟨hstate, hheard⟩ := play_turn h.toReady h.notLow h.some h.gate
  exact ⟨_, Circle.contents_recycled h.cursors h.some h.room, hheard, hstate⟩

end Starting

/-! ## What is still played -/

/-- The number of chunks that are still played. -/
def Speaker.still (s : Speaker) : Nat :=
  if s.Starts then 1 + (s.rq.elems - 1 - s.rest) else 0

/-- One chunk fewer is played after one was. -/
theorem still_playedOne {s t : Speaker} (hstart : s.Starts) (habout : t.About)
    (hring : s.SameRing t) : s.still = t.playedOne.still + 1 := by
  have helems : t.playedOne.rq.elems = s.rq.elems - 1 :=
    congrArg (· - 1) hring.elems
  have hrest : t.playedOne.rest = s.rest :=
    congrArg (fun o => min (qAlmostEmpty - 1) (o - 1)) hring.optim
  have hnext : t.playedOne.Starts ↔ s.rest < s.rq.elems - 1 := by
    have hstarts := starts_playedOne habout.filling habout.gate
    rwa [show t.rest = s.rest from hrest, hring.elems] at hstarts
  rw [Speaker.still, if_pos hstart, Speaker.still, helems, hrest]
  by_cases hgo : t.playedOne.Starts
  · have hlt := hnext.mp hgo
    rw [if_pos hgo]
    omega
  · have hge := mt hnext.mpr hgo
    rw [if_neg hgo]
    omega

/-- Fifteen steps a chunk are enough. -/
theorem heard_still (k : Nat) :
    ∀ s : Speaker, s.Ready → s.rq.elems = k → ∀ n, 15 * k ≤ n →
      s.heard n = s.rq.contents.take s.still := by
  induction k with
  | zero =>
      intro s h hzero n _
      have hnot : ¬s.Starts := fun hstart => hstart.some hzero
      rw [unstarted_heard h hnot, Speaker.still, if_neg hnot, List.take_zero]
  | succ k ih =>
      intro s h hlen n hn
      by_cases hstart : s.Starts
      · obtain ⟨m, hm, hquiet, habout, hring⟩ := about_of_starts h hstart
        obtain ⟨x, hcontents, hfive, hplayed⟩ := About.heard habout
        have hready := habout.toReady.playedOne habout.some
        have helems : (s.playN m).playedOne.rq.elems = k := by
          show (s.playN m).rq.elems - 1 = k
          rw [hring.elems, hlen, Nat.add_sub_cancel]
        obtain ⟨n', rfl⟩ : ∃ n', n = m + (5 + n') :=
          ⟨n - m - 5, by omega⟩
        have htail := ih _ hready helems n' (by omega)
        rw [heard_add, hquiet, heard_add, hfive, hplayed, htail, List.nil_append,
          still_playedOne hstart habout hring, ← hring.contents, hcontents,
          List.take_succ_cons]
        rfl
      · rw [unstarted_heard h hstart, Speaker.still, if_neg hstart, List.take_zero]

/-- In every state of every run that feeds no full ring, a program whose threads
are between two chunks is ready. -/
theorem ready_run (n sz : Nat) (tick : BitVec 64) (time : Int) (hn : 0 < n)
    (ops : List SpkOp)
    (hroom : Along Speaker.step Speaker.RoomToFeed
      (Speaker.init n sz tick time) ops)
    (hnet : (run Speaker.step (Speaker.init n sz tick time) ops).net.holds = none)
    (hplay : (run Speaker.step (Speaker.init n sz tick time) ops).play = .loop) :
    (run Speaker.step (Speaker.init n sz tick time) ops).Ready := by
  obtain ⟨⟨f, hinv⟩, hguard⟩ := trace_inv_nil (C := Speaker.RoomToFeed)
    (f := Speaker.received) (g := Speaker.played)
    (I := fun s got heard => (∃ f, PlaybackInv f s got heard) ∧
      Guarded s.hold s.rq.lock)
    (fun s op _ _ ⟨⟨_, h⟩, hguard⟩ hr =>
      let ⟨f', h', _⟩ := playbackInv_step h op hr
      ⟨⟨f', h'⟩, (locking_clientStep h.held.held.cursors (.thread op)).guarded hguard⟩)
    ⟨⟨Fifo.empty, playbackInv_init n sz tick time hn⟩, guarded_init n sz tick time⟩
    hroom
  refine ⟨hplay, hinv.held.held.cursors, hinv.sim.room, hguard.idle ?_⟩
  intro th
  cases th with
  | net => exact congrArg slotOf hnet
  | player =>
      show slotOf (run Speaker.step (Speaker.init n sz tick time) ops).play.holds = none
      rw [hplay]
      rfl

/-- Two frames are received into a queue of two chunks. -/
def receivesTwo : List SpkOp :=
  List.replicate 9 (.net (NetIn.having [.data ({ BufHdr.zero with
    frmSig := aliveData, curSeq := 1, bufLen := 4 }.encode ++ [5, 6, 7, 8])]))

end RoomSpeaker
