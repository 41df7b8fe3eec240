import RoomSpeaker.Model.Speaker
import RoomSpeaker.Verified.CircleSpec
import RoomSpeaker.Verified.FrameSpec

/-!
# What the two client threads hold

A thread works on a chunk outside the mutex between the call that handed it out
and the call that releases it.  `Circle.Held` says what this rests on: a chunk
in a thread's hands is locked, and no chunk is in the hands of both.

## Main results

* `moves_step` — what a step of either thread can do to the queue and to what
  the threads hold.
* `heldInv_step` — no step, whatever is received, breaks the holders' law; and a
  chunk that is being received is in the queue already.
* `deref_step`, `mem_queued_step` — the chunk memory and the queue after a step.
-/

namespace RoomSpeaker

open Foundation

namespace Circle

/-! ## Two holders -/

/-- The holders `a` and `b` have locked what they hold, and hold different
chunks. -/
structure Held (c : Circle) (a b : Option ChunkRef) : Prop where
  cursors : c.CursorInv
  fst : ∀ j, a = some (.slot j) → j < c.maxqsz ∧ (c.at' j).locked = true
  snd : ∀ j, b = some (.slot j) → j < c.maxqsz ∧ (c.at' j).locked = true
  apart : ∀ j, a = some (.slot j) → b ≠ some (.slot j)

theorem Held.swap {c : Circle} {a b : Option ChunkRef} (h : c.Held a b) :
    c.Held b a :=
  ⟨h.cursors, h.snd, h.fst, fun j hb ha => h.apart j ha hb⟩

/-- A call that changes no lock changes nothing about the holders. -/
theorem Held.keep {c c' : Circle} {a b : Option ChunkRef} (h : c.Held a b)
    (hinv : c'.CursorInv) (hcap : c'.maxqsz = c.maxqsz)
    (hlock : ∀ j, (c'.at' j).locked = (c.at' j).locked) : c'.Held a b := by
  constructor
  · exact hinv
  · intro j ha
    rw [hcap, hlock]
    exact h.fst j ha
  · intro j hb
    rw [hcap, hlock]
    exact h.snd j hb
  · exact h.apart

theorem Held.drops {c c' : Circle} {a b : Option ChunkRef} (h : c.Held a b)
    (hd : c.Drops c') : c'.Held a b :=
  h.keep hd.inv hd.cap (fun j => by rw [at_congr hd.cells])

/-- Writing into a chunk without touching its lock. -/
theorem Held.assign {c : Circle} {a b : Option ChunkRef} (h : c.Held a b)
    (r : ChunkRef) (k : Chunk) (hk : k.locked = (c.deref r).locked) :
    (c.assign r k).Held a b := by
  cases r with
  | scrap =>
      exact h.keep ⟨h.cursors.pos, h.cursors.pool, h.cursors.geti,
        h.cursors.puti, h.cursors.fits⟩ rfl (fun j => rfl)
  | slot i =>
      apply h.keep (h.cursors.setAt i k) rfl
      intro j
      rcases at_setAt_cases c i j k with ⟨hj, hnew⟩ | hold
      · show ((c.setAt i k).at' j).locked = _
        rw [hnew, hk, hj]
        rfl
      · show ((c.setAt i k).at' j).locked = _
        rw [hold]

/-- A free chunk is locked and handed to a thread that holds none. -/
theorem Held.take {c c' : Circle} {b : Option ChunkRef} {p : Nat}
    (h : c.Held none b) (hp : p < c.maxqsz) (hfree : (c.at' p).locked = false)
    (hinv : c'.CursorInv) (hcap : c'.maxqsz = c.maxqsz)
    (hcells : c'.queue = (c.setLocked p true).queue) :
    c'.Held (some (.slot p)) b := by
  have hat : ∀ j, c'.at' j = (c.setLocked p true).at' j := at_congr hcells
  have hne : ∀ j, b = some (.slot j) → j ≠ p := by
    intro j hb
    exact ne_of_locked (h.snd j hb).2 hfree
  constructor
  · exact hinv
  · intro j ha
    obtain rfl : p = j := by simpa using ha
    rw [hcap, hat]
    exact ⟨hp, locked_setLocked_self h.cursors hp true⟩
  · intro j hb
    rw [hcap, hat, at_setLocked_ne c p j true (hne j hb)]
    exact h.snd j hb
  · intro j ha hb
    obtain rfl : p = j := by simpa using ha
    exact hne p hb rfl

/-- Reading back what was written into a chunk in hand. -/
theorem Held.deref_assign {c : Circle} {b : Option ChunkRef} {r : ChunkRef}
    (h : c.Held (some r) b) (k : Chunk) : (c.assign r k).deref r = k := by
  cases r with
  | scrap => rfl
  | slot i =>
      apply at_set_self
      rw [h.cursors.pool]
      exact (h.fst i rfl).1

/-- A thread gives its chunk back. -/
theorem Held.release {c : Circle} {b : Option ChunkRef} {r : ChunkRef}
    (h : c.Held (some r) b) : (c.release (some r)).Held none b := by
  cases r with
  | scrap =>
      exact ⟨⟨h.cursors.pos, h.cursors.pool, h.cursors.geti, h.cursors.puti,
        h.cursors.fits⟩, fun j ha => by simp at ha, h.snd,
        fun j ha => by simp at ha⟩
  | slot i =>
      have hne : ∀ j, b = some (.slot j) → j ≠ i := by
        intro j hb hj
        exact h.apart i rfl (hj ▸ hb)
      constructor
      · exact h.cursors.setAt i _
      · intro j ha
        simp at ha
      · intro j hb
        show j < c.maxqsz ∧ ((c.setLocked i false).at' j).locked = true
        rw [at_setLocked_ne c i j false (hne j hb)]
        exact h.snd j hb
      · intro j ha
        simp at ha

/-- The scrap chunk is shared with nobody. -/
theorem Held.takeScrap {c : Circle} {b : Option ChunkRef} (h : c.Held none b) :
    c.dummy.1.Held (some .scrap) b where
  cursors := ⟨h.cursors.pos, h.cursors.pool, h.cursors.geti, h.cursors.puti,
    h.cursors.fits⟩
  fst := fun j ha => by simp at ha
  snd := h.snd
  apart := fun j ha => by simp at ha

end Circle

/-! ## The two threads -/

/-- The chunk the network thread holds. -/
def NetPc.holds : NetPc → Option ChunkRef
  | .lost | .loop => none
  | .got pk | .frame pk _ | .resync pk _ | .report pk | .done pk _ => some pk

/-- The chunk the player holds. -/
def PlayPc.holds : PlayPc → Option ChunkRef
  | .hold pk | .played pk _ => some pk
  | _ => none

/-- The slot a frame is about to be received into. -/
def NetPc.receiving : NetPc → Option Nat
  | .got (.slot j) => some j
  | _ => none

theorem NetPc.mem_receiving {pc : NetPc} {j : Nat} :
    j ∈ pc.receiving ↔ pc = .got (.slot j) := by
  cases pc with
  | got pk => cases pk <;> simp [NetPc.receiving, Option.mem_def]
  | _ => simp [NetPc.receiving, Option.mem_def]

/-- What the environment decides for a step of the network thread. -/
def SpkOp.input : SpkOp → Option NetIn
  | .net i => some i
  | .play => none

theorem SpkOp.mem_input {op : SpkOp} {i : NetIn} :
    i ∈ op.input ↔ op = .net i := by
  cases op <;> simp [SpkOp.input, Option.mem_def]

/-- What a step can do.  Most steps hand out and write nothing, though the
network thread may drop old chunks when it is not receiving one; the others take
a chunk, write the one they hold, or release it. -/
inductive Speaker.Moves (s t : Speaker) : SpkOp → Prop
  | calm {op : SpkOp} (hdrop : s.rq.Drops t.rq)
      (hnet : t.net.holds = s.net.holds) (hplay : t.play.holds = s.play.holds)
      (hgot : ∀ r, t.net = .got r → s.net = .got r ∧
        t.rq.queued = s.rq.queued) : Moves s t op
  | feed {i : NetIn} (hroom : s.rq.elems ≤ s.rq.maxqsz)
      (hfree : (s.rq.at' s.rq.puti).locked = false) (hrq : t.rq = s.rq.fed)
      (hloop : s.net = .loop) (hnet : t.net = .got (.slot s.rq.puti))
      (hplay : t.play = s.play) : Moves s t (.net i)
  | scrap {i : NetIn} (hrq : t.rq = s.rq.dummy.1) (hloop : s.net = .loop)
      (hnet : t.net = .got .scrap) (hplay : t.play = s.play) : Moves s t (.net i)
  | take (hne : s.rq.elems ≠ 0) (hfree : (s.rq.at' s.rq.geti).locked = false)
      (hrq : t.rq = s.rq.served) (hnet : t.net = s.net)
      (hidle : s.play.holds = none)
      (hplay : t.play = .hold (.slot s.rq.geti)) : Moves s t .play
  | receive {i : NetIn} {r : ChunkRef} (hgot : s.net = .got r)
      (hrq : t.rq =
        s.rq.assign r (recvFrame (s.rq.deref r) i.stream.recv).chunk)
      (hnet : t.net.holds = some r) (hdone : ∀ r', t.net ≠ .got r')
      (hplay : t.play = s.play) : Moves s t (.net i)
  | played {r : ChunkRef} (hhold : s.play = .hold r)
      (hrq : t.rq = s.rq.assign r (s.rq.deref r).clear)
      (hnet : t.net = s.net) (hplay : t.play.holds = some r) : Moves s t .play
  | freed {i : NetIn} {r : ChunkRef} (hheld : s.net.holds = some r)
      (hrq : t.rq = s.rq.release (some r)) (hnet : t.net.holds = none)
      (hplay : t.play = s.play) : Moves s t (.net i)
  | returned {r : ChunkRef} (hheld : s.play.holds = some r)
      (hrq : t.rq = s.rq.release (some r)) (hnet : t.net = s.net)
      (hplay : t.play.holds = none) : Moves s t .play

private theorem moves_net (s : Speaker) (hinv : s.rq.CursorInv) (i : NetIn) :
    s.Moves (s.netStep i) (.net i) := by
  have hsame := Circle.drops_gate hinv s.rq.optim s.rq.blockGet
  unfold Speaker.netStep
  cases hpc : s.net with
  | lost =>
      simp only
      split
      · exact .calm hsame (by rw [hpc]; rfl) rfl (fun r hr => by simp at hr)
      · exact .calm hsame rfl rfl (fun r hr => ⟨hr, rfl⟩)
  | loop =>
      simp only
      split
      · rcases Circle.qFeedup_cases s.rq with ⟨hroom, hfree, hq⟩ | ⟨_, hq⟩
        · rw [hq]
          exact .feed hroom hfree rfl hpc rfl rfl
        · rw [hq]
          exact .scrap rfl hpc rfl rfl
      · exact .calm hsame rfl rfl (fun r hr => ⟨hr, rfl⟩)
  | got pk =>
      apply Speaker.Moves.receive hpc rfl
      · simp only
        split <;> rfl
      · intro r'
        simp only
        split <;> simp
      · rfl
  | frame pk bufLen =>
      simp only
      split
      · exact .calm (Circle.drops_reset hinv) (by rw [hpc]; rfl) rfl
          (fun r hr => by simp at hr)
      · split
        · exact .calm hsame (by rw [hpc]; rfl) rfl (fun r hr => by simp at hr)
        · exact .calm hsame (by rw [hpc]; rfl) rfl (fun r hr => by simp at hr)
  | resync pk newopt =>
      cases newopt with
      | none =>
          exact .calm hsame (by rw [hpc]; rfl) rfl (fun r hr => by simp at hr)
      | some n =>
          exact .calm (Circle.drops_forceOptim hinv n) (by rw [hpc]; rfl) rfl
            (fun r hr => by simp at hr)
  | report pk =>
      exact .calm hsame (by rw [hpc]; rfl) rfl (fun r hr => by simp at hr)
  | done pk ok =>
      apply Speaker.Moves.freed (r := pk) (by rw [hpc]; rfl) rfl
      · cases pk <;> cases ok <;> rfl
      · rfl

private theorem moves_play (s : Speaker) (hinv : s.rq.CursorInv) :
    s.Moves s.playStep .play := by
  have hsame := Circle.drops_gate hinv s.rq.optim s.rq.blockGet
  unfold Speaker.playStep
  cases hpc : s.play with
  | loop =>
      simp only
      split
      · exact .calm hsame rfl (by rw [hpc]; rfl) (fun r hr => ⟨hr, rfl⟩)
      · exact .calm hsame rfl (by rw [hpc]; rfl) (fun r hr => ⟨hr, rfl⟩)
  | consume =>
      simp only
      rcases Circle.qConsume_cases s.rq with ⟨hne, _, hfree, hq⟩ | ⟨_, hq⟩
      · rw [hq]
        exact .take hne hfree rfl rfl (by rw [hpc]; rfl) rfl
      · rw [hq]
        exact .calm (Circle.drops_refused hinv) rfl (by rw [hpc]; rfl)
          (fun r hr => ⟨hr, rfl⟩)
  | hold pk => exact .played hpc rfl rfl rfl
  | played pk hdr => exact .returned (by rw [hpc]; rfl) rfl rfl rfl
  | fill => exact .calm hsame rfl (by rw [hpc]; rfl) (fun r hr => ⟨hr, rfl⟩)
  | fillEmpty qoptim =>
      exact .calm hsame rfl (by rw [hpc]; rfl) (fun r hr => ⟨hr, rfl⟩)
  | fillEnough qoptim =>
      exact .calm hsame rfl (by rw [hpc]; rfl) (fun r hr => ⟨hr, rfl⟩)
  | update hdr =>
      exact .calm hsame rfl (by rw [hpc]; rfl) (fun r hr => ⟨hr, rfl⟩)

/-- Every step is one of the `Moves`. -/
theorem moves_step (s : Speaker) (hinv : s.rq.CursorInv) (op : SpkOp) :
    s.Moves (s.step op) op := by
  cases op with
  | net i => exact moves_net s hinv i
  | play => exact moves_play s hinv

/-! ## The invariant -/

/-- What holds of the client program in every state: the threads hold what they
locked, and a chunk that is being received is in the queue already. -/
structure HeldInv (s : Speaker) : Prop where
  held : s.rq.Held s.net.holds s.play.holds
  early : ∀ j, s.net = .got (.slot j) → j ∈ s.rq.queued

theorem heldInv_init (n sz : Nat) (tick : BitVec 64) (time : Int)
    (hn : 0 < n) : HeldInv (Speaker.init n sz tick time) where
  held :=
    { cursors := (Circle.drops_setOptimPerc
        (Circle.CursorInv.reserve n sz hn) cliSyncPercent).inv
      fst := fun j ha => by simp [Speaker.init, NetPc.holds] at ha
      snd := fun j hb => by simp [Speaker.init, PlayPc.holds] at hb
      apart := fun j ha => by simp [Speaker.init, NetPc.holds] at ha }
  early := fun j hj => by simp [Speaker.init] at hj

/-- Writing a chunk queues nothing. -/
private theorem queued_assign (c : Circle) (r : ChunkRef) (k : Chunk) :
    (c.assign r k).queued = c.queued := by
  cases r <;> rfl

private theorem queued_release (c : Circle) (r : ChunkRef) :
    (c.release (some r)).queued = c.queued := by
  cases r <;> rfl

/-- No step of either thread breaks `HeldInv`.  The player cannot take a chunk
that is being received, since that one is locked. -/
theorem heldInv_step {s : Speaker} (h : HeldInv s) (op : SpkOp) :
    HeldInv (s.step op) := by
  have hheld := h.held
  have hinv := hheld.cursors
  cases moves_step s hinv op with
  | calm hdrop hnet hplay hgot =>
      constructor
      · rw [hnet, hplay]
        exact hheld.drops hdrop
      · intro j hj
        obtain ⟨hs, hq⟩ := hgot _ hj
        rw [hq]
        exact h.early j hs
  | feed hroom hfree hrq hloop hnet hplay =>
      rw [hloop] at hheld
      constructor
      · rw [hnet, hplay, hrq]
        exact hheld.take hinv.puti_lt hfree (hinv.fed hroom) rfl rfl
      · intro j hj
        obtain rfl : s.rq.puti = j := by simpa [hnet] using hj
        rw [hrq, Circle.queued_fed hinv]
        exact List.mem_append_right _ List.mem_cons_self
  | scrap hrq hloop hnet hplay =>
      rw [hloop] at hheld
      constructor
      · rw [hnet, hplay, hrq]
        exact hheld.takeScrap
      · intro j hj
        simp [hnet] at hj
  | take hne hfree hrq hnet hidle hplay =>
      rw [hidle] at hheld
      constructor
      · rw [hnet, hplay, hrq]
        exact (hheld.swap.take hinv.geti hfree (hinv.served hne) rfl rfl).swap
      · intro j hj
        rw [hnet] at hj
        have hmem := h.early j hj
        rw [Circle.queued_served hinv hne] at hmem
        rcases List.mem_cons.mp hmem with hfront | hrest
        · have hlocked := (hheld.fst j (by rw [hj]; rfl)).2
          exact absurd hfront (Circle.ne_of_locked hlocked hfree)
        · rw [hrq]
          exact hrest
  | receive hgot hrq hnet hdone hplay =>
      rw [hgot] at hheld
      constructor
      · rw [hnet, hplay, hrq]
        exact hheld.assign _ _ (recvFrame_locked _ _)
      · intro j hj
        exact absurd hj (hdone _)
  | played hhold hrq hnet hplay =>
      rw [hhold] at hheld
      constructor
      · rw [hnet, hplay, hrq]
        exact hheld.assign _ _ rfl
      · intro j hj
        rw [hrq, queued_assign]
        rw [hnet] at hj
        exact h.early j hj
  | freed hs hrq hnet hplay =>
      rw [hs] at hheld
      constructor
      · rw [hnet, hplay, hrq]
        exact hheld.release
      · intro j hj
        rw [hj] at hnet
        simp [NetPc.holds] at hnet
  | returned hs hrq hnet hplay =>
      rw [hs] at hheld
      constructor
      · rw [hnet, hplay, hrq]
        exact hheld.swap.release.swap
      · intro j hj
        rw [hrq, queued_release]
        rw [hnet] at hj
        exact h.early j hj

/-! ## What a step leaves -/

/-- The player's steps are not the network thread's. -/
theorem net_playStep (s : Speaker) : s.playStep.net = s.net := by
  unfold Speaker.playStep
  cases s.play with
  | loop =>
      simp only
      split <;> rfl
  | consume =>
      simp only
      rcases Circle.qConsume_cases s.rq with ⟨_, _, _, hq⟩ | ⟨_, hq⟩
      · rw [hq]
      · rw [hq]
  | _ => rfl

/-- Releasing a chunk does not touch its bytes. -/
private theorem content_release (c : Circle) (r r' : ChunkRef) :
    ((c.release (some r)).deref r').content = (c.deref r').content := by
  cases r with
  | scrap => cases r' <;> rfl
  | slot i =>
      cases r' with
      | scrap => rfl
      | slot j => exact Circle.content_setLocked c i j false

/-- After a write through a pointer, a chunk is the one written or the one it
was. -/
private theorem deref_assign_cases (c : Circle) (r r' : ChunkRef) (k : Chunk) :
    (r = r' ∧ (c.assign r k).deref r' = k) ∨
    (c.assign r k).deref r' = c.deref r' := by
  cases r with
  | scrap =>
      cases r' with
      | scrap => exact Or.inl ⟨rfl, rfl⟩
      | slot j => exact Or.inr rfl
  | slot i =>
      cases r' with
      | scrap => exact Or.inr rfl
      | slot j =>
          rcases Circle.at_setAt_cases c i j k with ⟨rfl, hnew⟩ | hold
          · exact Or.inl ⟨rfl, hnew⟩
          · exact Or.inr hold

/-- Dropping writes no chunk. -/
theorem deref_drops {c c' : Circle} (h : c.Drops c') (r : ChunkRef) :
    c'.deref r = c.deref r := by
  cases r with
  | scrap => exact h.spare
  | slot j => exact Circle.at_congr h.cells j

/-- After a step a chunk has its old bytes, or is the one the network thread has
just received, or the one the player has just played. -/
theorem deref_step {s : Speaker} (hinv : s.rq.CursorInv) (op : SpkOp)
    (r : ChunkRef) :
    ((s.step op).rq.deref r).content = (s.rq.deref r).content ∨
    (∃ i, op = .net i ∧ s.net = .got r ∧ (s.step op).rq.deref r =
      (recvFrame (s.rq.deref r) i.stream.recv).chunk) ∨
    (op = .play ∧ (s.step op).rq.deref r = (s.rq.deref r).clear) := by
  cases moves_step s hinv op with
  | calm hdrop hnet hplay hgot =>
      exact Or.inl (congrArg Chunk.content (deref_drops hdrop r))
  | feed hroom hfree hrq hloop hnet hplay =>
      rw [hrq]
      cases r with
      | scrap => exact Or.inl rfl
      | slot j => exact Or.inl (Circle.content_setLocked s.rq s.rq.puti j true)
  | scrap hrq hloop hnet hplay =>
      rw [hrq]
      cases r <;> exact Or.inl rfl
  | take hne hfree hrq hnet hidle hplay =>
      rw [hrq]
      cases r with
      | scrap => exact Or.inl rfl
      | slot j => exact Or.inl (Circle.content_setLocked s.rq s.rq.geti j true)
  | @receive i p hgot hrq hnet hdone hplay =>
      rw [hrq]
      rcases deref_assign_cases s.rq p r
        (recvFrame (s.rq.deref p) i.stream.recv).chunk with
        ⟨rfl, hnew⟩ | hold
      · exact Or.inr (Or.inl ⟨i, rfl, hgot, hnew⟩)
      · exact Or.inl (congrArg Chunk.content hold)
  | @played p hhold hrq hnet hplay =>
      rw [hrq]
      rcases deref_assign_cases s.rq p r (s.rq.deref p).clear with
        ⟨rfl, hnew⟩ | hold
      · exact Or.inr (Or.inr ⟨rfl, hnew⟩)
      · exact Or.inl (congrArg Chunk.content hold)
  | freed hheld hrq hnet hplay =>
      rw [hrq]
      exact Or.inl (content_release s.rq _ r)
  | returned hheld hrq hnet hplay =>
      rw [hrq]
      exact Or.inl (content_release s.rq _ r)

/-- No step changes the capacity. -/
theorem maxqsz_step {s : Speaker} (hinv : s.rq.CursorInv) (op : SpkOp) :
    (s.step op).rq.maxqsz = s.rq.maxqsz := by
  cases moves_step s hinv op with
  | calm hdrop hnet hplay hgot => exact hdrop.cap
  | feed hroom hfree hrq hloop hnet hplay => rw [hrq]; rfl
  | scrap hrq hloop hnet hplay => rw [hrq]; rfl
  | take hne hfree hrq hnet hidle hplay => rw [hrq]; rfl
  | @receive i r hgot hrq hnet hdone hplay => rw [hrq]; cases r <;> rfl
  | @played r hhold hrq hnet hplay => rw [hrq]; cases r <;> rfl
  | @freed i r hheld hrq hnet hplay => rw [hrq]; cases r <;> rfl
  | @returned r hheld hrq hnet hplay => rw [hrq]; cases r <;> rfl

/-- No step changes the size of a chunk. -/
theorem len_step {s : Speaker} (hinv : s.rq.CursorInv) (op : SpkOp)
    (r : ChunkRef) : ((s.step op).rq.deref r).len = (s.rq.deref r).len := by
  rcases deref_step hinv op r with hsame | ⟨i, _, _, hrecv⟩ | ⟨_, hclear⟩
  · exact congrArg (fun x => x.2.length) hsame
  · rw [hrecv, recvFrame_len]
  · rw [hclear]
    rfl

/-- All chunks of the queue have payloads of one size. -/
structure Speaker.Sized (s : Speaker) (sz : Nat) : Prop where
  scrap : s.rq.scrap.len = sz
  slots : ∀ j < s.rq.maxqsz, (s.rq.at' j).len = sz

theorem sized_init (n sz : Nat) (tick : BitVec 64) (time : Int) :
    (Speaker.init n sz tick time).Sized sz where
  scrap := List.length_replicate
  slots := fun j hj => by
    have hnew : (Speaker.init n sz tick time).rq.at' j = Chunk.new sz :=
      Circle.at_reserve sz hj
    rw [hnew]
    exact List.length_replicate

theorem sized_step {s : Speaker} {sz : Nat} (h : s.Sized sz)
    (hinv : s.rq.CursorInv) (op : SpkOp) : (s.step op).Sized sz where
  scrap := (len_step hinv op .scrap).trans h.scrap
  slots := fun j hj => by
    rw [maxqsz_step hinv op] at hj
    exact (len_step hinv op (.slot j)).trans (h.slots j hj)

/-- The chunk in the network thread's hands has that size too. -/
theorem Speaker.Sized.len_held {s : Speaker} {sz : Nat} (h : s.Sized sz)
    (hheld : HeldInv s) {pk : ChunkRef} (hpk : s.net.holds = some pk) :
    (s.rq.deref pk).len = sz := by
  cases pk with
  | scrap => exact h.scrap
  | slot j => exact h.slots j (hheld.held.fst j hpk).1

/-- A chunk is queued after a step only if it was before, or the network thread
has just taken it to receive into. -/
theorem mem_queued_step {s : Speaker} (h : HeldInv s) (op : SpkOp) {j : Nat}
    (hj : j ∈ (s.step op).rq.queued) :
    j ∈ s.rq.queued ∨ (s.step op).net = .got (.slot j) := by
  have hinv := h.held.cursors
  cases moves_step s hinv op with
  | calm hdrop hnet hplay hgot =>
      rw [hdrop.rest] at hj
      exact Or.inl (List.mem_of_mem_drop hj)
  | feed hroom hfree hrq hloop hnet hplay =>
      rw [hrq, Circle.queued_fed hinv, List.mem_append] at hj
      rcases hj with hold | hnew
      · exact Or.inl hold
      · rw [List.mem_singleton.mp hnew]
        exact Or.inr hnet
  | scrap hrq hloop hnet hplay =>
      rw [hrq] at hj
      exact Or.inl hj
  | take hne hfree hrq hnet hidle hplay =>
      rw [hrq] at hj
      rw [Circle.queued_served hinv hne]
      exact Or.inl (List.mem_cons_of_mem _ hj)
  | receive hgot hrq hnet hdone hplay =>
      rw [hrq, queued_assign] at hj
      exact Or.inl hj
  | played hhold hrq hnet hplay =>
      rw [hrq, queued_assign] at hj
      exact Or.inl hj
  | freed hheld hrq hnet hplay =>
      rw [hrq, queued_release] at hj
      exact Or.inl hj
  | returned hheld hrq hnet hplay =>
      rw [hrq, queued_release] at hj
      exact Or.inl hj

/-- Receiving into a slot writes it, and the slot is queued whether or not the
frame is accepted. -/
theorem receive_step {s : Speaker} (h : HeldInv s) {j : Nat}
    (hgot : s.net = .got (.slot j)) (i : NetIn) :
    j ∈ (s.step (.net i)).rq.queued ∧ (s.step (.net i)).rq.at' j =
      (recvFrame (s.rq.at' j) i.stream.recv).chunk := by
  have hrq : (s.step (.net i)).rq =
      s.rq.setAt j (recvFrame (s.rq.at' j) i.stream.recv).chunk := by
    show (s.netStep i).rq = _
    unfold Speaker.netStep
    rw [hgot]
    rfl
  have hslot := (h.held.fst j (by rw [hgot]; rfl)).1
  rw [hrq]
  constructor
  · exact h.early j hgot
  · apply Circle.at_set_self
    rw [h.held.cursors.pool]
    exact hslot

/-! ## A sample schedule -/

/-- A socket that is readable and brings these results. -/
def NetIn.having (recv : List RecvOut) : NetIn :=
  ⟨true, true, ⟨recv, 0, 0, []⟩⟩

/-- The network thread connects, feeds a slot and receives into it; then the
player goes through its loop until it may take a chunk. -/
def receiveThenPlay (recv : List RecvOut) : List SpkOp :=
  List.replicate 5 (.net (NetIn.having recv)) ++ List.replicate 6 .play

end RoomSpeaker
