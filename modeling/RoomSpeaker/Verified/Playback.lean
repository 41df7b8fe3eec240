import RoomSpeaker.Foundation.History
import RoomSpeaker.Verified.FifoRefinement
import RoomSpeaker.Verified.SpeakerSpec

/-!
# What is played of what was received

The two client threads are a producer and a consumer on the queue: the network
thread writes a chunk by receiving into it, the player reads one by playing it.
The player also writes: after `_play` it clears the header of the chunk, which
is then neither queued nor the network thread's.

## Main results

* `Speaker.threads` — the producer and the consumer that the program counters
  stand for.
* `playbackInv_step` — the simulation with the numbered FIFO, for every step of
  either thread.
* `playback_in_order` — in every run that never feeds a full ring, the contents
  played are some of those received, in the order of their receipt, and each of
  the others was dropped or is still in the ring.
-/

namespace RoomSpeaker

open Foundation

/-! ## The threads as producer and consumer -/

/-- The slot the network thread holds, and whether it has received into it. -/
def NetPc.putSlot : NetPc → Option (Nat × Bool)
  | .got (.slot j) => some (j, false)
  | .frame (.slot j) _ | .resync (.slot j) _ | .report (.slot j)
  | .done (.slot j) _ => some (j, true)
  | _ => none

/-- The slot the player holds, and whether it has played it. -/
def PlayPc.getSlot : PlayPc → Option (Nat × Bool)
  | .hold (.slot j) => some (j, false)
  | .played (.slot j) _ => some (j, true)
  | _ => none

def Speaker.threads (s : Speaker) : QThreads :=
  ⟨s.rq, s.net.putSlot, s.play.getSlot⟩

/-- What a step leaves in a slot it receives into. -/
def Speaker.received (s : Speaker) : SpkOp → List Content
  | .net i => match s.net with
      | .got (.slot j) =>
          [(recvFrame (s.rq.at' j) i.stream.recv).chunk.content]
      | _ => []
  | .play => []

/-- What a step plays. -/
def Speaker.played (s : Speaker) : SpkOp → List Content
  | .net _ => []
  | .play => match s.play with
      | .hold pk => [(s.rq.deref pk).content]
      | _ => []

/-- The step is not a `q_feedup` that finds the ring full and the chunk under
the put cursor free. -/
def Speaker.RoomToFeed (s : Speaker) : SpkOp → Prop
  | .net i => s.net = .loop → i.ready = true →
      (s.rq.at' s.rq.puti).locked = false → s.rq.length ≠ s.rq.capacity
  | .play => True

instance (s : Speaker) (op : SpkOp) : Decidable (s.RoomToFeed op) :=
  match op with
  | .net _ => inferInstanceAs (Decidable (_ → _ → _ → _))
  | .play => inferInstanceAs (Decidable True)

/-! ## Two more calls on the queue -/

/-- Overwriting a chunk that its consumer has read, and that is not queued. -/
theorem QInv.overwrite {r : QRun} (h : QInv r) {j : Nat} {k : Chunk}
    (hget : r.threads.get = some (j, true))
    (hout : j ∉ r.threads.circle.queued)
    (hlock : k.locked = true) :
    QInv
      { r with
        threads :=
          { r.threads with circle := r.threads.circle.setAt j k } } where
  cursors := h.cursors.setAt _ _
  room := h.room
  count := h.count
  fits := by
    refine (forall₂_mem h.fits).imp ?_
    rintro n i ⟨hfit, _, hi⟩
    have hne : i ≠ j := by
      rintro rfl
      exact hout hi
    constructor
    · exact hfit.lt
    · intro x hx
      show ((r.threads.circle.setAt j k).at' i).content = x
      rw [Circle.at_set_ne _ _ _ _ hne]
      exact hfit.content x hx
    · exact hfit.newest
  putSlot := by
    intro i b hput
    obtain ⟨hlt, hput'⟩ := h.putSlot i b hput
    refine ⟨hlt, ?_⟩
    show ((r.threads.circle.setAt j k).at' i).locked = true
    rw [Circle.at_set_ne _ _ _ _ (h.apart i b j true hput hget)]
    exact hput'
  getSlot := by
    intro i b hi
    obtain ⟨hlt, _⟩ := h.getSlot j true hget
    have hsame : (j, true) = (i, b) := Option.some.inj (hget.symm.trans hi)
    obtain ⟨rfl, rfl⟩ := Prod.mk.inj hsame
    refine ⟨hlt, ?_⟩
    show ((r.threads.circle.setAt j k).at' j).locked = true
    rw [Circle.at_set_self _ _ _ (h.cursors.pool ▸ hlt)]
    exact hlock
  apart := h.apart
  held := by
    intro i hi
    rw [show r.threads.get = some (i, false) from hi] at hget
    simp at hget
  reads := h.reads

/-- The scrap chunk is no part of the ring. -/
theorem QInv.spare {r : QRun} (h : QInv r) (k : Chunk) :
    QInv
      { r with
        threads :=
          { r.threads with circle := { r.threads.circle with scrap := k } } }
    where
  cursors := ⟨h.cursors.pos, h.cursors.pool, h.cursors.geti, h.cursors.puti,
    h.cursors.fits⟩
  room := h.room
  count := h.count
  fits := h.fits.imp fun _ _ hfit => ⟨hfit.lt, hfit.content, hfit.newest⟩
  putSlot := h.putSlot
  getSlot := h.getSlot
  apart := h.apart
  held := h.held
  reads := h.reads

/-! ## The invariant -/

/-- The program simulates the numbered FIFO `f`, with `got` and `heard` as what
was received and played so far; and what the player holds is a slot that is not
queued any more. -/
structure PlaybackInv (f : Fifo) (s : Speaker) (got heard : List Content) :
    Prop where
  held : HeldInv s
  slot : s.play.holds ≠ some .scrap
  mine : ∀ j, s.play.holds = some (.slot j) → j ∉ s.rq.queued
  sim : QInv ⟨s.threads, f, got, heard⟩

theorem playbackInv_init (n sz : Nat) (tick : BitVec 64) (time : Int)
    (hn : 0 < n) :
    PlaybackInv Fifo.empty (Speaker.init n sz tick time) [] [] where
  held := heldInv_init n sz tick time hn
  slot := by simp [Speaker.init, PlayPc.holds]
  mine := by simp [Speaker.init, PlayPc.holds]
  sim := (qInv_init n sz hn).gate _ _

/-- The slot the player holds left the queue when it was taken, and is not fed
while it is locked. -/
private theorem mine_step {s : Speaker} (h : HeldInv s)
    (hroom : s.rq.elems ≤ s.rq.maxqsz)
    (hslot : s.play.holds ≠ some .scrap)
    (hmine : ∀ j, s.play.holds = some (.slot j) → j ∉ s.rq.queued)
    (op : SpkOp) :
    (s.step op).play.holds ≠ some .scrap ∧
      ∀ j, (s.step op).play.holds = some (.slot j) →
        j ∉ (s.step op).rq.queued := by
  have hstays : (s.step op).play.holds = s.play.holds →
      (s.step op).play.holds ≠ some .scrap ∧
        ∀ j, (s.step op).play.holds = some (.slot j) →
          j ∉ (s.step op).rq.queued := by
    intro hsame
    refine ⟨hsame ▸ hslot, ?_⟩
    intro j hj hmem
    rcases mem_queued_step h op hmem with hold | hgot
    · exact hmine j (hsame ▸ hj) hold
    · have hapart := (heldInv_step h op).held.apart j (by rw [hgot]; rfl)
      exact hapart hj
  cases moves_step s h.held.cursors op with
  | calm hdrop hnet hplay hgot => exact hstays hplay
  | feed hroom' hfree hrq hloop hnet hplay =>
      exact hstays (congrArg PlayPc.holds hplay)
  | scrap hrq hloop hnet hplay => exact hstays (congrArg PlayPc.holds hplay)
  | take hne hfree hrq hnet hidle hplay =>
      rw [hplay]
      refine ⟨by simp [PlayPc.holds], ?_⟩
      intro j hj hmem
      obtain rfl : s.rq.geti = j := by simpa [PlayPc.holds] using hj
      have hnodup : s.rq.queued.Nodup := window_nodup hroom
      rw [Circle.queued_served h.held.cursors hne] at hnodup
      rw [hrq] at hmem
      exact (List.nodup_cons.mp hnodup).1 hmem
  | receive hgot hrq hnet hdone hplay =>
      exact hstays (congrArg PlayPc.holds hplay)
  | played hhold hrq hnet hplay =>
      exact hstays (hplay.trans (by rw [hhold]; rfl))
  | freed hheld hrq hnet hplay => exact hstays (congrArg PlayPc.holds hplay)
  | returned hheld hrq hnet hplay =>
      rw [hplay]
      exact ⟨by simp, fun j hj => by simp at hj⟩

/-! ## One step -/

section Steps

variable {s : Speaker} {got heard : List Content} {f : Fifo}

/-- A call that drops some of the oldest slots, made by a thread that goes on
holding what it holds. -/
private theorem sim_drops {t : Speaker} (h : QInv ⟨s.threads, f, got, heard⟩)
    (hdrop : s.rq.Drops t.rq) (hput : t.net.putSlot = s.net.putSlot)
    (hget : t.play.getSlot = s.play.getSlot) :
    ∃ f', QInv ⟨t.threads, f', got, heard⟩ ∧
      (s.rq.length ≤ t.rq.length → f'.lost = f.lost) := by
  refine ⟨f.discard (s.rq.length - t.rq.length), ?_, ?_⟩
  · unfold Speaker.threads
    rw [hput, hget]
    exact h.drops hdrop
  · intro hle
    show f.lost ++ f.queue.take (s.rq.length - t.rq.length) = f.lost
    rw [Nat.sub_eq_zero_of_le hle, List.take_zero, List.append_nil]

/-- The network thread releases its chunk, a slot it has received into or the
scrap chunk. -/
private theorem sim_release (h : QInv ⟨s.threads, f, got, heard⟩)
    {pk : ChunkRef} {ok : Bool} (hpc : s.net = .done pk ok) :
    QInv ⟨⟨s.rq.release (some pk), none, s.play.getSlot⟩, f, got, heard⟩ := by
  cases pk with
  | scrap =>
      have hput : s.net.putSlot = none := by rw [hpc]; rfl
      have hspare := h.spare { s.rq.scrap with locked := false }
      unfold Speaker.threads at hspare
      rw [hput] at hspare
      exact hspare
  | slot j =>
      have hput : s.threads.put = some (j, true) := by
        show s.net.putSlot = _
        rw [hpc]
        rfl
      exact h.releasePut hput

/-- A frame is received into the chunk the network thread has got. -/
private theorem sim_receive (h : QInv ⟨s.threads, f, got, heard⟩)
    {pk : ChunkRef} (hpc : s.net = .got pk) (i : NetIn) (pc : NetPc)
    (hput : pc.putSlot =
      match pk with
      | .slot j => some (j, true)
      | .scrap => none) :
    QInv ⟨⟨s.rq.assign pk (recvFrame (s.rq.deref pk) i.stream.recv).chunk,
      pc.putSlot, s.play.getSlot⟩, f, got ++ s.received (.net i), heard⟩ := by
  rw [hput]
  cases pk with
  | scrap =>
      have hnone : s.net.putSlot = none := by rw [hpc]; rfl
      have hspare := h.spare (recvFrame s.rq.scrap i.stream.recv).chunk
      unfold Speaker.threads at hspare
      simp only [Speaker.received, hpc, List.append_nil]
      rw [hnone] at hspare
      exact hspare
  | slot j =>
      have hgot : s.threads.put = some (j, false) := by
        show s.net.putSlot = _
        rw [hpc]
        rfl
      have hfill : (s.rq.at' j).fill
          (recvFrame (s.rq.at' j) i.stream.recv).chunk.content =
          (recvFrame (s.rq.at' j) i.stream.recv).chunk := by
        have hlock := recvFrame_locked (s.rq.at' j) i.stream.recv
        unfold Chunk.fill Chunk.content
        rw [← hlock]
      have hwrite := h.write
        (recvFrame (s.rq.at' j) i.stream.recv).chunk.content hgot
      have hchunk : s.threads.circle.setAt j ((s.threads.circle.at' j).fill
          (recvFrame (s.rq.at' j) i.stream.recv).chunk.content) =
          s.rq.setAt j (recvFrame (s.rq.at' j) i.stream.recv).chunk :=
        congrArg (s.rq.setAt j) hfill
      simp only [hchunk] at hwrite
      simp only [Speaker.received, hpc]
      exact hwrite

/-- Every step of the network thread but a `q_feedup` on a full ring. -/
private theorem sim_net (h : QInv ⟨s.threads, f, got, heard⟩) (i : NetIn)
    (hroom : s.RoomToFeed (.net i)) :
    ∃ f', QInv ⟨(s.netStep i).threads, f', got ++ s.received (.net i),
        heard⟩ ∧
      (s.rq.length ≤ (s.netStep i).rq.length → f'.lost = f.lost) := by
  have hinv : s.rq.CursorInv := h.cursors
  have hsame := Circle.drops_gate hinv s.rq.optim s.rq.blockGet
  cases hpc : s.net with
  | lost =>
      simp only [Speaker.received, hpc, List.append_nil]
      unfold Speaker.netStep
      simp only [hpc]
      split
      · exact sim_drops h hsame (by rw [hpc]; rfl) rfl
      · exact ⟨f, h, fun _ => rfl⟩
  | loop =>
      have hput : s.threads.put = none := by
        show s.net.putSlot = none
        rw [hpc]
        rfl
      simp only [Speaker.received, hpc, List.append_nil]
      unfold Speaker.netStep
      simp only [hpc]
      split
      next hready =>
        rcases s.rq.qFeedup_cases with ⟨hle, hfree, hcall⟩ | ⟨_, hcall⟩
        · have hlt := Nat.lt_of_le_of_ne hle (hroom hpc hready hfree)
          rw [hcall]
          exact ⟨f.accept, h.feedup hput hlt hfree, fun _ => rfl⟩
        · have hspare := h.spare { s.rq.scrap with locked := true }
          simp only [hput] at hspare
          rw [hcall]
          exact ⟨f, hspare, fun _ => rfl⟩
      next => exact ⟨f, h, fun _ => rfl⟩
  | got pk =>
      have hrecv := sim_receive h hpc i
        (if (recvFrame (s.rq.deref pk) i.stream.recv).ok then
          .frame pk (recvFrame (s.rq.deref pk) i.stream.recv).bufLen
        else .done pk false) (by cases pk <;> split <;> rfl)
      unfold Speaker.netStep
      simp only [hpc]
      exact ⟨f, hrecv, fun _ => rfl⟩
  | frame pk bufLen =>
      simp only [Speaker.received, hpc, List.append_nil]
      unfold Speaker.netStep
      simp only [hpc]
      split
      · exact sim_drops h (Circle.drops_reset hinv)
          (by rw [hpc]; cases pk <;> rfl) rfl
      · split
        · exact sim_drops h hsame (by rw [hpc]; cases pk <;> rfl) rfl
        · exact sim_drops h hsame (by rw [hpc]; cases pk <;> rfl) rfl
  | resync pk newopt =>
      simp only [Speaker.received, hpc, List.append_nil]
      unfold Speaker.netStep
      simp only [hpc]
      cases newopt with
      | none => exact sim_drops h hsame (by rw [hpc]; cases pk <;> rfl) rfl
      | some n =>
          exact sim_drops h (Circle.drops_forceOptim hinv n)
            (by rw [hpc]; cases pk <;> rfl) rfl
  | report pk =>
      simp only [Speaker.received, hpc, List.append_nil]
      unfold Speaker.netStep
      simp only [hpc]
      exact sim_drops h hsame (by rw [hpc]; cases pk <;> rfl) rfl
  | done pk ok =>
      have hrel := sim_release h hpc
      simp only [Speaker.received, hpc, List.append_nil]
      unfold Speaker.netStep
      simp only [hpc]
      refine ⟨f, ?_, fun _ => rfl⟩
      cases pk with
      | scrap => exact hrel
      | slot j => cases ok <;> exact hrel

/-- The player plays the slot it holds and clears its header. -/
private theorem sim_play (h : QInv ⟨s.threads, f, got, heard⟩) {j : Nat}
    (hpc : s.play = .hold (.slot j)) (hout : j ∉ s.rq.queued) :
    QInv ⟨⟨s.rq.setAt j (s.rq.at' j).clear, s.net.putSlot, some (j, true)⟩, f,
      got, heard ++ [(s.rq.at' j).content]⟩ := by
  have hget : s.threads.get = some (j, false) := by
    show s.play.getSlot = _
    rw [hpc]
    rfl
  exact (h.read hget).overwrite rfl hout (h.getSlot j false hget).2

/-- Every step of the player. -/
private theorem sim_player (h : QInv ⟨s.threads, f, got, heard⟩)
    (hslot : s.play.holds ≠ some .scrap)
    (hmine : ∀ j, s.play.holds = some (.slot j) → j ∉ s.rq.queued) :
    ∃ f', QInv ⟨s.playStep.threads, f', got, heard ++ s.played .play⟩ ∧
      f'.lost = f.lost := by
  have hinv : s.rq.CursorInv := h.cursors
  have hsame := Circle.drops_gate hinv s.rq.optim s.rq.blockGet
  -- a step that leaves the count alone
  have hcalm : ∀ {t : Speaker}, s.rq.Drops t.rq → t.rq.length = s.rq.length →
      t.net = s.net → t.play.getSlot = s.play.getSlot →
      ∃ f', QInv ⟨t.threads, f', got, heard⟩ ∧ f'.lost = f.lost := by
    intro t hdrop hlen hnet hget
    obtain ⟨f', hq, hlost⟩ := sim_drops h hdrop (by rw [hnet]) hget
    exact ⟨f', hq, hlost (Nat.le_of_eq hlen.symm)⟩
  cases hpc : s.play with
  | loop =>
      simp only [Speaker.played, hpc, List.append_nil]
      unfold Speaker.playStep
      simp only [hpc]
      split
      · exact hcalm hsame rfl rfl (by rw [hpc]; rfl)
      · exact hcalm hsame rfl rfl (by rw [hpc]; rfl)
  | consume =>
      have hget : s.threads.get = none := by
        show s.play.getSlot = none
        rw [hpc]
        rfl
      simp only [Speaker.played, hpc, List.append_nil]
      unfold Speaker.playStep
      simp only [hpc]
      rcases s.rq.qConsume_cases with ⟨hne, _, hfree, hcall⟩ | ⟨_, hcall⟩
      · rw [hcall]
        exact ⟨f.serve, h.consume hget hne hfree, rfl⟩
      · rw [hcall]
        exact hcalm (Circle.drops_refused hinv) rfl rfl (by rw [hpc]; rfl)
  | hold pk =>
      cases pk with
      | scrap => exact absurd (by rw [hpc]; rfl) hslot
      | slot j =>
          simp only [Speaker.played, hpc]
          unfold Speaker.playStep
          simp only [hpc]
          exact ⟨f, sim_play h hpc (hmine j (by rw [hpc]; rfl)), rfl⟩
  | played pk hdr =>
      cases pk with
      | scrap => exact absurd (by rw [hpc]; rfl) hslot
      | slot j =>
          have hget : s.threads.get = some (j, true) := by
            show s.play.getSlot = _
            rw [hpc]
            rfl
          simp only [Speaker.played, hpc, List.append_nil]
          unfold Speaker.playStep
          simp only [hpc]
          exact ⟨f, h.releaseGet hget, rfl⟩
  | fill =>
      simp only [Speaker.played, hpc, List.append_nil]
      unfold Speaker.playStep
      simp only [hpc]
      exact hcalm hsame rfl rfl (by rw [hpc]; rfl)
  | fillEmpty qoptim =>
      simp only [Speaker.played, hpc, List.append_nil]
      unfold Speaker.playStep
      simp only [hpc]
      exact hcalm hsame rfl rfl (by rw [hpc]; rfl)
  | fillEnough qoptim =>
      simp only [Speaker.played, hpc, List.append_nil]
      unfold Speaker.playStep
      simp only [hpc]
      exact hcalm hsame rfl rfl (by rw [hpc]; rfl)
  | update hdr =>
      simp only [Speaker.played, hpc, List.append_nil]
      unfold Speaker.playStep
      simp only [hpc]
      exact hcalm hsame rfl rfl (by rw [hpc]; rfl)

end Steps

/-- The network thread takes nothing out of the queue. -/
def Speaker.KeepsQueued (s : Speaker) (op : SpkOp) : Prop :=
  ∀ i, op = .net i → s.rq.length ≤ (s.step op).rq.length

/-- A step that does not feed a full ring keeps the simulation; and nothing is
discarded when the network thread takes nothing out of the queue. -/
theorem playbackInv_step {f : Fifo} {s : Speaker} {got heard : List Content}
    (h : PlaybackInv f s got heard) (op : SpkOp) (hroom : s.RoomToFeed op) :
    ∃ f', PlaybackInv f' (s.step op) (got ++ s.received op)
        (heard ++ s.played op) ∧
      (s.KeepsQueued op → f'.lost = f.lost) := by
  obtain ⟨hslot, hmine⟩ := mine_step h.held h.sim.room h.slot h.mine op
  have hheld := heldInv_step h.held op
  cases op with
  | net i =>
      obtain ⟨f', hsim, hlost⟩ := sim_net h.sim i hroom
      refine ⟨f', ⟨hheld, hslot, hmine, ?_⟩, fun hkeep => hlost (hkeep i rfl)⟩
      rw [show s.played (.net i) = [] from rfl, List.append_nil]
      exact hsim
  | play =>
      obtain ⟨f', hsim, hlost⟩ := sim_player h.sim h.slot h.mine
      refine ⟨f', ⟨hheld, hslot, hmine, ?_⟩, fun _ => hlost⟩
      rw [show s.received .play = [] from rfl, List.append_nil]
      exact hsim

/-! ## Runs -/

/-- What the consumer has read is in the order of the writes. -/
theorem QRun.FifoRefines.sublist {r : QRun} (h : r.FifoRefines) :
    r.reads.Sublist r.written := by
  have hinc : r.readNumbers.Pairwise (· < ·) := by
    unfold QRun.readNumbers
    split
    · exact h.inOrder.sublist (List.dropLast_sublist _)
    · exact h.inOrder
  exact sublist_of_reads hinc h.reads

/-- What the consumer has read is the beginning of what was written, when nothing
was discarded. -/
theorem QRun.FifoRefines.isPrefix {r : QRun} (h : r.FifoRefines)
    (hlost : r.fifo.lost = []) : r.reads <+: r.written := by
  have hserved : r.readNumbers <+: List.range r.fifo.next := by
    rw [← r.fifo.served_append_queue hlost]
    refine List.IsPrefix.trans ?_ (List.prefix_append _ _)
    unfold QRun.readNumbers
    split
    · exact List.dropLast_prefix _
    · exact List.prefix_rfl
  have hrange : r.readNumbers = List.range r.readNumbers.length := by
    have htake := List.prefix_iff_eq_take.mp hserved
    have hle := hserved.length_le
    rw [List.length_range] at hle
    rw [List.take_range, Nat.min_eq_left hle] at htake
    exact htake
  apply prefix_of_reads (k := r.readNumbers.length)
  rw [h.reads]
  exact congrArg (List.map fun n => r.written[n]?) hrange

/-- A queue of one chunk; the frame that arrives is received and played. -/
def playsOne : List SpkOp :=
  receiveThenPlay [.data ({ BufHdr.zero with
    frmSig := aliveData, curSeq := 1, bufLen := 4 }.encode ++ [5, 6, 7, 8])] ++
  [.play]

end RoomSpeaker
