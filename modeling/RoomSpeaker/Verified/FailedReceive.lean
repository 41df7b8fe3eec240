import Mathlib.Logic.Function.Basic
import RoomSpeaker.Foundation.Run
import RoomSpeaker.Verified.SpeakerSpec

/-!
# After a failed receive

`_get_data` reserves a chunk with `q_feedup` before the frame arrives.  When
`_check_stream` fails, the chunk is only released: the cursor and the count stay
advanced, so the chunk is still queued and the player will take it.

## Main results

* `leavesQueue_iff_frameArrives` — the failing branch of `_get_data` never leaves
  the queue as it was.  In any run of the two threads no failed chunk is ever
  queued exactly when every frame received into a slot arrives whole, and then
  the player takes only chunks that were completely filled.
-/

namespace RoomSpeaker

open Foundation

/-! ## One call of `_get_data` -/

/-- What the `q_consume` calls to come will deliver, oldest first. -/
def Circle.contents (c : Circle) : List Content :=
  c.queued.map fun i => (c.at' i).content

/-- `c'` has the length of `c` and delivers what `c` delivers. -/
def Circle.SameQueue (c c' : Circle) : Prop :=
  c'.length = c.length ∧ c'.contents = c.contents

/-- After a failed receive into a fed slot the count has grown by one. -/
private theorem length_failed {cli : Sclient} {c c' : Circle} {pk : ChunkRef}
    {i : StreamIn} (hfed : c.qFeedup false = (c', some pk))
    (hfail : (cli.checkStream c' pk i).ok = false) :
    ((cli.checkStream c' pk i).rq.release (some pk)).length = c.length + 1 := by
  rw [checkStream_ok] at hfail
  rcases Circle.qFeedup_cases c with ⟨_, _, hq⟩ | ⟨_, hq⟩
  · rw [hfed] at hq
    obtain ⟨rfl, hpk⟩ := Prod.mk.inj hq
    obtain rfl : pk = .slot c.puti := by simpa using hpk
    unfold Sclient.checkStream
    simp only [hfail]
    rfl
  · rw [hfed] at hq
    simp at hq

/-! ## Runs of the two threads -/

/-- The client program with what the latest `_check_stream` on each slot
returned; nothing while the slot waits for one. -/
structure SpeakerRun where
  spk : Speaker
  last : Nat → Option Bool

/-- A feed opens the account of a slot, the receive closes it. -/
def Speaker.verdicts (s : Speaker) (last : Nat → Option Bool) :
    SpkOp → Nat → Option Bool
  | .net i =>
      match s.net with
      | .loop =>
          match i.ready, (s.rq.qFeedup false).2 with
          | true, some (.slot j) => Function.update last j none
          | _, _ => last
      | .got (.slot j) =>
          Function.update last j
            (some (s.cli.checkStream s.rq (.slot j) i.stream).ok)
      | _ => last
  | .play => last

def SpeakerRun.step (r : SpeakerRun) (op : SpkOp) : SpeakerRun where
  spk := r.spk.step op
  last := r.spk.verdicts r.last op

def SpeakerRun.init (n sz : Nat) (tick : BitVec 64) (time : Int) : SpeakerRun :=
  ⟨Speaker.init n sz tick time, fun _ => none⟩

/-- No queued slot is one whose receive failed. -/
def SpeakerRun.NoneFailed (r : SpeakerRun) : Prop :=
  ∀ j ∈ r.spk.rq.queued, r.last j ≠ some false

/-- A chunk the player takes was completely filled by a `_check_stream` that
returned true. -/
def SpeakerRun.TakesFilled (r : SpeakerRun) (op : SpkOp) : Prop :=
  op = .play → r.spk.play = .consume →
    ∀ j, r.spk.rq.qConsume.2 = some (.slot j) → r.last j = some true

/-- A frame received into a slot arrives whole. -/
def SpeakerRun.ArrivesWhole (r : SpeakerRun) (op : SpkOp) : Prop :=
  ∀ i ∈ op.input, ∀ j ∈ r.spk.net.receiving,
    FrameArrives (r.spk.rq.at' j).len i.stream.recv

instance (r : SpeakerRun) (op : SpkOp) : Decidable (r.ArrivesWhole op) :=
  inferInstanceAs (Decidable (∀ i ∈ op.input, _))

/-- While every frame arrives whole, a queued slot is filled or the one being
received. -/
structure FilledInv (r : SpeakerRun) : Prop where
  threads : HeldInv r.spk
  opened : ∀ j, r.spk.net = .got (.slot j) → r.last j = none
  filled : ∀ j ∈ r.spk.rq.queued,
    r.last j = some true ∨ r.spk.net = .got (.slot j)

theorem filledInv_init (n sz : Nat) (tick : BitVec 64) (time : Int)
    (hn : 0 < n) : FilledInv (SpeakerRun.init n sz tick time) where
  threads := heldInv_init n sz tick time hn
  opened := fun j _ => rfl
  filled := fun j hj => by
    have hempty : (SpeakerRun.init n sz tick time).spk.rq.queued = [] := rfl
    rw [hempty] at hj
    simp at hj

private theorem verdicts_got {s : Speaker} {j : Nat}
    (hgot : s.net = .got (.slot j)) (last : Nat → Option Bool) (i : NetIn) :
    s.verdicts last (.net i) j =
      some (recvFrame (s.rq.at' j) i.stream.recv).ok := by
  unfold Speaker.verdicts
  rw [hgot]
  simp only
  rw [Function.update_self, checkStream_ok]
  rfl

/-- The account of a slot changes when the slot is fed, which leaves the thread
about to receive into it, and when it is received into. -/
private theorem verdicts_cases (s : Speaker) (last : Nat → Option Bool)
    (op : SpkOp) (j : Nat) :
    (s.verdicts last op j = last j ∧
      ((s.step op).net = .got (.slot j) → s.net = .got (.slot j))) ∨
    ((s.step op).net = .got (.slot j) ∧ s.verdicts last op j = none) ∨
    (∃ i, op = .net i ∧ s.net = .got (.slot j) ∧
      ∀ r, (s.step op).net ≠ .got r) := by
  cases op with
  | play => exact Or.inl ⟨rfl, fun h => (net_playStep s).symm.trans h⟩
  | net i =>
      simp only [Speaker.verdicts, Speaker.step, Speaker.netStep]
      cases hpc : s.net with
      | lost =>
          refine Or.inl ⟨rfl, ?_⟩
          simp only
          split <;> simp [hpc]
      | loop =>
          simp only
          rcases Circle.qFeedup_cases s.rq with ⟨_, _, hq⟩ | ⟨_, hq⟩
          · rw [hq]
            cases hready : i.ready with
            | false => exact Or.inl ⟨rfl, by simp [hpc]⟩
            | true =>
                by_cases hj : j = s.rq.puti
                · rw [hj]
                  exact Or.inr (Or.inl ⟨rfl, Function.update_self _ _ _⟩)
                · refine Or.inl ⟨Function.update_of_ne hj _ _, ?_⟩
                  simp [Ne.symm hj]
          · rw [hq]
            cases hready : i.ready with
            | false => exact Or.inl ⟨rfl, by simp [hpc]⟩
            | true => exact Or.inl ⟨rfl, by simp [Circle.dummy]⟩
      | got pk =>
          have hleft : ∀ r, (if (recvFrame (s.rq.deref pk) i.stream.recv).ok then
              NetPc.frame pk (recvFrame (s.rq.deref pk) i.stream.recv).bufLen
              else .done pk false) ≠ .got r := by
            intro r
            split <;> simp
          cases pk with
          | scrap => exact Or.inl ⟨rfl, fun h => absurd h (hleft _)⟩
          | slot p =>
              by_cases hj : j = p
              · exact Or.inr (Or.inr ⟨i, rfl, by rw [hj], hleft⟩)
              · exact Or.inl ⟨Function.update_of_ne hj _ _,
                  fun h => absurd h (hleft _)⟩
      | frame pk bufLen =>
          refine Or.inl ⟨rfl, ?_⟩
          simp only
          split
          · simp
          · split <;> simp
      | resync pk newopt => exact Or.inl ⟨rfl, by simp⟩
      | report pk => exact Or.inl ⟨rfl, by simp⟩
      | done pk ok => exact Or.inl ⟨rfl, by cases pk <;> cases ok <;> simp⟩

/-- A slot in hand when a whole frame arrives is filled. -/
private theorem verdicts_whole {r : SpeakerRun} {i : NetIn} {j : Nat}
    (hgot : r.spk.net = .got (.slot j)) (hwhole : r.ArrivesWhole (.net i)) :
    r.spk.verdicts r.last (.net i) j = some true := by
  rw [verdicts_got hgot, (recvFrame_ok_iff _ _).mpr (hwhole i rfl j
    (NetPc.mem_receiving.mpr hgot))]

theorem filledInv_step {r : SpeakerRun} (h : FilledInv r) (op : SpkOp)
    (hwhole : r.ArrivesWhole op) : FilledInv (r.step op) := by
  refine ⟨heldInv_step h.threads op, ?_, ?_⟩
  · intro j hj
    show r.spk.verdicts r.last op j = none
    rcases verdicts_cases r.spk r.last op j with
      ⟨hsame, hgot⟩ | ⟨_, hnone⟩ | ⟨_, _, _, hleft⟩
    · exact hsame.trans (h.opened j (hgot hj))
    · exact hnone
    · exact absurd hj (hleft _)
  · intro j hj
    show r.spk.verdicts r.last op j = some true ∨ (r.spk.step op).net = _
    rcases mem_queued_step h.threads op hj with hold | hnew
    · rcases h.filled j hold with htrue | hgot
      · rcases verdicts_cases r.spk r.last op j with
          ⟨hsame, _⟩ | ⟨hnew, _⟩ | ⟨i, rfl, hgot, _⟩
        · exact Or.inl (hsame.trans htrue)
        · exact Or.inr hnew
        · exact Or.inl (verdicts_whole hgot hwhole)
      · cases op with
        | play => exact Or.inr ((net_playStep r.spk).trans hgot)
        | net i => exact Or.inl (verdicts_whole hgot hwhole)
    · exact Or.inr hnew

theorem FilledInv.noneFailed {r : SpeakerRun} (h : FilledInv r) :
    r.NoneFailed := by
  intro j hj
  rcases h.filled j hj with htrue | hgot
  · rw [htrue]
    simp
  · rw [h.opened j hgot]
    simp

/-- The chunk the player takes is unlocked, so it is not the one being
received. -/
theorem FilledInv.takesFilled {r : SpeakerRun} (h : FilledInv r) (op : SpkOp) :
    r.TakesFilled op := by
  intro _ _ j hj
  have hinv := h.threads.held.cursors
  rcases Circle.qConsume_cases r.spk.rq with ⟨hne, _, hfree, hq⟩ | ⟨_, hq⟩
  · rw [hq] at hj
    obtain rfl : r.spk.rq.geti = j := by simpa using hj
    have hfront : r.spk.rq.geti ∈ r.spk.rq.queued := by
      rw [Circle.queued_served hinv hne]
      exact List.mem_cons_self
    rcases h.filled _ hfront with htrue | hgot
    · exact htrue
    · have hlocked := (h.threads.held.fst r.spk.rq.geti (by rw [hgot]; rfl)).2
      exact absurd rfl (Circle.ne_of_locked hlocked hfree)
  · rw [hq] at hj
    simp at hj

/-- The slot of a failed receive is queued at once. -/
private theorem arrivesWhole_of_noneFailed {r : SpeakerRun} (h : FilledInv r)
    (op : SpkOp) (hnone : (r.step op).NoneFailed) : r.ArrivesWhole op := by
  intro i hop j hrecv
  have hgot := NetPc.mem_receiving.mp hrecv
  obtain rfl := SpkOp.mem_input.mp hop
  have hverdict := hnone j (receive_step h.threads hgot i).1
  rw [show (r.step (.net i)).last j = _ from verdicts_got hgot r.last i]
    at hverdict
  apply (recvFrame_ok_iff _ _).mp
  simpa using hverdict

/-! ## When a receive leaves the queue as it was -/

/--
**A failed receive always changes the queue.**

For every state of the queue in which `q_feedup` hands out a slot, and every
sequence of `recv` results: the queue is left as it was in case `_check_stream`
fails only if it does not fail, which is when the frame arrives whole.  Over the
runs of the two threads: no slot whose receive failed is ever queued iff every
frame received into a slot arrives whole, and then every chunk the player takes
was completely filled.
-/
theorem leavesQueue_iff_frameArrives (cli : Sclient) {c c' : Circle} {j : Nat}
    (i : StreamIn) (hfed : c.qFeedup false = (c', some (.slot j)))
    {n : Nat} (sz : Nat) (tick : BitVec 64) (time : Int) (ops : List SpkOp)
    (hn : 0 < n) :
    (((cli.checkStream c' (.slot j) i).ok = false →
        c.SameQueue ((cli.checkStream c' (.slot j) i).rq.release
          (some (.slot j)))) ↔
      FrameArrives (c'.at' j).len i.recv) ∧
    (Throughout SpeakerRun.step SpeakerRun.NoneFailed
        (SpeakerRun.init n sz tick time) ops ↔
      Along SpeakerRun.step SpeakerRun.ArrivesWhole
        (SpeakerRun.init n sz tick time) ops) ∧
    (Along SpeakerRun.step SpeakerRun.ArrivesWhole
        (SpeakerRun.init n sz tick time) ops →
      Along SpeakerRun.step SpeakerRun.TakesFilled
        (SpeakerRun.init n sz tick time) ops) := by
  have hinit := filledInv_init n sz tick time hn
  refine ⟨?_, ?_, ?_⟩
  · have hok : (cli.checkStream c' (.slot j) i).ok = true ↔
        FrameArrives (c'.at' j).len i.recv := by
      rw [checkStream_ok]
      exact recvFrame_ok_iff _ _
    rw [← hok]
    constructor
    · intro hsame
      by_contra hfail
      have hfail' := Bool.eq_false_iff.mpr hfail
      have hgrown := length_failed hfed hfail'
      have hlen := (hsame hfail').1
      omega
    · intro htrue hfail
      rw [htrue] at hfail
      exact Bool.noConfusion hfail
  · exact throughout_iff_along
      (fun r op h hwhole => filledInv_step h op hwhole)
      (fun r h => h.noneFailed)
      (fun r op h => arrivesWhole_of_noneFailed h op) ops _ hinit
  · exact along_of_inv (fun r op h hwhole => filledInv_step h op hwhole)
      (fun r op h _ => h.takesFilled op) ops _ hinit

/-- A frame with a whole payload. -/
def wholeFrame : List RecvOut :=
  [.data ({ BufHdr.zero with
      frmSig := syncData, bufLen := BitVec.ofNat 32 tcpSndLen }.encode ++
    List.replicate tcpSndLen 7)]

/-- `leavesQueue_iff_frameArrives` for a frame that arrives whole. -/
theorem leavesQueue_whole_frame :
    (((Sclient.new 0 0).checkStream (Circle.reserve 1 tcpSndLen).fed (.slot 0)
          ⟨wholeFrame, 0, 0, []⟩).ok = false →
        (Circle.reserve 1 tcpSndLen).SameQueue
          (((Sclient.new 0 0).checkStream (Circle.reserve 1 tcpSndLen).fed
            (.slot 0) ⟨wholeFrame, 0, 0, []⟩).rq.release (some (.slot 0))) ↔
      FrameArrives ((Circle.reserve 1 tcpSndLen).fed.at' 0).len wholeFrame) ∧
    Throughout SpeakerRun.step SpeakerRun.NoneFailed
      (SpeakerRun.init 1 tcpSndLen 0 0) (receiveThenPlay wholeFrame) ∧
    Along SpeakerRun.step SpeakerRun.TakesFilled
      (SpeakerRun.init 1 tcpSndLen 0 0) (receiveThenPlay wholeFrame) := by
  have hwhole : Along SpeakerRun.step SpeakerRun.ArrivesWhole
      (SpeakerRun.init 1 tcpSndLen 0 0) (receiveThenPlay wholeFrame) := by
    decide +kernel
  obtain ⟨hcall, hnone, htakes⟩ := leavesQueue_iff_frameArrives
    (Sclient.new 0 0) ⟨wholeFrame, 0, 0, []⟩
    (rfl : (Circle.reserve 1 tcpSndLen).qFeedup false = (_, some (.slot 0)))
    tcpSndLen 0 0 (receiveThenPlay wholeFrame) Nat.one_pos
  exact ⟨hcall, hnone.mpr hwhole, htakes hwhole⟩

/-- The server closes the connection before the header.  The empty queue has one
chunk more afterwards, and the player takes it. -/
theorem leavesQueue_fails_on_close :
    ¬((((Sclient.new 0 0).checkStream (Circle.reserve 1 tcpSndLen).fed (.slot 0)
          ⟨[], 0, 0, []⟩).ok = false →
        (Circle.reserve 1 tcpSndLen).SameQueue
          (((Sclient.new 0 0).checkStream (Circle.reserve 1 tcpSndLen).fed
            (.slot 0) ⟨[], 0, 0, []⟩).rq.release (some (.slot 0))))) ∧
    ¬ Along SpeakerRun.step SpeakerRun.TakesFilled
      (SpeakerRun.init 1 tcpSndLen 0 0) (receiveThenPlay []) := by
  constructor
  · intro h
    exact absurd (h (by decide)).1 (by decide)
  · intro h
    have hplay := (along_append (List.replicate 5 (SpkOp.net (NetIn.having []))
      ++ List.replicate 5 .play) [.play] (SpeakerRun.init 1 tcpSndLen 0 0)).mp h
    exact absurd (hplay.2.1 rfl rfl 0 (by decide)) (by decide)

end RoomSpeaker
