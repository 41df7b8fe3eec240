import Mathlib.Logic.Relation
import RoomSpeaker.Verified.SpeakerSpec

/-!
# The network thread against `_get_data`

The network thread of the client program goes through `_get_data` in small
steps, since the player may come in between.  Left alone it computes what the
function computes in one piece.

## Main results

* `alone_checkStream` — the steps from a chunk in hand to the return of
  `_check_stream` leave what `Sclient.checkStream` leaves.
* `alone_getData` — the steps of one turn of the loop leave what
  `Sclient.getData` leaves, and go on or give up as it says.
-/

namespace RoomSpeaker

open Foundation

/-- The network thread gets from `s` to `t` on its own, with the same inputs at
each step. -/
def Speaker.Alone (i : StreamIn) : Speaker → Speaker → Prop :=
  Relation.ReflTransGen fun s t => s.netStep ⟨true, true, i⟩ = t

/-- The network thread's side of the program replaced. -/
def Speaker.at (s : Speaker) (rq : Circle) (cli : Sclient) (pc : NetPc) :
    Speaker :=
  { s with rq := rq, cli := cli, net := pc }

variable {s : Speaker} {rq : Circle} {cli : Sclient} {i : StreamIn}

private theorem alone_step {t : Speaker} (h : s.netStep ⟨true, true, i⟩ = t) :
    s.Alone i t :=
  Relation.ReflTransGen.single h

/-- The steps of a resync: `force_optim` if it is called, then the report. -/
private theorem alone_resync (hinv : rq.CursorInv) (pk : ChunkRef)
    (newopt : Option Int) :
    (s.at rq cli (.resync pk newopt)).Alone i
      (s.at
        (match newopt with
          | some n => rq.forceOptim n
          | none => rq)
        ((cli.sendQos (rq.deref pk).hdr i.sends).1.countBps i.tick)
        (.done pk true)) := by
  refine (alone_step rfl).trans (alone_step ?_)
  cases newopt with
  | none => rfl
  | some n =>
      simp only [Speaker.netStep, Speaker.at]
      rw [deref_drops (Circle.drops_forceOptim hinv n)]

/-- The steps from a received frame to the return of `_check_stream`. -/
private theorem alone_onFrame (hinv : rq.CursorInv) (pk : ChunkRef)
    (bufLen : Nat) (sock : List RecvOut) :
    (s.at rq cli (.frame pk bufLen)).Alone i
      (s.at (cli.onFrame rq (rq.deref pk).hdr bufLen i sock).rq
        (cli.onFrame rq (rq.deref pk).hdr bufLen i sock).cli
        (.done pk true)) := by
  have hfirst : (s.at rq cli (.frame pk bufLen)).Alone i _ := alone_step rfl
  simp only [Speaker.netStep, Speaker.at] at hfirst
  unfold Sclient.onFrame
  by_cases hreset : (rq.deref pk).hdr.frmSig = resetAll
  · simp only [hreset, if_true] at hfirst ⊢
    exact hfirst
  · simp only [hreset, if_false] at hfirst ⊢
    by_cases hsync : (rq.deref pk).hdr.syncs = true
    · simp only [hsync, if_true] at hfirst ⊢
      exact hfirst.trans (alone_resync hinv pk _)
    · simp only [hsync] at hfirst ⊢
      exact hfirst

/-- The steps from a chunk in hand to the return of `_check_stream`. -/
theorem alone_checkStream {pk : ChunkRef} {b : Option ChunkRef}
    (hheld : rq.Held (some pk) b) :
    (s.at rq cli (.got pk)).Alone i
      (s.at (cli.checkStream rq pk i).rq (cli.checkStream rq pk i).cli
        (.done pk (cli.checkStream rq pk i).ok)) := by
  have hfirst : (s.at rq cli (.got pk)).Alone i _ := alone_step rfl
  simp only [Speaker.netStep, Speaker.at] at hfirst
  rw [checkStream_ok]
  unfold Sclient.checkStream
  by_cases hok : (recvFrame (rq.deref pk) i.recv).ok = true
  · simp only [hok, if_true] at hfirst ⊢
    have hkept := hheld.assign pk _ (recvFrame_locked (rq.deref pk) i.recv)
    have hback := hheld.deref_assign (recvFrame (rq.deref pk) i.recv).chunk
    rw [← congrArg Chunk.hdr hback]
    exact hfirst.trans (alone_onFrame hkept.cursors pk _ _)
  · simp only [hok] at hfirst ⊢
    exact hfirst

/-- One turn of the loop of `_get_data` on a readable socket. -/
theorem alone_getData (h : HeldInv s) (hnet : s.net = .loop) :
    s.Alone i
      (s.at (s.cli.getData s.rq i).rq (s.cli.getData s.rq i).cli
        (if (s.cli.getData s.rq i).ok then .loop else .lost)) := by
  have hheld := h.held
  have hinv := hheld.cursors
  rw [hnet] at hheld
  have hfirst : s.Alone i _ := alone_step rfl
  unfold Speaker.netStep at hfirst
  rw [hnet] at hfirst
  simp only [if_true] at hfirst
  unfold Sclient.getData
  rcases Circle.qFeedup_cases s.rq with ⟨hroom, hfree, hq⟩ | ⟨_, hq⟩
  · simp only [hq] at hfirst ⊢
    have htaken := hheld.take hinv.puti_lt hfree (hinv.fed hroom) rfl rfl
    refine hfirst.trans ((alone_checkStream htaken).trans (alone_step ?_))
    unfold Speaker.netStep
    cases hok : (s.cli.checkStream s.rq.fed (.slot s.rq.puti) i).ok
    · rfl
    · rfl
  · simp only [hq] at hfirst ⊢
    refine hfirst.trans ((alone_checkStream hheld.takeScrap).trans ?_)
    exact alone_step rfl

end RoomSpeaker
