import RoomSpeaker.Foundation.Custody
import RoomSpeaker.Model.Client
import RoomSpeaker.Verified.CircleRuns
import RoomSpeaker.Verified.SpeakerSpec

/-!
# Who holds which chunk

The queue keeps one flag a slot; who raised it is not recorded, and the cursors
move over locked slots freely.  `Speaker.hold` is the record the program does
without: the slot a thread has obtained and not yet released.  Every step of the
program, on every path through the two loops, obeys the discipline of custody,
so flag and record agree in every reachable state.

## Main results

* `locking_clientStep` — the program keeps the discipline.
* `oneHolder_run` — in every reachable state the slots handed out next are
  nobody's, each thread has locked one slot at most, and no lock outlives its
  holder; and a slot changes hands only by way of nobody.
-/

namespace RoomSpeaker

open Foundation

/-! ## The record -/

/-- The slot among the chunks a pointer may point to. -/
def slotOf : Option ChunkRef → Option Nat
  | some (.slot j) => some j
  | _ => none

/-- The slot a thread is between obtaining and releasing. -/
def Speaker.hold (s : Speaker) : Thread → Option Nat
  | .net => slotOf s.net.holds
  | .player => slotOf s.play.holds

/-- The flags of the queue. -/
def Circle.lock (c : Circle) (j : Nat) : Bool := (c.at' j).locked

theorem hold_congr {s t : Speaker} (hnet : slotOf t.net.holds = slotOf s.net.holds)
    (hplay : slotOf t.play.holds = slotOf s.play.holds) : t.hold = s.hold := by
  funext th
  cases th with
  | net => exact hnet
  | player => exact hplay

theorem hold_update_net {s t : Speaker} (hplay : t.play.holds = s.play.holds) :
    t.hold = Function.update s.hold .net (slotOf t.net.holds) := by
  funext th
  cases th with
  | net => rw [Function.update_self]; rfl
  | player =>
      rw [Function.update_of_ne (by simp)]
      exact congrArg slotOf hplay

theorem hold_update_player {s t : Speaker} (hnet : t.net.holds = s.net.holds) :
    t.hold = Function.update s.hold .player (slotOf t.play.holds) := by
  funext th
  cases th with
  | net =>
      rw [Function.update_of_ne (by simp)]
      exact congrArg slotOf hnet
  | player => rw [Function.update_self]; rfl

namespace Circle

/-- Setting a flag of the pool. -/
theorem lock_setLocked {c : Circle} {i : Nat} (hi : i < c.queue.length)
    (b : Bool) : (c.setLocked i b).lock = Function.update c.lock i b := by
  funext j
  unfold lock
  by_cases hj : j = i
  · subst hj
    rw [Function.update_self, at_setLocked_self c j b hi]
  · rw [Function.update_of_ne hj, at_setLocked_ne c i j b hj]

/-- A pointer to no slot of the pool has no flag to take down. -/
theorem lock_release (c : Circle) (i : Nat) :
    (c.setLocked i false).lock = Function.update c.lock i false := by
  by_cases hi : i < c.queue.length
  · exact lock_setLocked hi false
  · have hnone : (c.at' i).locked = false := by
      simp only [at', List.getD, List.getElem?_eq_none (Nat.le_of_not_lt hi),
        Option.getD_none]
      rfl
    have hsame : c.setLocked i false = c := by
      simp only [setLocked, setAt,
        List.set_eq_of_length_le (Nat.le_of_not_lt hi)]
    rw [hsame]
    funext j
    by_cases hj : j = i
    · subst hj
      rw [Function.update_self]
      exact hnone
    · rw [Function.update_of_ne hj]

/-- Writing into a chunk leaves its flag. -/
theorem lock_assign {c : Circle} {r : ChunkRef} {k : Chunk}
    (h : k.locked = (c.deref r).locked) : (c.assign r k).lock = c.lock := by
  funext j
  cases r with
  | scrap => rfl
  | slot i =>
      unfold lock
      rcases c.at_setAt_cases i j k with ⟨hj, hnew⟩ | hold
      · show ((c.setAt i k).at' j).locked = _
        rw [hnew, h, hj]
        rfl
      · show ((c.setAt i k).at' j).locked = _
        rw [hold]

theorem lock_drops {c c' : Circle} (h : c.Drops c') : c'.lock = c.lock := by
  funext j
  unfold lock
  rw [at_congr h.cells]

theorem drops_steer {c : Circle} (h : c.CursorInv) (op : SteerOp) :
    c.Drops (c.steer op) := by
  cases op with
  | forceOptim optlen => exact drops_forceOptim h optlen
  | removeBack els => exact drops_removeBack h els
  | reset => exact drops_reset h
  | setOptimPerc optim => exact drops_setOptimPerc h optim

end Circle

/-! ## One step -/

theorem cursorInv_clientStep {s : Speaker} (h : s.rq.CursorInv)
    (op : ClientOp) : (s.clientStep op).rq.CursorInv := by
  cases op with
  | steer op => exact (Circle.drops_steer h op).inv
  | thread op =>
      show (s.step op).rq.CursorInv
      cases moves_step s h op with
      | calm hdrop hnet hplay hgot => exact hdrop.inv
      | feed hroom hfree hrq hloop hnet hplay =>
          rw [hrq]
          exact h.fed hroom
      | scrap hrq hloop hnet hplay =>
          rw [hrq]
          exact h.assign .scrap _
      | take hne hfree hrq hnet hidle hplay =>
          rw [hrq]
          exact h.served hne
      | receive hgot hrq hnet hdone hplay =>
          rw [hrq]
          exact h.assign _ _
      | played hhold hrq hnet hplay =>
          rw [hrq]
          exact h.assign _ _
      | freed hheld hrq hnet hplay =>
          rw [hrq]
          exact h.assign _ _
      | returned hheld hrq hnet hplay =>
          rw [hrq]
          exact h.assign _ _

/-- A thread that releases its chunk gives the slot back; the scrap chunk is
no slot of the pool. -/
theorem locking_release {c : Circle} {hold hold' : Thread → Option Nat}
    (th : Thread) {r : ChunkRef} (hheld : hold th = slotOf (some r))
    (hafter : hold' = Function.update hold th none) :
    Locking hold hold' c.lock (c.release (some r)).lock := by
  cases r with
  | scrap =>
      apply Locking.keep
      · have hidle : hold th = none := hheld
        rw [hafter, ← hidle, Function.update_eq_self]
      · rfl
  | slot j => exact .give th j hheld hafter (c.lock_release j)

/-- A step of the program takes a free slot, gives back the slot in hand, or
does neither; every path through the two loops gives back what it took. -/
theorem locking_clientStep {s : Speaker} (h : s.rq.CursorInv)
    (op : ClientOp) :
    Locking s.hold (s.clientStep op).hold s.rq.lock
      (s.clientStep op).rq.lock := by
  cases op with
  | steer op => exact .keep rfl (Circle.lock_drops (Circle.drops_steer h op))
  | thread op =>
      show Locking s.hold (s.step op).hold s.rq.lock (s.step op).rq.lock
      cases moves_step s h op with
      | calm hdrop hnet hplay hgot =>
          apply Locking.keep
          · exact hold_congr (congrArg slotOf hnet) (congrArg slotOf hplay)
          · exact Circle.lock_drops hdrop
      | feed hroom hfree hrq hloop hnet hplay =>
          apply Locking.take .net s.rq.puti
          · show slotOf s.net.holds = none
            rw [hloop]
            rfl
          · exact hfree
          · rw [hold_update_net (congrArg PlayPc.holds hplay), hnet]
            rfl
          · rw [hrq, ← Circle.lock_setLocked (h.pool ▸ h.puti_lt)]
            rfl
      | scrap hrq hloop hnet hplay =>
          apply Locking.keep
          · apply hold_congr
            · rw [hnet, hloop]
              rfl
            · rw [hplay]
          · rw [hrq]
            rfl
      | take hne hfree hrq hnet hidle hplay =>
          apply Locking.take .player s.rq.geti
          · show slotOf s.play.holds = none
            rw [hidle]
            rfl
          · exact hfree
          · rw [hold_update_player (congrArg NetPc.holds hnet), hplay]
            rfl
          · rw [hrq, ← Circle.lock_setLocked (h.pool ▸ h.geti)]
            rfl
      | receive hgot hrq hnet hdone hplay =>
          apply Locking.keep
          · apply hold_congr
            · rw [hnet, hgot]
              rfl
            · rw [hplay]
          · rw [hrq]
            exact Circle.lock_assign (recvFrame_locked _ _)
      | played hhold hrq hnet hplay =>
          apply Locking.keep
          · apply hold_congr
            · rw [hnet]
            · rw [hplay, hhold]
              rfl
          · rw [hrq]
            exact Circle.lock_assign rfl
      | freed hheld hrq hnet hplay =>
          rw [hrq]
          apply locking_release .net
          · exact congrArg slotOf hheld
          · rw [hold_update_net (congrArg PlayPc.holds hplay), hnet]
            rfl
      | returned hheld hrq hnet hplay =>
          rw [hrq]
          apply locking_release .player
          · exact congrArg slotOf hheld
          · rw [hold_update_player (congrArg NetPc.holds hnet), hplay]
            rfl

/-! ## Runs -/

/-- No slot has two holders, and no lock is without one. -/
structure Speaker.OneHolder (s : Speaker) : Prop where
  feedup : ∀ scrap j, (s.rq.qFeedup scrap).2 = some (.slot j) →
    ∀ t, s.hold t ≠ some j
  consume : ∀ j, s.rq.qConsume.2 = some (.slot j) → ∀ t, s.hold t ≠ some j
  offPut : ∀ index j, (s.rq.getOffPut index).2 = some (.slot j) →
    ∀ t, s.hold t ≠ some j
  apart : ∀ t t' j, s.hold t = some j → s.hold t' = some j → t = t'
  locked : ∀ j, (s.rq.at' j).locked = true ↔ ∃ t, s.hold t = some j
  idle : s.net.holds = none → s.play.holds = none → s.rq.NoneLocked

/-- A call hands out only slots whose flag is down. -/
theorem oneHolder_of_guarded {s : Speaker}
    (h : Guarded s.hold s.rq.lock) : s.OneHolder where
  feedup := by
    intro scrap j hj
    rcases s.rq.qFeedup_scrap_cases scrap with ⟨_, hfree, hfed⟩ | ⟨_, hnull⟩
    · rw [hfed] at hj
      obtain rfl : s.rq.puti = j := by simpa using hj
      exact h.free hfree
    · rw [hnull] at hj
      cases scrap <;> simp at hj
  consume := by
    intro j hj
    rcases s.rq.qConsume_cases with ⟨_, _, hfree, hserved⟩ | ⟨_, hnull⟩
    · rw [hserved] at hj
      obtain rfl : s.rq.geti = j := by simpa using hj
      exact h.free hfree
    · rw [hnull] at hj
      cases hj
  offPut := by
    intro index j hj
    unfold Circle.getOffPut at hj
    simp only at hj
    split at hj
    · next hfree =>
        obtain rfl := ChunkRef.slot.inj (Option.some.inj hj)
        exact h.free hfree
    · cases hj
  apart := h.apart
  locked := h.locked
  idle := by
    intro hnet hplay j _
    apply h.idle
    intro t
    cases t with
    | net =>
        show slotOf s.net.holds = none
        rw [hnet]
        rfl
    | player =>
        show slotOf s.play.holds = none
        rw [hplay]
        rfl

private theorem cursorInv_init (n sz : Nat) (tick : BitVec 64) (time : Int)
    (hn : 0 < n) : (Speaker.init n sz tick time).rq.CursorInv :=
  (heldInv_init n sz tick time hn).held.cursors

private theorem locking_along (ops : List ClientOp) (s : Speaker)
    (h : s.rq.CursorInv) :
    Along Speaker.clientStep (fun s op => Locking s.hold (s.clientStep op).hold
      s.rq.lock (s.clientStep op).rq.lock) s ops :=
  along_of_inv (I := fun s => s.rq.CursorInv) (C := fun _ _ => True)
    (fun _ op h _ => cursorInv_clientStep h op)
    (fun _ op h _ => locking_clientStep h op) ops s h (along_true _ ops s)

theorem guarded_init (n sz : Nat) (tick : BitVec 64) (time : Int) :
    Guarded (Speaker.init n sz tick time).hold
      (Speaker.init n sz tick time).rq.lock where
  locked := by
    intro j
    have hfree : (Speaker.init n sz tick time).rq.lock j = false := by
      show ((List.replicate n (Chunk.new sz)).getD j default).locked = false
      rw [List.getD, List.getElem?_replicate]
      split <;> rfl
    rw [hfree]
    constructor
    · intro hfalse
      cases hfalse
    · rintro ⟨t, ht⟩
      cases t <;> cases ht
  apart := by
    intro t t' j ht
    cases t <;> cases ht

/-- In every reachable state of the client program a chunk has one holder at
most and no lock is left behind; and when a slot was held by one thread and is
held by another, there was a state between the two in which nobody held it. -/
theorem oneHolder_run (n sz : Nat) (tick : BitVec 64) (time : Int)
    (hn : 0 < n) (ops : List ClientOp) :
    Throughout Speaker.clientStep Speaker.OneHolder
      (Speaker.init n sz tick time) ops ∧
    ∀ before after j t t', ops = before ++ after → t ≠ t' →
      (run Speaker.clientStep (Speaker.init n sz tick time) before).hold t =
        some j →
      (run Speaker.clientStep (Speaker.init n sz tick time) ops).hold t' =
        some j →
      ¬Throughout Speaker.clientStep (fun s => ∃ u, s.hold u = some j)
        (run Speaker.clientStep (Speaker.init n sz tick time) before) after := by
  have hguard := guarded_init n sz tick time
  have hcur := cursorInv_init n sz tick time hn
  have hagree : ∀ ops, Throughout Speaker.clientStep
      (fun s => Guarded s.hold s.rq.lock) (Speaker.init n sz tick time) ops :=
    fun ops => guarded_run ops _ (locking_along ops _ hcur) hguard
  constructor
  · exact throughout_of_inv (I := fun s => s.rq.CursorInv ∧
      Guarded s.hold s.rq.lock)
      (fun s op h => ⟨cursorInv_clientStep h.1 op,
        (locking_clientStep h.1 op).guarded h.2⟩)
      (fun s h => oneHolder_of_guarded h.2) ops _ ⟨hcur, hguard⟩
  · rintro before after j t t' rfl hne ht ht' hbusy
    have hmid := (along_append before after _).mp
      (locking_along (before ++ after) _ hcur)
    have hstays := free_between after _ t hmid.2 (hagree before).last ht hbusy
    rw [← run_append] at hstays
    exact hne ((hagree (before ++ after)).last.apart t t' j hstays ht')

/-- A frame is received into one of two slots while the optimum and the cursors
are moved. -/
theorem oneHolder_two_slots :
    Throughout Speaker.clientStep Speaker.OneHolder (Speaker.init 2 4 0 0)
      ((receiveThenPlay [.data [1, 2]]).map .thread ++
        [.steer (.forceOptim (-1)), .steer .reset, .steer (.removeBack 3)]) :=
  (oneHolder_run 2 4 0 0 (by decide) _).1

end RoomSpeaker
