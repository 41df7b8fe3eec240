import RoomSpeaker.Model.Circle

/-!
# Any sequence of calls on a `Circle`

`QueueThreads` follows one producer and one consumer.  Here anybody may call
any method with any argument, so a list of calls reaches every state the class
allows.  `FeedRun` adds the one thing the queue does not record: the slot the
producer has reserved and not yet released.
-/

namespace RoomSpeaker

open Foundation

/-- A call of a method, or a holder writing its chunk. -/
inductive CircleOp where
  | qFeedup (scrap : Bool)
  | qConsume
  | getOffPut (index : Int)
  | dummy
  | write (pk : ChunkRef) (x : Content)
  | release (pk : Option ChunkRef)
  | removeBack (els : Int)
  | reset
  | setOptimPerc (optim : Int)
  | forceOptim (optlen : Int)
  deriving DecidableEq

def Circle.step (c : Circle) : CircleOp → Circle
  | .qFeedup scrap => (c.qFeedup scrap).1
  | .qConsume => c.qConsume.1
  | .getOffPut index => (c.getOffPut index).1
  | .dummy => c.dummy.1
  | .write pk x => c.assign pk ((c.deref pk).fill x)
  | .release pk => c.release pk
  | .removeBack els => c.removeBack els
  | .reset => c.reset
  | .setOptimPerc optim => c.setOptimPerc optim
  | .forceOptim optlen => c.forceOptim optlen

/-- The argument of a `set_optim_perc` is a percentage. -/
def CircleOp.Percentage : CircleOp → Prop
  | .setOptimPerc optim => 0 ≤ optim ∧ optim ≤ 100
  | _ => True

instance : ∀ op : CircleOp, Decidable op.Percentage
  | .setOptimPerc _ => inferInstanceAs (Decidable (_ ∧ _))
  | .qFeedup _ | .qConsume | .getOffPut _ | .dummy | .write _ _ | .release _
  | .removeBack _ | .reset | .forceOptim _ => isTrue trivial

/-- The producer fills one chunk: it reserves a slot and releases it. -/
def Circle.feedPair (c : Circle) : Circle :=
  (c.qFeedup false).1.release (c.qFeedup false).2

/-- The producer fills `k` chunks. -/
def Circle.feedPairs : Nat → Circle → Circle
  | 0, c => c
  | k + 1, c => feedPairs k c.feedPair

/-! ## The producer's slot -/

/-- The queue and the slot the producer has reserved. -/
structure FeedRun where
  circle : Circle
  reserved : Option Nat

def FeedRun.init (n sz : Nat) : FeedRun := ⟨Circle.reserve n sz, none⟩

/-- The reserved slot after a call. -/
def FeedRun.reservedAfter (r : FeedRun) : CircleOp → Option Nat
  | .qFeedup scrap =>
      match (r.circle.qFeedup scrap).2 with
      | some (.slot i) => some i
      | _ => r.reserved
  | .release pk =>
      match pk with
      | some (.slot i) => if r.reserved = some i then none else r.reserved
      | _ => r.reserved
  | _ => r.reserved

def FeedRun.step (r : FeedRun) (op : CircleOp) : FeedRun :=
  ⟨r.circle.step op, r.reservedAfter op⟩

/-- The producer releases its slot before it asks for another. -/
def FeedRun.OneSlot (r : FeedRun) : CircleOp → Prop
  | .qFeedup _ => r.reserved = none
  | _ => True

instance (r : FeedRun) : ∀ op, Decidable (r.OneSlot op)
  | .qFeedup _ => inferInstanceAs (Decidable (_ = _))
  | .qConsume | .getOffPut _ | .dummy | .write _ _ | .release _
  | .removeBack _ | .reset | .setOptimPerc _ | .forceOptim _ => isTrue trivial

end RoomSpeaker
