import RoomSpeaker.Model.Speaker

/-!
# The client program with its queue steered from outside

Besides the two threads, anyone who has the queue may call `force_optim`,
`remove_back`, `reset` or `set_optim_perc` on it at any time.  These calls move
the cursors and the optimum, and touch no chunk.
-/

namespace RoomSpeaker

/-- A call that hands out no chunk. -/
inductive SteerOp where
  | forceOptim (optlen : Int)
  | removeBack (els : Int)
  | reset
  | setOptimPerc (optim : Int)
  deriving DecidableEq

def Circle.steer (c : Circle) : SteerOp → Circle
  | .forceOptim optlen => c.forceOptim optlen
  | .removeBack els => c.removeBack els
  | .reset => c.reset
  | .setOptimPerc optim => c.setOptimPerc optim

/-- A step of a thread, or a call by someone else. -/
inductive ClientOp where
  | thread (op : SpkOp)
  | steer (op : SteerOp)

def Speaker.clientStep (s : Speaker) : ClientOp → Speaker
  | .thread op => s.step op
  | .steer op => { s with rq := s.rq.steer op }

/-- The threads that take chunks from the queue. -/
inductive Thread where
  | net
  | player
  deriving DecidableEq, Repr

end RoomSpeaker
