import RoomSpeaker.Foundation.Fifo
import RoomSpeaker.Model.Circle

/-!
# One producer and one consumer on a `Circle`

The producer calls `q_feedup(false)`, writes the chunk it got and releases it;
the consumer calls `q_consume`, reads the chunk it got and releases it.  Calls of
`force_optim`, `remove_back`, `reset` and `set_optim_perc` may come at any point
between.  Every call is one step, so a list of calls is an interleaving; a call
that its thread is not in a position to make leaves the state alone.

`QRun` records, beside the state of the threads, what they have done: a
numbered FIFO that follows the outcomes of the calls, the contents the producer
wrote and the contents the consumer read.
-/

namespace RoomSpeaker

open Foundation

/-- A call made by the producer, by the consumer or by anyone. -/
inductive QOp where
  | feedup
  | write (x : Content)
  | releasePut
  | consume
  | read
  | releaseGet
  | forceOptim (n : Int)
  | removeBack (n : Int)
  | reset
  | setOptimPerc (p : Int)
  deriving DecidableEq

/-- The queue and the slot each thread holds.  The flag records whether the
holder is done with the slot: the producer has written it, the consumer has
read it. -/
structure QThreads where
  circle : Circle
  put : Option (Nat × Bool)
  get : Option (Nat × Bool)

/-- One call. -/
def QThreads.step (s : QThreads) : QOp → QThreads
  | .feedup =>
      match s.put with
      | some _ => s
      | none =>
          match s.circle.qFeedup false with
          | (c, some (.slot i)) => { s with circle := c, put := some (i, false) }
          | (c, _) => { s with circle := c }
  | .write x =>
      match s.put with
      | some (i, false) =>
          { s with
            circle := s.circle.setAt i ((s.circle.at' i).fill x)
            put := some (i, true) }
      | _ => s
  | .releasePut =>
      match s.put with
      | some (i, true) =>
          { s with circle := s.circle.release (some (.slot i)), put := none }
      | _ => s
  | .consume =>
      match s.get with
      | some _ => s
      | none =>
          match s.circle.qConsume with
          | (c, some (.slot i)) => { s with circle := c, get := some (i, false) }
          | (c, _) => { s with circle := c }
  | .read =>
      match s.get with
      | some (j, false) => { s with get := some (j, true) }
      | _ => s
  | .releaseGet =>
      match s.get with
      | some (j, true) =>
          { s with circle := s.circle.release (some (.slot j)), get := none }
      | _ => s
  | .forceOptim n => { s with circle := s.circle.forceOptim n }
  | .removeBack n => { s with circle := s.circle.removeBack n }
  | .reset => { s with circle := s.circle.reset }
  | .setOptimPerc p => { s with circle := s.circle.setOptimPerc p }

/-- The threads with the history of their calls. -/
structure QRun where
  threads : QThreads
  fifo : Fifo
  written : List Content
  reads : List Content

/-- How the abstract FIFO follows a call that took the threads from `s` to
`t`: a slot handed to the producer is an accepted item, a slot handed to the
consumer is a served one, and what a dropping call took out of the count is
discarded. -/
def Fifo.follow (f : Fifo) (s t : QThreads) : QOp → Fifo
  | .feedup => if s.put = none ∧ t.put ≠ none then f.accept else f
  | .consume => if s.get = none ∧ t.get ≠ none then f.serve else f
  | .forceOptim _ => f.discard (s.circle.length - t.circle.length)
  | .removeBack _ => f.discard (s.circle.length - t.circle.length)
  | .reset => f.discard (s.circle.length - t.circle.length)
  | _ => f

/-- The content a call adds to what the producer has written. -/
def QThreads.wrote (s : QThreads) : QOp → List Content
  | .write x => match s.put with
      | some (_, false) => [x]
      | _ => []
  | _ => []

/-- The content a call adds to what the consumer has read. -/
def QThreads.took (s : QThreads) : QOp → List Content
  | .read => match s.get with
      | some (j, false) => [(s.circle.at' j).content]
      | _ => []
  | _ => []

def QRun.step (r : QRun) (op : QOp) : QRun where
  threads := r.threads.step op
  fifo := Fifo.follow r.fifo r.threads (r.threads.step op) op
  written := r.written ++ r.threads.wrote op
  reads := r.reads ++ r.threads.took op

/-- Both threads idle on an empty queue of `n` chunks. -/
def QRun.init (n sz : Nat) : QRun where
  threads := ⟨Circle.reserve n sz, none, none⟩
  fifo := Fifo.empty
  written := []
  reads := []

/-! ## The bounded FIFO law -/

/-- The numbers of the items the consumer has read: those served to it, except
one it holds and has not read yet. -/
def QRun.readNumbers (r : QRun) : List Nat :=
  match r.threads.get with
  | some (_, false) => r.fifo.served.dropLast
  | _ => r.fifo.served

/--
The queue behaves as a bounded FIFO so far.

The consumer's reads are the producer's contents at the served numbers, which
increase; every accepted number is served, discarded from the old end or still
queued, and only one of these; each queued slot still holds the content written
for its number; and the count is within the capacity.
-/
structure QRun.FifoRefines (r : QRun) : Prop where
  reads : r.reads.map some = r.readNumbers.map fun n => r.written[n]?
  inOrder : r.fifo.served.Pairwise (· < ·)
  account : (r.fifo.served ++ r.fifo.lost ++ r.fifo.queue).Perm
    (List.range r.fifo.next)
  oldEnd : ∀ m ∈ r.fifo.lost, ∀ n ∈ r.fifo.queue, m < n
  counted : r.fifo.queue.length = r.threads.circle.length
  kept : ∀ j n x, r.fifo.queue[j]? = some n → r.written[n]? = some x →
    (r.threads.circle.at'
      ((r.threads.circle.geti + j) % r.threads.circle.capacity)).content = x
  bound : r.threads.circle.length ≤ r.threads.circle.capacity

/-- The step is not a `q_feedup` that finds the ring full and the chunk under
the put cursor free. -/
def QRun.RoomToFeed (r : QRun) (op : QOp) : Prop :=
  op = .feedup → r.threads.put = none →
    (r.threads.circle.at' r.threads.circle.puti).locked = false →
    r.threads.circle.length ≠ r.threads.circle.capacity

instance (r : QRun) (op : QOp) : Decidable (r.RoomToFeed op) :=
  inferInstanceAs (Decidable (_ → _ → _ → _))

end RoomSpeaker
