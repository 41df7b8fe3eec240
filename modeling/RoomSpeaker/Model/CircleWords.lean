import RoomSpeaker.Foundation.Loop
import RoomSpeaker.Model.CircleCalls

/-!
# The play queue in machine words (`srvq.h`, `class Circle`)

`Circle` counts in natural numbers.  Here the same class is written once more
over the types its members have: the counters are `size_t`, the arguments are
`int`, and every sum, difference and product wraps.  The two drop loops are
loops, with the guards the source gives them.

`CircleWords.circle` reads a `Circle` off the words, and `CircleCall.op` the
call on it.
-/

namespace RoomSpeaker

open Foundation

/-- `size_t`. -/
abbrev SizeT := BitVec 64

/-- `int`. -/
abbrev CInt := BitVec 32

/-- An `int` where a `size_t` is wanted. -/
def CInt.toSize (n : CInt) : SizeT := n.signExtend 64

structure CircleWords where
  queue : List Chunk
  scrap : Chunk
  chunksz : Nat
  maxqsz : SizeT
  optim : SizeT
  puti : SizeT
  geti : SizeT
  elems : SizeT
  blockGet : Bool
  deriving DecidableEq

namespace CircleWords

/-- The queue the words stand for. -/
def circle (w : CircleWords) : Circle where
  queue := w.queue
  scrap := w.scrap
  chunksz := w.chunksz
  maxqsz := w.maxqsz.toNat
  optim := w.optim.toNat
  puti := w.puti.toNat
  geti := w.geti.toNat
  elems := w.elems.toNat
  blockGet := w.blockGet

/-! ## Chunk memory -/

/-- `*_queue[i]`. -/
def at' (w : CircleWords) (i : SizeT) : Chunk := w.queue.getD i.toNat default

/-- Sets `_queue[i]->_locked`. -/
def setLocked (w : CircleWords) (i : SizeT) (b : Bool) : CircleWords :=
  { w with queue := w.queue.set i.toNat { w.at' i with locked := b } }

/-- The chunk a pointer points to. -/
def deref (w : CircleWords) : ChunkRef → Chunk
  | .slot i => w.queue.getD i default
  | .scrap => w.scrap

/-- Overwrites the chunk a pointer points to. -/
def assign (w : CircleWords) (r : ChunkRef) (k : Chunk) : CircleWords :=
  match r with
  | .slot i => { w with queue := w.queue.set i k }
  | .scrap => { w with scrap := k }

/-! ## Methods -/

/-- `Circle::reserve(chunks, chunk)` on a new `Circle`. -/
def reserve (chunks : CInt) (chunk : Nat) : CircleWords where
  queue := List.replicate chunks.toInt.toNat (Chunk.new chunk)
  scrap := Chunk.new chunk
  chunksz := chunk
  maxqsz := chunks.toSize
  optim := 0
  puti := 0
  geti := 0
  elems := 0
  blockGet := false

/-- `Circle::_inc`. -/
def inc (w : CircleWords) (e : SizeT) : SizeT := (e + 1) % w.maxqsz

/-- The result says whether the optimum changed. -/
def setOptimPerc (w : CircleWords) (optim : CInt) : CircleWords × Bool :=
  let newoptim := optim.toSize * w.maxqsz / 100
  if newoptim ≠ w.optim then ({ w with optim := newoptim }, true)
  else (w, false)

def reset (w : CircleWords) : CircleWords :=
  { w with geti := 0, puti := 0, elems := 0 }

/-- Unlocks the chunk; a null pointer is left alone. -/
def release (w : CircleWords) : Option ChunkRef → CircleWords
  | some r => w.assign r { w.deref r with locked := false }
  | none => w

def qFeedup (w : CircleWords) (scrap : Bool) : CircleWords × Option ChunkRef :=
  if w.elems ≤ w.maxqsz ∧ (w.at' w.puti).locked = false then
    let elems := w.elems + 1
    ({ w.setLocked w.puti true with
        puti := w.inc w.puti
        elems := elems
        blockGet := w.blockGet && decide (elems < w.optim) },
      some (.slot w.puti.toNat))
  else (w, if scrap then some .scrap else none)

/-- The index is an `int`: the remainder is cut to 32 bits and extended again
where it indexes the pool. -/
def getOffPut (w : CircleWords) (index : CInt) :
    CircleWords × Option ChunkRef :=
  let mindex : CInt := ((w.puti + index.toSize) % w.maxqsz).setWidth 32
  if (w.at' mindex.toSize).locked = false then
    (w.setLocked mindex.toSize true, some (.slot mindex.toSize.toNat))
  else (w, none)

def qConsume (w : CircleWords) : CircleWords × Option ChunkRef :=
  if w.elems ≠ 0 ∧ w.blockGet = false ∧ (w.at' w.geti).locked = false then
    ({ w.setLocked w.geti true with
        geti := w.inc w.geti
        elems := w.elems - 1 },
      some (.slot w.geti.toNat))
  else
    ({ w with blockGet := w.blockGet && decide (w.elems < w.optim) }, none)

/-- `Circle::dummy`. -/
def dummy (w : CircleWords) : CircleWords × ChunkRef :=
  ({ w with scrap := { w.scrap with locked := true } }, .scrap)

/-! ## The drop loops -/

/-- The body of both drop loops. -/
def dropOne (w : CircleWords) : CircleWords :=
  { w with geti := w.inc w.geti, elems := w.elems - 1 }

/-- `--e` lowers any counter but zero. -/
theorem toNat_pred_lt {e : SizeT} (h : e ≠ 0) : (e - 1).toNat < e.toNat := by
  bv_omega

theorem ne_zero_of_gt {e x : SizeT} (h : e > x) : e ≠ 0 := by
  bv_omega

/-- `while(els && _elems)`.  An `els` that starts negative runs on below the
least `int`; there it wraps. -/
def removeBackLoop : Loop (CInt × CircleWords) where
  guard s := s.1 ≠ 0 ∧ s.2.elems ≠ 0
  body s := (s.1 - 1, s.2.dropOne)
  measure s := s.2.elems.toNat
  falls _ h := toNat_pred_lt (of_decide_eq_true h).2

def removeBack (w : CircleWords) (els : CInt) : CircleWords :=
  (removeBackLoop.run (els, w)).2

/-- `while(_elems > _optim)`. -/
def trimLoop : Loop CircleWords where
  guard w := w.elems > w.optim
  body w := w.dropOne
  measure w := w.elems.toNat
  falls _ h := toNat_pred_lt (ne_zero_of_gt (of_decide_eq_true h))

/-- `newoptim` as `force_optim` settles it. -/
def clampOptim (w : CircleWords) (optlen : CInt) : SizeT :=
  if optlen.toSize ≥ w.maxqsz then w.maxqsz - w.maxqsz / 20
  else optlen.toSize

def forceOptim (w : CircleWords) (optlen : CInt) : CircleWords :=
  let newoptim := w.clampOptim optlen
  if w.optim ≠ newoptim then
    let w := { w with optim := newoptim }
    if w.elems > w.optim then trimLoop.run w
    else { w with blockGet := true }
  else w

end CircleWords

/-! ## Sequences of calls -/

/-- A call of a method, or a holder writing its chunk. -/
inductive CircleCall where
  | qFeedup (scrap : Bool)
  | qConsume
  | getOffPut (index : CInt)
  | dummy
  | write (pk : ChunkRef) (x : Content)
  | release (pk : Option ChunkRef)
  | removeBack (els : CInt)
  | reset
  | setOptimPerc (optim : CInt)
  | forceOptim (optlen : CInt)
  deriving DecidableEq

/-- The call with its arguments read as numbers. -/
def CircleCall.op : CircleCall → CircleOp
  | .qFeedup scrap => .qFeedup scrap
  | .qConsume => .qConsume
  | .getOffPut index => .getOffPut index.toInt
  | .dummy => .dummy
  | .write pk x => .write pk x
  | .release pk => .release pk
  | .removeBack els => .removeBack els.toInt
  | .reset => .reset
  | .setOptimPerc optim => .setOptimPerc optim.toInt
  | .forceOptim optlen => .forceOptim optlen.toInt

namespace CircleWords

def step (w : CircleWords) : CircleCall → CircleWords
  | .qFeedup scrap => (w.qFeedup scrap).1
  | .qConsume => w.qConsume.1
  | .getOffPut index => (w.getOffPut index).1
  | .dummy => w.dummy.1
  | .write pk x => w.assign pk ((w.deref pk).fill x)
  | .release pk => w.release pk
  | .removeBack els => w.removeBack els
  | .reset => w.reset
  | .setOptimPerc optim => (w.setOptimPerc optim).1
  | .forceOptim optlen => w.forceOptim optlen

/-- What `_elems` holds each time a call executes `--_elems`. -/
def decremented (w : CircleWords) : CircleCall → List SizeT
  | .qConsume =>
      if w.elems ≠ 0 ∧ w.blockGet = false ∧ (w.at' w.geti).locked = false then
        [w.elems]
      else []
  | .removeBack els => (removeBackLoop.turns (els, w)).map (·.2.elems)
  | .forceOptim optlen =>
      if w.optim ≠ w.clampOptim optlen then
        (trimLoop.turns { w with optim := w.clampOptim optlen }).map (·.elems)
      else []
  | _ => []

end CircleWords

end RoomSpeaker
