import RoomSpeaker.Model.BufHdr

/-!
# The circular play queue (`srvq.h`, `class Circle`)

A fixed pool of chunks used as a ring.  A chunk pointer is the chunk's index in
the pool (`_idx`), or the scrap chunk.  `_elems`, `_puti` and `_geti` are the
count and the two cursors; the producer and the consumer hold a chunk by its
`_locked` flag while they fill or play it outside the mutex.

Every method takes the mutex for its whole body, so each is one transition of
the queue.
-/

namespace RoomSpeaker

open Foundation

/-- `Circle::Chunk`: a header followed by the payload bytes. -/
structure Chunk where
  hdr : BufHdr
  payload : List Byte
  locked : Bool
  deriving DecidableEq, Repr

/-- `Chunk::len`. -/
def Chunk.len (k : Chunk) : Nat := k.payload.length

/-- `Chunk::size`. -/
def Chunk.size (k : Chunk) : Nat := sizeofBufHdr + k.len

/-- `Chunk::Chunk(int sz)`. -/
def Chunk.new (sz : Nat) : Chunk :=
  ⟨BufHdr.zero, List.replicate sz 0, false⟩

instance : Inhabited Chunk := ⟨Chunk.new 0⟩

/-- The bytes of a chunk. -/
abbrev Content := BufHdr × List Byte

def Chunk.content (k : Chunk) : Content := (k.hdr, k.payload)

/-- A chunk with its bytes overwritten. -/
def Chunk.fill (k : Chunk) (x : Content) : Chunk :=
  { k with hdr := x.1, payload := x.2 }

/-- A `Chunk*`: a chunk of the pool, or `_scrap`. -/
inductive ChunkRef where
  | slot (i : Nat)
  | scrap
  deriving DecidableEq, Repr

structure Circle where
  queue : List Chunk
  scrap : Chunk
  chunksz : Nat
  maxqsz : Nat
  optim : Nat
  puti : Nat
  geti : Nat
  elems : Nat
  blockGet : Bool
  deriving DecidableEq, Repr

namespace Circle

/-! ## Chunk memory -/

/-- `*_queue[i]`. -/
def at' (c : Circle) (i : Nat) : Chunk := c.queue.getD i default

/-- Overwrites `*_queue[i]`. -/
def setAt (c : Circle) (i : Nat) (k : Chunk) : Circle :=
  { c with queue := c.queue.set i k }

/-- The chunk a pointer points to. -/
def deref (c : Circle) : ChunkRef → Chunk
  | .slot i => c.at' i
  | .scrap => c.scrap

/-- Overwrites the chunk a pointer points to. -/
def assign (c : Circle) (r : ChunkRef) (k : Chunk) : Circle :=
  match r with
  | .slot i => c.setAt i k
  | .scrap => { c with scrap := k }

/-- Sets `_queue[i]->_locked`. -/
def setLocked (c : Circle) (i : Nat) (b : Bool) : Circle :=
  c.setAt i { c.at' i with locked := b }

/-! ## Methods -/

/-- The empty `Circle` after `reserve(chunks, chunk)`. -/
def reserve (chunks chunk : Nat) : Circle where
  queue := List.replicate chunks (Chunk.new chunk)
  scrap := Chunk.new chunk
  chunksz := chunk
  maxqsz := chunks
  optim := 0
  puti := 0
  geti := 0
  elems := 0
  blockGet := false

/-- `Circle::_inc`. -/
def inc (c : Circle) (e : Nat) : Nat := (e + 1) % c.maxqsz

/-- An `int` converted to `size_t`. -/
def sizeOfInt (n : Int) : Nat := (n % 2 ^ 64).toNat

def setOptimPerc (c : Circle) (optim : Int) : Circle :=
  { c with optim := sizeOfInt optim * c.maxqsz % 2 ^ 64 / 100 }

def length (c : Circle) : Nat := c.elems

def capacity (c : Circle) : Nat := c.maxqsz

def reset (c : Circle) : Circle :=
  { c with geti := 0, puti := 0, elems := 0 }

/-- Unlocks the chunk; a null pointer is left alone. -/
def release (c : Circle) : Option ChunkRef → Circle
  | some r => c.assign r { c.deref r with locked := false }
  | none => c

/-- Reserves the chunk under the put cursor for the producer. -/
def qFeedup (c : Circle) (scrap : Bool) : Circle × Option ChunkRef :=
  if c.elems ≤ c.maxqsz ∧ (c.at' c.puti).locked = false then
    let elems := c.elems + 1
    ({ c.setLocked c.puti true with
        puti := c.inc c.puti
        elems := elems
        blockGet := c.blockGet && decide (elems < c.optim) },
      some (.slot c.puti))
  else (c, if scrap then some .scrap else none)

/-- Locks the chunk `index` places after the put cursor, if it is free. -/
def getOffPut (c : Circle) (index : Int) : Circle × Option ChunkRef :=
  let mindex := (c.puti + sizeOfInt index) % 2 ^ 64 % c.maxqsz
  if (c.at' mindex).locked = false then
    (c.setLocked mindex true, some (.slot mindex))
  else (c, none)

/-- Hands the oldest chunk to the consumer, unless the queue is being held
back (`_block_get`) or the chunk is still locked. -/
def qConsume (c : Circle) : Circle × Option ChunkRef :=
  if c.elems ≠ 0 ∧ c.blockGet = false ∧ (c.at' c.geti).locked = false then
    ({ c.setLocked c.geti true with
        geti := c.inc c.geti
        elems := c.elems - 1 },
      some (.slot c.geti))
  else
    ({ c with blockGet := c.blockGet && decide (c.elems < c.optim) }, none)

/-- `Circle::dummy`. -/
def dummy (c : Circle) : Circle × ChunkRef :=
  ({ c with scrap := { c.scrap with locked := true } }, .scrap)

/-- The body of both drop loops: the get cursor steps over the oldest chunk. -/
def dropOne (c : Circle) : Circle :=
  { c with geti := c.inc c.geti, elems := c.elems - 1 }

/-- `while(els && _elems)`, the first argument bounding the iterations. -/
def removeBackLoop : Nat → Int → Circle → Circle
  | 0, _, c => c
  | k + 1, els, c =>
      if els ≠ 0 ∧ c.elems ≠ 0 then removeBackLoop k (els - 1) c.dropOne else c

def removeBack (c : Circle) (els : Int) : Circle :=
  removeBackLoop c.elems els c

/-- `while(_elems > _optim)`, the first argument bounding the iterations. -/
def trimLoop : Nat → Circle → Circle
  | 0, c => c
  | k + 1, c => if c.elems > c.optim then trimLoop k c.dropOne else c

/-- The optimum `force_optim` settles on: the request, or a value below the
capacity when the request is not. -/
def clampOptim (c : Circle) (optlen : Int) : Nat :=
  if sizeOfInt optlen ≥ c.maxqsz then c.maxqsz - c.maxqsz / 20
  else sizeOfInt optlen

def forceOptim (c : Circle) (optlen : Int) : Circle :=
  let newoptim := c.clampOptim optlen
  if c.optim ≠ newoptim then
    let c := { c with optim := newoptim }
    if c.elems > c.optim then trimLoop c.elems c
    else { c with blockGet := true }
  else c

end Circle

end RoomSpeaker
