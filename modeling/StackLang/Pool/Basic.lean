import StackLang.Event

/-!
# Pools of equal blocks

A pool serves blocks of one size out of chunks that it obtains as needed.  Free
blocks form a list: a new chunk puts its blocks in front of it in the order of
their addresses, and a released block is the next to be handed out.  Blocks are
never merged, and chunks are kept until the pool is set up anew.

An operation that violates a precondition raises a fault; the checks of every
operation come before its first change to the pool.
-/

namespace StackLang

/-- One more than the largest value of a machine word. -/
def wordLimit : Nat := Nat.pow 2 64

/-- The largest number of bytes that one object may occupy. -/
def maxObjectSize : Nat := Nat.pow 2 63 - 1

/-- Size of a link of the free list; no element is smaller. -/
def linkSize : Nat := 8

/-- Alignment of a link of the free list. -/
def linkAlignment : Nat := 8

/-- How a pool grows. -/
structure PoolConfig where
  /-- Elements in the first chunk. -/
  initialBlockSize : Nat := 1024
  /-- What the block size is multiplied with after each growth by default. -/
  growthFactor : Nat := 1
  deriving DecidableEq, Repr, Inhabited

namespace PoolConfig

/-- A pool must be able to grow: both numbers are positive. -/
def check (config : PoolConfig) : Except Fault Unit :=
  if config.initialBlockSize = 0 then .error .zeroBlockSize
  else if config.growthFactor = 0 then .error .zeroGrowthFactor
  else .ok ()

/-- The size of the chunk after one of `blockSize` elements; it stays within a
machine word. -/
def scale (config : PoolConfig) (blockSize : Nat) : Nat :=
  min (blockSize * config.growthFactor) (wordLimit - 1)

end PoolConfig

/-- A place in a chunk. -/
structure Address where
  chunk : Nat
  offset : Nat
  deriving DecidableEq, Repr, Inhabited

/-- A run of `elements` blocks; chunks are told apart by their numbers. -/
structure Chunk where
  number : Nat
  elements : Nat
  deriving DecidableEq, Repr

namespace Chunk

/-- The starts of the elements of a chunk, in the order of their addresses. -/
def blocks (chunk : Chunk) (elementSize : Nat) : List Address :=
  (List.range chunk.elements).map fun i => ⟨chunk.number, i * elementSize⟩

/-- Whether a place lies in the chunk at the start of an element. -/
def hasElementAt (chunk : Chunk) (elementSize : Nat) (place : Address) : Bool :=
  place.chunk == chunk.number && place.offset < chunk.elements * elementSize &&
    place.offset % elementSize == 0

end Chunk

/-- Counters of a pool. -/
structure PoolStats where
  elementSize : Nat
  blockSize : Nat
  /-- Blocks handed out. -/
  instantiations : Nat
  /-- Blocks made. -/
  total : Nat
  /-- Blocks on the free list. -/
  capacity : Nat
  /-- Chunks obtained. -/
  grows : Nat
  deriving DecidableEq, Repr, Inhabited

/-- A pool of equal blocks. -/
structure Pool where
  config : PoolConfig
  stats : PoolStats
  alignment : Nat
  chunks : List Chunk
  freeList : List Address
  initialized : Bool
  /-- Number of the next chunk; numbers are never used twice. -/
  nextChunk : Nat
  /-- What the pool reported, latest first. -/
  journal : List Event
  deriving Repr, Inhabited

/-- An action on a pool, which may fault. -/
abbrev PoolAction := EStateM Fault Pool

namespace Pool

/-- A pool without chunks. -/
def fresh (elementSize alignment : Nat) (config : PoolConfig) (initialized : Bool) : Pool where
  config := config
  stats :=
    { elementSize, blockSize := config.initialBlockSize, instantiations := 0, total := 0,
      capacity := 0, grows := 0 }
  alignment := alignment
  chunks := []
  freeList := []
  initialized := initialized
  nextChunk := 0
  journal := []

/-- A pool of links that nobody has set up yet. -/
def new : Pool :=
  fresh linkSize linkAlignment {} false

/-- A pool for values of a size and an alignment. -/
def forLayout (size alignment : Nat) (config : PoolConfig) : Except Fault Pool := do
  config.check
  return fresh (max size linkSize) (max alignment linkAlignment) config true

/-- A pool for elements of `elementSize` bytes. -/
def ofElementSize (elementSize : Nat) (config : PoolConfig) : Except Fault Pool :=
  forLayout elementSize linkAlignment config

/-- A copy takes over the set-up of a pool and none of its blocks. -/
def emptyCopy (pool : Pool) : Pool :=
  fresh pool.stats.elementSize pool.alignment pool.config pool.initialized

/-- Whether a place is the start of one of the pool's elements. -/
def owns (pool : Pool) (place : Address) : Bool :=
  pool.chunks.any fun chunk => chunk.hasElementAt pool.stats.elementSize place

/-- What keeps a pool from obtaining a chunk of `n` elements: there must be some,
and their bytes must fit into a machine word and then into one object. -/
def chunkFault? (pool : Pool) (n : Nat) : Option Fault :=
  let size := n * pool.stats.elementSize
  if n = 0 then some .growByZero
  else if wordLimit ≤ size then some .chunkSizeOverflow
  else if maxObjectSize < size + (pool.alignment - 1) then some .invalidChunkLayout
  else none

/-- Adds a chunk of `n` elements in front of the free list. -/
def growBy (n : Nat) : PoolAction Unit := do
  let pool ← get
  if let some fault := pool.chunkFault? n then throw fault
  let chunk : Chunk := ⟨pool.nextChunk, n⟩
  let total := pool.stats.total + n
  set { pool with
    stats := { pool.stats with
      total
      capacity := pool.stats.capacity + n
      grows := pool.stats.grows + 1 }
    chunks := chunk :: pool.chunks
    freeList := chunk.blocks pool.stats.elementSize ++ pool.freeList
    nextChunk := pool.nextChunk + 1
    journal := .poolGrew n pool.stats.elementSize total :: pool.journal }

/-- The block size after a growth by default. -/
def scaledBlockSize (pool : Pool) : Nat :=
  pool.config.scale pool.stats.blockSize

/-- Grows by the block size and scales it for the next time. -/
def grow : PoolAction Unit := do
  growBy (← get).stats.blockSize
  modify fun pool => { pool with stats := { pool.stats with blockSize := pool.scaledBlockSize } }

/-- Hands out the first free block, growing first if there is none. -/
def alloc : PoolAction Address := do
  if (← get).freeList.isEmpty then grow
  let pool ← get
  match pool.freeList with
  | [] => throw .growByZero
  | block :: rest =>
    set { pool with
      stats := { pool.stats with
        instantiations := pool.stats.instantiations + 1
        capacity := pool.stats.capacity - 1 }
      freeList := rest }
    return block

/-- Takes back a block. -/
def release (block : Address) : PoolAction Unit := do
  let pool ← get
  if !pool.owns block then throw .foreignBlock
  if pool.stats.instantiations = 0 then throw .freeWithoutOutstanding
  set { pool with
    stats := { pool.stats with
      instantiations := pool.stats.instantiations - 1
      capacity := pool.stats.capacity + 1 }
    freeList := block :: pool.freeList }

/-- Makes sure that `n` allocations succeed without growing. -/
def reserve (n : Nat) : PoolAction Unit := do
  let pool ← get
  if pool.stats.capacity < n then
    let missing := n - pool.stats.capacity
    let elements := (missing / pool.stats.blockSize + 1) * pool.stats.blockSize
    if wordLimit ≤ elements then throw .arithmeticOverflow
    growBy elements

/-- Sets up a pool anew, which requires that no block is handed out. -/
def init (elementSize : Nat) (config : PoolConfig) : PoolAction Unit := do
  let pool ← get
  if pool.stats.instantiations ≠ 0 then throw .initWhileOutstanding
  match config.check with
  | .error fault => throw fault
  | .ok () =>
    set { fresh (max elementSize linkSize) linkAlignment config true with
      nextChunk := pool.nextChunk
      journal := pool.journal }

/-- What is reported when a pool goes away: blocks still handed out are a mistake. -/
def farewell (pool : Pool) : List Event :=
  if pool.stats.instantiations > 0 then
    [.poolDropped pool.stats.elementSize pool.stats.instantiations]
  else []

/-- The counters and the number of chunks as one line. -/
def summary (pool : Pool) : String :=
  let s := pool.stats
  "Pool \x7b stats: PoolStats \x7b " ++
    s!"element_size: {s.elementSize}, block_size: {s.blockSize}, " ++
    s!"instantiations: {s.instantiations}, total: {s.total}, " ++
    s!"capacity: {s.capacity}, grows: {s.grows} \x7d, " ++
    s!"chunks: {pool.chunks.length} \x7d"

end Pool

end StackLang
