import StackLang.Pool.Basic

/-!
# Pools with numbered blocks

An observer of a pool knows its blocks by number: the first block handed out is
number zero, and a block that is handed out again keeps its number.  Setting the
pool up anew forgets the numbers.
-/

namespace StackLang

/-- A pool and the blocks that it ever handed out, by number. -/
structure NumberedPool where
  pool : Pool
  blocks : List Address := []

/-- An action on a pool with numbered blocks, which may fault. -/
abbrev NumberedAction := EStateM Fault NumberedPool

namespace NumberedPool

/-- Runs an action on the pool. -/
def onPool {α : Type} (action : PoolAction α) : NumberedAction α := fun numbered =>
  match action.run numbered.pool with
  | .ok value pool => .ok value { numbered with pool }
  | .error fault pool => .error fault { numbered with pool }

/-- The number of a block, which gets one if it has none. -/
def numberOf (block : Address) (numbered : NumberedPool) : Nat × NumberedPool :=
  match numbered.blocks.findIdx? (· == block) with
  | some number => (number, numbered)
  | none =>
    (numbered.blocks.length, { numbered with blocks := numbered.blocks ++ [block] })

/-- The block with a number.  For a number that was not given out it is a place
outside every chunk. -/
def block (numbered : NumberedPool) (number : Nat) : Address :=
  numbered.blocks[number]?.getD ⟨numbered.pool.nextChunk, 0⟩

/-- Hands out a block. -/
def alloc : NumberedAction Nat := do
  let block ← onPool Pool.alloc
  modifyGet (numberOf block)

/-- Hands out `n` blocks, one after the other; those before a fault stay handed
out. -/
def allocMany : Nat → NumberedAction (List Nat)
  | 0 => return []
  | n + 1 => do
    let number ← alloc
    return number :: (← allocMany n)

/-- Takes back a block. -/
def release (number : Nat) : NumberedAction Unit := do
  onPool (Pool.release ((← get).block number))

/-- Sets up the pool anew. -/
def init (elementSize : Nat) (config : PoolConfig) : NumberedAction Unit := do
  onPool (Pool.init elementSize config)
  modify fun numbered => { numbered with blocks := [] }

/-- Puts a copy, which has no blocks, in the place of the pool. -/
def becomeCopy (numbered : NumberedPool) : NumberedPool where
  pool := { numbered.pool.emptyCopy with journal := numbered.pool.farewell }

end NumberedPool

end StackLang
