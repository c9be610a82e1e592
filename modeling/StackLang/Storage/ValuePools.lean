import StackLang.Token.Basic

/-!
# Pools for values

Every datum occupies a block of the pool for its type.  The pools are installed
together and can be replaced while data of an earlier installation still exist;
such data keep their old pools, which nobody else sees any more.
-/

namespace StackLang

/-- Bytes that a datum takes. -/
def datumSize : Nat := 48

/-- Alignment of a datum. -/
def datumAlignment : Nat := 8

/-- How many data of one type fit into pools that cannot grow for ever, and how
growth beyond that fails. -/
structure Room where
  perType : Nat
  fault : Fault
  deriving DecidableEq, Repr

/-- The room in `chunks` chunks on top of `total` data, where the next chunk has
`size` elements; nothing if all of them can be obtained. -/
def Room.within (pool : Pool) : (chunks size total : Nat) → Option Room
  | 0, _, _ => none
  | chunks + 1, size, total =>
    match pool.chunkFault? size with
    | some fault => some ⟨total, fault⟩
    | none => within pool chunks (pool.config.scale size) (total + size)

/-- The room in pools that grow as told.  Thirty-two chunks tell: with a growth
factor of one the last is like the first, and otherwise they hold more data than
there ever are. -/
def PoolConfig.room? (config : PoolConfig) : Option Room :=
  Room.within (Pool.fresh datumSize datumAlignment config true) 32 config.initialBlockSize 0

/-- One pool for each type. -/
structure ValuePools where
  /-- Tells installations apart; the first one is one. -/
  installation : Nat
  pools : Vector Pool TypeTag.count

namespace ValuePools

/-- Installs pools that grow as told. -/
def install (installation : Nat) (config : PoolConfig) : Except Fault ValuePools := do
  let pool ← Pool.forLayout datumSize datumAlignment config
  return { installation, pools := Vector.replicate TypeTag.count pool }

/-- The pool for a type. -/
def pool (valuePools : ValuePools) (tag : TypeTag) : Pool :=
  valuePools.pools[tag.index]

/-- Replaces the pool for a type. -/
def setPool (tag : TypeTag) (pool : Pool) (valuePools : ValuePools) : ValuePools :=
  { valuePools with pools := valuePools.pools.set tag.index pool }

end ValuePools

end StackLang
