import Mathlib
import StackLang.Pool.Basic

/-!
# What the operations of a pool do

An operation of a pool may run another one, and each makes checks of its own.  Here every
operation is taken apart: what it makes of the pool if it succeeds, and why it faults.  All
checks come before the first change, so an operation that faults leaves the pool as it was.

The counters are not bounded.  The blocks of a pool have their places in one memory, so
there are fewer of them than a machine word can count.
-/

namespace StackLang

@[simp]
theorem Chunk.length_blocks (chunk : Chunk) (elementSize : Nat) :
    (chunk.blocks elementSize).length = chunk.elements := by
  simp [blocks]

namespace Pool

/-- The chunk that a pool gets next, with `n` elements. -/
def nextChunkOf (n : Nat) (pool : Pool) : Chunk :=
  ⟨pool.nextChunk, n⟩

/-- The pool with one more chunk. -/
def grown (n : Nat) (pool : Pool) : Pool :=
  { pool with
    stats := { pool.stats with
      total := pool.stats.total + n
      capacity := pool.stats.capacity + n
      grows := pool.stats.grows + 1 }
    chunks := pool.nextChunkOf n :: pool.chunks
    freeList := (pool.nextChunkOf n).blocks pool.stats.elementSize ++ pool.freeList
    nextChunk := pool.nextChunk + 1
    journal := .poolGrew n pool.stats.elementSize (pool.stats.total + n) :: pool.journal }

/-- The pool with another block size. -/
def withBlockSize (blockSize : Nat) (pool : Pool) : Pool :=
  { pool with stats := { pool.stats with blockSize } }

/-- The pool without its first free block, which is handed out. -/
def handedOut (rest : List Address) (pool : Pool) : Pool :=
  { pool with
    stats := { pool.stats with
      instantiations := pool.stats.instantiations + 1
      capacity := pool.stats.capacity - 1 }
    freeList := rest }

/-- The pool with a block taken back. -/
def takenBack (block : Address) (pool : Pool) : Pool :=
  { pool with
    stats := { pool.stats with
      instantiations := pool.stats.instantiations - 1
      capacity := pool.stats.capacity + 1 }
    freeList := block :: pool.freeList }

/-- The elements that a reservation of `n` blocks adds: the missing ones, filled up to the
next multiple of the block size. -/
def reservation (n : Nat) (pool : Pool) : Nat :=
  ((n - pool.stats.capacity) / pool.stats.blockSize + 1) * pool.stats.blockSize

/-- A pool that is set up anew; its chunks and its reports go on being counted. -/
def renewed (elementSize : Nat) (config : PoolConfig) (pool : Pool) : Pool :=
  { fresh (max elementSize linkSize) linkAlignment config true with
    nextChunk := pool.nextChunk
    journal := pool.journal }

/-- What keeps a pool from obtaining a chunk of `n` elements. -/
inductive Unobtainable (pool : Pool) (n : Nat) : Fault → Prop where
  | noElements (hnone : n = 0) : Unobtainable pool n .growByZero
  /-- The bytes of the chunk are no machine word. -/
  | tooManyBytes (hbytes : wordLimit ≤ n * pool.stats.elementSize) :
    Unobtainable pool n .chunkSizeOverflow
  /-- No object is so large, once it is aligned. -/
  | tooLarge (hsome : n ≠ 0) (hbytes : n * pool.stats.elementSize < wordLimit)
    (hlarge : maxObjectSize < n * pool.stats.elementSize + (pool.alignment - 1)) :
    Unobtainable pool n .invalidChunkLayout

variable {pool next : Pool} {block : Address} {fault : Fault} {n : Nat}

/-! ## One operation at a time -/

theorem growBy_eq (n : Nat) (pool : Pool) :
    (growBy n).run pool = match pool.chunkFault? n with
      | some fault => .error fault pool
      | none => .ok () (pool.grown n) := by
  simp only [growBy, EStateM.run, bind, EStateM.bind, get, getThe, MonadStateOf.get, EStateM.get]
  cases pool.chunkFault? n <;> rfl

theorem grow_eq (pool : Pool) :
    grow.run pool = match pool.chunkFault? pool.stats.blockSize with
      | some fault => .error fault pool
      | none => .ok () ((pool.grown pool.stats.blockSize).withBlockSize pool.scaledBlockSize) := by
  have hgrow : grow.run pool = ((growBy pool.stats.blockSize >>= fun _ =>
      modify fun pool => pool.withBlockSize pool.scaledBlockSize) : PoolAction Unit) pool := rfl
  have hrun := growBy_eq pool.stats.blockSize pool
  simp only [EStateM.run] at hrun
  simp only [hgrow, bind, EStateM.bind, hrun]
  cases pool.chunkFault? pool.stats.blockSize <;> rfl

/-- What an allocation does once there is a free block. -/
def takeFirst : PoolAction Address := do
  let pool ← get
  match pool.freeList with
  | [] => throw .growByZero
  | block :: rest =>
    set (pool.handedOut rest)
    return block

theorem alloc_eq (pool : Pool) :
    alloc.run pool = if pool.freeList.isEmpty then (grow >>= fun _ => takeFirst).run pool
      else takeFirst.run pool := by
  simp only [alloc, EStateM.run, bind, EStateM.bind, get, getThe, MonadStateOf.get, EStateM.get]
  cases pool.freeList.isEmpty <;> rfl

theorem reserve_eq (n : Nat) (pool : Pool) :
    (reserve n).run pool =
      if pool.stats.capacity < n then
        if wordLimit ≤ pool.reservation n then .error .arithmeticOverflow pool
        else (growBy (pool.reservation n)).run pool
      else .ok () pool := by
  simp only [reserve, EStateM.run, bind, EStateM.bind, get, getThe, MonadStateOf.get, EStateM.get]
  by_cases hmissing : pool.stats.capacity < n
  · by_cases hword : wordLimit ≤ pool.reservation n
    · rw [if_pos hmissing, if_pos hmissing, if_pos hword]
      rw [reservation] at hword
      rw [if_pos hword]
      rfl
    · rw [if_pos hmissing, if_pos hmissing, if_neg hword]
      rw [reservation] at hword
      rw [if_neg hword]
      rfl
  · rw [if_neg hmissing, if_neg hmissing]
    rfl

theorem release_eq (block : Address) (pool : Pool) :
    (release block).run pool =
      if pool.owns block = false then .error .foreignBlock pool
      else if pool.stats.instantiations = 0 then .error .freeWithoutOutstanding pool
      else .ok () (pool.takenBack block) := by
  simp only [release, EStateM.run, bind, EStateM.bind, get, getThe, MonadStateOf.get, EStateM.get]
  cases howns : pool.owns block with
  | false => rfl
  | true =>
    by_cases hnone : pool.stats.instantiations = 0
    · simp only [hnone]
      rfl
    · simp only [hnone]
      rfl

theorem init_eq (elementSize : Nat) (config : PoolConfig) (pool : Pool) :
    (init elementSize config).run pool =
      if pool.stats.instantiations ≠ 0 then .error .initWhileOutstanding pool
      else match config.check with
        | .error fault => .error fault pool
        | .ok () => .ok () (pool.renewed elementSize config) := by
  simp only [init, EStateM.run, bind, EStateM.bind, get, getThe, MonadStateOf.get, EStateM.get]
  by_cases hnone : pool.stats.instantiations = 0
  · simp only [hnone]
    cases config.check <;> rfl
  · simp only [ne_eq, hnone, not_false_eq_true, if_true]
    rfl

theorem takeFirst_of_free {rest : List Address} (hfree : pool.freeList = block :: rest) :
    takeFirst.run pool = .ok block (pool.handedOut rest) := by
  simp only [takeFirst, EStateM.run, bind, EStateM.bind, get, getThe, MonadStateOf.get,
    EStateM.get, hfree]
  rfl

theorem alloc_of_free {rest : List Address} (hfree : pool.freeList = block :: rest) :
    alloc.run pool = .ok block (pool.handedOut rest) := by
  rw [alloc_eq, if_neg (by simp [hfree]), takeFirst_of_free hfree]

/-- A pool without free blocks grows by its block size and hands out the first new one. -/
theorem alloc_of_empty (hfree : pool.freeList = []) :
    alloc.run pool = match pool.chunkFault? pool.stats.blockSize with
      | some fault => .error fault pool
      | none => takeFirst.run
          ((pool.grown pool.stats.blockSize).withBlockSize pool.scaledBlockSize) := by
  have hgrow := grow_eq pool
  simp only [EStateM.run] at hgrow
  rw [alloc_eq, if_pos (by simp [hfree])]
  simp only [EStateM.run, bind, EStateM.bind, hgrow]
  cases pool.chunkFault? pool.stats.blockSize <;> rfl

/-- A new chunk has a block to hand out. -/
theorem exists_free_of_grown (hchunk : pool.chunkFault? n = none) :
    ∃ block rest, (pool.grown n).freeList = block :: rest := by
  refine List.exists_cons_of_length_pos ?_
  have hsome : n ≠ 0 := by
    rintro rfl
    simp [chunkFault?] at hchunk
  simp only [grown, nextChunkOf, List.length_append, Chunk.length_blocks]
  omega

/-! ## What is left behind -/

theorem takeFirst_ok (hrun : takeFirst.run pool = .ok block next) :
    ∃ rest, pool.freeList = block :: rest ∧ next = pool.handedOut rest := by
  simp only [takeFirst, EStateM.run, bind, EStateM.bind, get, getThe, MonadStateOf.get,
    EStateM.get] at hrun
  cases hfree : pool.freeList with
  | nil =>
    rw [hfree] at hrun
    cases hrun
  | cons first rest =>
    rw [hfree] at hrun
    cases hrun
    exact ⟨rest, rfl, rfl⟩

/-- An allocation grows the pool if it has no free block, and then takes the first. -/
theorem alloc_ok (hrun : alloc.run pool = .ok block next) :
    ∃ supply rest, (supply = pool ∨ grow.run pool = .ok () supply) ∧
      supply.freeList = block :: rest ∧ next = supply.handedOut rest := by
  rw [alloc_eq] at hrun
  split at hrun
  · simp only [EStateM.run, bind, EStateM.bind] at hrun
    split at hrun
    · rename_i supply hgrow
      obtain ⟨rest, hfree, hnext⟩ := takeFirst_ok hrun
      exact ⟨supply, rest, .inr hgrow, hfree, hnext⟩
    · cases hrun
  · obtain ⟨rest, hfree, hnext⟩ := takeFirst_ok hrun
    exact ⟨pool, rest, .inl rfl, hfree, hnext⟩

theorem growBy_ok (hrun : (growBy n).run pool = .ok () next) : next = pool.grown n := by
  rw [growBy_eq] at hrun
  split at hrun
  · cases hrun
  · exact (EStateM.Result.ok.inj hrun).2.symm

theorem grow_ok (hrun : grow.run pool = .ok () next) :
    next = (pool.grown pool.stats.blockSize).withBlockSize pool.scaledBlockSize := by
  rw [grow_eq] at hrun
  split at hrun
  · cases hrun
  · exact (EStateM.Result.ok.inj hrun).2.symm

theorem release_ok (hrun : (release block).run pool = .ok () next) :
    next = pool.takenBack block := by
  rw [release_eq] at hrun
  split at hrun
  · cases hrun
  · split at hrun
    · cases hrun
    · exact (EStateM.Result.ok.inj hrun).2.symm

theorem reserve_ok (hrun : (reserve n).run pool = .ok () next) :
    (n ≤ pool.stats.capacity ∧ next = pool) ∨
      (pool.stats.capacity < n ∧ next = pool.grown (pool.reservation n)) := by
  rw [reserve_eq] at hrun
  split at hrun
  case isTrue hmissing =>
    split at hrun
    · cases hrun
    · exact .inr ⟨hmissing, growBy_ok hrun⟩
  case isFalse henough =>
    exact .inl ⟨Nat.le_of_not_lt henough, (EStateM.Result.ok.inj hrun).2.symm⟩

/-- A pool that is set up anew holds no chunk, and no block was handed out before. -/
theorem init_ok {elementSize : Nat} {config : PoolConfig}
    (hrun : (init elementSize config).run pool = .ok () next) :
    pool.stats.instantiations = 0 ∧ config.check = .ok () ∧
      next = pool.renewed elementSize config := by
  rw [init_eq] at hrun
  split at hrun
  case isTrue => cases hrun
  case isFalse hnone =>
    cases hcheck : config.check with
    | error fault =>
      rw [hcheck] at hrun
      cases hrun
    | ok value =>
      rw [hcheck] at hrun
      exact ⟨not_ne_iff.1 hnone, rfl, (EStateM.Result.ok.inj hrun).2.symm⟩

/-! ## Why operations fault -/

theorem chunkFault?_eq_some_iff : pool.chunkFault? n = some fault ↔ pool.Unobtainable n fault := by
  have hlimit : 0 < wordLimit := by decide
  simp only [chunkFault?]
  constructor
  · intro hfault
    split at hfault
    · obtain rfl := Option.some.inj hfault
      exact .noElements ‹_›
    · split at hfault
      · obtain rfl := Option.some.inj hfault
        exact .tooManyBytes ‹_›
      · split at hfault
        · obtain rfl := Option.some.inj hfault
          exact .tooLarge ‹_› (Nat.lt_of_not_le ‹_›) ‹_›
        · cases hfault
  · intro hfault
    cases hfault with
    | noElements hnone => simp [hnone]
    | tooManyBytes hbytes =>
      have hsome : n ≠ 0 := by
        rintro rfl
        rw [Nat.zero_mul] at hbytes
        omega
      simp [hsome, hbytes]
    | tooLarge hsome hbytes hlarge => simp [hsome, Nat.not_le.2 hbytes, hlarge]

/-- An allocation faults only because a pool without free blocks cannot grow. -/
theorem alloc_eq_error_iff :
    alloc.run pool = .error fault next ↔
      next = pool ∧ pool.freeList = [] ∧ pool.Unobtainable pool.stats.blockSize fault := by
  rw [← chunkFault?_eq_some_iff]
  cases hfree : pool.freeList with
  | cons block rest => simp [alloc_of_free hfree]
  | nil =>
    rw [alloc_of_empty hfree]
    cases hchunk : pool.chunkFault? pool.stats.blockSize with
    | some own => simp [eq_comm, and_comm]
    | none =>
      obtain ⟨block, rest, hblock⟩ := exists_free_of_grown hchunk
      have hsupply : ((pool.grown pool.stats.blockSize).withBlockSize
          pool.scaledBlockSize).freeList = block :: rest := hblock
      simp [takeFirst_of_free hsupply]

theorem growBy_eq_error_iff :
    (growBy n).run pool = .error fault next ↔ next = pool ∧ pool.Unobtainable n fault := by
  rw [← chunkFault?_eq_some_iff, growBy_eq]
  cases pool.chunkFault? n <;> simp [eq_comm, and_comm]

theorem grow_eq_error_iff :
    grow.run pool = .error fault next ↔
      next = pool ∧ pool.Unobtainable pool.stats.blockSize fault := by
  rw [← chunkFault?_eq_some_iff, grow_eq]
  cases pool.chunkFault? pool.stats.blockSize <;> simp [eq_comm, and_comm]

/-- A reservation faults only if it has something to add: more elements than a machine word
can count, or a chunk that cannot be had. -/
theorem reserve_eq_error_iff :
    (reserve n).run pool = .error fault next ↔
      next = pool ∧ pool.stats.capacity < n ∧
        if wordLimit ≤ pool.reservation n then fault = .arithmeticOverflow
        else pool.Unobtainable (pool.reservation n) fault := by
  rw [reserve_eq]
  by_cases hmissing : pool.stats.capacity < n
  · by_cases hword : wordLimit ≤ pool.reservation n
    · simp [hmissing, hword, eq_comm, and_comm]
    · simp [hmissing, hword, growBy_eq_error_iff]
  · simp [hmissing]

theorem release_eq_error_iff :
    (release block).run pool = .error fault next ↔
      next = pool ∧ if pool.owns block = false then fault = .foreignBlock
        else pool.stats.instantiations = 0 ∧ fault = .freeWithoutOutstanding := by
  rw [release_eq]
  by_cases howns : pool.owns block = false
  · simp [howns, eq_comm, and_comm]
  · by_cases hnone : pool.stats.instantiations = 0
    · simp [howns, hnone, eq_comm, and_comm]
    · simp [howns, hnone]

theorem check_eq_error_iff {config : PoolConfig} :
    config.check = .error fault ↔
      if config.initialBlockSize = 0 then fault = .zeroBlockSize
      else config.growthFactor = 0 ∧ fault = .zeroGrowthFactor := by
  unfold PoolConfig.check
  by_cases hsize : config.initialBlockSize = 0
  · simp [hsize, eq_comm]
  · by_cases hfactor : config.growthFactor = 0
    · simp [hsize, hfactor, eq_comm]
    · simp [hsize, hfactor]

theorem init_eq_error_iff {elementSize : Nat} {config : PoolConfig} :
    (init elementSize config).run pool = .error fault next ↔
      next = pool ∧ if pool.stats.instantiations ≠ 0 then fault = .initWhileOutstanding
        else config.check = .error fault := by
  rw [init_eq]
  by_cases hnone : pool.stats.instantiations = 0
  · cases config.check <;> simp [hnone, eq_comm, and_comm]
  · simp [hnone, eq_comm, and_comm]

end Pool

end StackLang
