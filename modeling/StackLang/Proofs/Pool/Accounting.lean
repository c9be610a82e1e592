import Mathlib
import StackLang.Proofs.Pool.FreeChain
import StackLang.Proofs.Pool.Operations

/-!
# What becomes of the blocks of a pool

Every block that a pool ever made is either free or handed out, never both, and the
counters say how many there are of each.  So no block is handed out twice.

The invariant is one permutation: the free blocks together with those handed out are
the starts of the elements of all chunks.  Everything else about the blocks follows
from it, because chunks do not overlap.
-/

namespace StackLang

namespace Chunk

theorem mem_blocks {chunk : Chunk} {elementSize : Nat} {place : Address} :
    place ∈ chunk.blocks elementSize ↔
      place.chunk = chunk.number ∧ ∃ i < chunk.elements, place.offset = i * elementSize := by
  obtain ⟨number, offset⟩ := place
  simp only [blocks, List.mem_map, List.mem_range, Address.mk.injEq]
  constructor
  · rintro ⟨i, hlt, rfl, rfl⟩
    exact ⟨rfl, i, hlt, rfl⟩
  · rintro ⟨rfl, i, hlt, rfl⟩
    exact ⟨i, hlt, rfl, rfl⟩

theorem nodup_blocks (chunk : Chunk) {elementSize : Nat} (hsize : 0 < elementSize) :
    (chunk.blocks elementSize).Nodup := by
  refine List.nodup_range.map fun i j heq => ?_
  exact Nat.eq_of_mul_eq_mul_right hsize (Address.mk.inj heq).2

/-- A place is recognised as the start of an element exactly if it is one. -/
theorem hasElementAt_iff (chunk : Chunk) {elementSize : Nat} (hsize : 0 < elementSize)
    (place : Address) :
    chunk.hasElementAt elementSize place = true ↔ place ∈ chunk.blocks elementSize := by
  simp only [hasElementAt, Bool.and_eq_true, beq_iff_eq, decide_eq_true_eq, and_assoc, mem_blocks]
  refine and_congr_right fun _ => ⟨?_, ?_⟩
  · rintro ⟨hlt, hmod⟩
    have hoffset : place.offset / elementSize * elementSize = place.offset :=
      Nat.div_mul_cancel (Nat.dvd_of_mod_eq_zero hmod)
    exact ⟨place.offset / elementSize, Nat.div_lt_of_lt_mul (by rwa [Nat.mul_comm]), hoffset.symm⟩
  · rintro ⟨i, hlt, hoffset⟩
    rw [hoffset]
    exact ⟨Nat.mul_lt_mul_of_pos_right hlt hsize, Nat.mul_mod_left i elementSize⟩

end Chunk

namespace Pool

/-- The starts of the elements of all chunks. -/
def starts (pool : Pool) : List Address :=
  pool.chunks.flatMap fun chunk => chunk.blocks pool.stats.elementSize

/-- The number of elements of all chunks. -/
def elements (pool : Pool) : Nat :=
  (pool.chunks.map Chunk.elements).sum

theorem length_starts (pool : Pool) : pool.starts.length = pool.elements := by
  simp [starts, elements, List.length_flatMap]

theorem mem_starts {pool : Pool} {place : Address} :
    place ∈ pool.starts ↔ ∃ chunk ∈ pool.chunks, place ∈ chunk.blocks pool.stats.elementSize := by
  simp [starts, List.mem_flatMap]

theorem owns_iff_mem_starts {pool : Pool} (hsize : 0 < pool.stats.elementSize) (place : Address) :
    pool.owns place = true ↔ place ∈ pool.starts := by
  simp only [owns, List.any_eq_true, mem_starts, Chunk.hasElementAt_iff _ hsize]

variable {pool next : Pool} {block : Address} {n : Nat}

/-! ## The invariant -/

/-- The free blocks and those handed out are together the starts of the elements of all
chunks, the chunks are told apart, and every counter is right. -/
structure Sound (pool : Pool) (chain : FreeChain) (live : List Address) : Prop where
  size : linkSize ≤ pool.stats.elementSize
  numbers_nodup : (pool.chunks.map Chunk.number).Nodup
  numbers_lt : ∀ chunk ∈ pool.chunks, chunk.number < pool.nextChunk
  blocks : (pool.freeList ++ live).Perm pool.starts
  threaded : chain.Lists pool.freeList
  capacity : pool.stats.capacity = pool.freeList.length
  instantiations : pool.stats.instantiations = live.length
  total : pool.stats.total = pool.elements
  grows : pool.stats.grows = pool.chunks.length

namespace Sound

variable {chain : FreeChain} {live : List Address}

theorem size_pos (hsound : Sound pool chain live) : 0 < pool.stats.elementSize :=
  Nat.lt_of_lt_of_le (by decide) hsound.size

theorem nodup_starts (hsound : Sound pool chain live) : pool.starts.Nodup := by
  refine List.nodup_flatMap.2 ⟨fun chunk _ => chunk.nodup_blocks hsound.size_pos, ?_⟩
  refine (List.pairwise_map.1 hsound.numbers_nodup).imp fun {first second} hne place hfirst => ?_
  intro hsecond
  exact hne ((Chunk.mem_blocks.1 hfirst).1.symm.trans (Chunk.mem_blocks.1 hsecond).1)

theorem nodup_blocks (hsound : Sound pool chain live) : (pool.freeList ++ live).Nodup :=
  hsound.blocks.nodup_iff.2 hsound.nodup_starts

theorem disjoint (hsound : Sound pool chain live) : pool.freeList.Disjoint live :=
  (List.nodup_append'.1 hsound.nodup_blocks).2.2

theorem mem_starts_iff (hsound : Sound pool chain live) (place : Address) :
    place ∈ pool.starts ↔ place ∈ pool.freeList ∨ place ∈ live := by
  rw [← hsound.blocks.mem_iff, List.mem_append]

theorem balance (hsound : Sound pool chain live) :
    pool.stats.instantiations + pool.stats.capacity = pool.stats.total := by
  have hlength := hsound.blocks.length_eq
  rw [List.length_append, length_starts] at hlength
  rw [hsound.instantiations, hsound.capacity, hsound.total]
  omega

/-- The elements of the next chunk are none that the pool has already. -/
theorem nextChunk_disjoint (hsound : Sound pool chain live) (n : Nat) :
    ((pool.nextChunkOf n).blocks pool.stats.elementSize).Disjoint pool.freeList := by
  intro place hnew hfree
  obtain ⟨chunk, hchunk, hplace⟩ :=
    mem_starts.1 ((hsound.mem_starts_iff place).2 (.inl hfree))
  have hnumber : chunk.number = pool.nextChunk :=
    (Chunk.mem_blocks.1 hplace).1.symm.trans (Chunk.mem_blocks.1 hnew).1
  exact absurd (hsound.numbers_lt chunk hchunk) (by omega)

theorem grown (hsound : Sound pool chain live) (n : Nat) :
    Sound (pool.grown n)
      (chain.pushAll ((pool.nextChunkOf n).blocks pool.stats.elementSize)) live where
  size := hsound.size
  numbers_nodup := by
    refine List.nodup_cons.2 ⟨fun hmem => ?_, hsound.numbers_nodup⟩
    obtain ⟨chunk, hchunk, hnumber⟩ := List.mem_map.1 hmem
    exact Nat.ne_of_lt (hsound.numbers_lt chunk hchunk) hnumber
  numbers_lt := by
    intro chunk hmem
    obtain rfl | hold := List.mem_cons.1 hmem
    · exact Nat.lt_succ_self _
    · exact Nat.lt_succ_of_lt (hsound.numbers_lt chunk hold)
  blocks := by
    have hstarts : (pool.grown n).starts =
        (pool.nextChunkOf n).blocks pool.stats.elementSize ++ pool.starts := rfl
    have hfree : (pool.grown n).freeList =
        (pool.nextChunkOf n).blocks pool.stats.elementSize ++ pool.freeList := rfl
    -- The blocks of the new chunk are all free, in front of those that were there before.
    rw [hstarts, hfree, List.append_assoc]
    exact hsound.blocks.append_left _
  threaded :=
    hsound.threaded.pushAll (Chunk.nodup_blocks _ hsound.size_pos) (hsound.nextChunk_disjoint n)
  capacity := by
    simp only [Pool.grown, hsound.capacity, List.length_append, Chunk.length_blocks, nextChunkOf]
    omega
  instantiations := hsound.instantiations
  total := by
    simp only [Pool.grown, elements, List.map_cons, List.sum_cons, nextChunkOf]
    rw [hsound.total, Nat.add_comm]
    rfl
  grows := by simp [Pool.grown, hsound.grows]

theorem withBlockSize (hsound : Sound pool chain live) (blockSize : Nat) :
    Sound (pool.withBlockSize blockSize) chain live :=
  { hsound with }

theorem handedOut (hsound : Sound pool chain live) {rest : List Address}
    (hfree : pool.freeList = block :: rest) :
    Sound (pool.handedOut rest) chain.pop (block :: live) where
  size := hsound.size
  numbers_nodup := hsound.numbers_nodup
  numbers_lt := hsound.numbers_lt
  blocks := by
    have hblocks := hsound.blocks
    rw [hfree] at hblocks
    exact List.perm_middle.trans hblocks
  threaded := by
    have hthreaded := hsound.threaded
    rw [hfree] at hthreaded
    exact hthreaded.pop
  capacity := by simp [Pool.handedOut, hsound.capacity, hfree]
  instantiations := by simp [Pool.handedOut, hsound.instantiations]
  total := hsound.total
  grows := hsound.grows

theorem takenBack (hsound : Sound pool chain live) (hlive : block ∈ live) :
    Sound (pool.takenBack block) (chain.push block) (live.erase block) where
  size := hsound.size
  numbers_nodup := hsound.numbers_nodup
  numbers_lt := hsound.numbers_lt
  blocks := by
    have hback : (block :: (pool.freeList ++ live.erase block)).Perm (pool.freeList ++ live) :=
      calc
        (block :: (pool.freeList ++ live.erase block)).Perm
            (pool.freeList ++ block :: live.erase block) := List.perm_middle.symm
        (pool.freeList ++ block :: live.erase block).Perm (pool.freeList ++ live) :=
          (List.perm_cons_erase hlive).symm.append_left _
    exact hback.trans hsound.blocks
  threaded := hsound.threaded.push fun hfree => hsound.disjoint hfree hlive
  capacity := by simp [Pool.takenBack, hsound.capacity]
  instantiations := by
    simp [Pool.takenBack, hsound.instantiations, List.length_erase_of_mem hlive]
  total := hsound.total
  grows := hsound.grows

end Sound

/-! ## Pools in use -/

/-- The blocks of the chunks that a pool has got since it was `earlier`. -/
def newBlocks (earlier pool : Pool) : List Address :=
  (pool.chunks.take (pool.chunks.length - earlier.chunks.length)).flatMap
    fun chunk => chunk.blocks pool.stats.elementSize

@[simp]
theorem newBlocks_self (pool : Pool) : newBlocks pool pool = [] := by
  simp [newBlocks]

@[simp]
theorem newBlocks_grown (n : Nat) (pool : Pool) :
    newBlocks pool (pool.grown n) = (pool.nextChunkOf n).blocks pool.stats.elementSize := by
  simp [newBlocks, grown]

/-- A pool, its free list as it stands in its blocks, and the blocks that are handed
out, after some use of a new pool.  Only blocks that are handed out are taken back,
and no operation faulted.  The holder of a block may write into it at any time. -/
inductive InUse : Pool → FreeChain → List Address → Prop where
  | fresh {elementSize alignment : Nat} {config : PoolConfig} {initialized : Bool}
    (hsize : linkSize ≤ elementSize) :
    InUse (fresh elementSize alignment config initialized) .empty []
  | alloc {pool next : Pool} {chain : FreeChain} {live : List Address} {block : Address}
    (huse : InUse pool chain live) (hrun : alloc.run pool = .ok block next) :
    InUse next (chain.pushAll (newBlocks pool next)).pop (block :: live)
  | release {pool next : Pool} {chain : FreeChain} {live : List Address} {block : Address}
    (huse : InUse pool chain live) (hlive : block ∈ live)
    (hrun : (release block).run pool = .ok () next) :
    InUse next (chain.push block) (live.erase block)
  | grow {pool next : Pool} {chain : FreeChain} {live : List Address}
    (huse : InUse pool chain live) (hrun : grow.run pool = .ok () next) :
    InUse next (chain.pushAll (newBlocks pool next)) live
  | growBy {pool next : Pool} {chain : FreeChain} {live : List Address} {n : Nat}
    (huse : InUse pool chain live) (hrun : (growBy n).run pool = .ok () next) :
    InUse next (chain.pushAll (newBlocks pool next)) live
  | reserve {pool next : Pool} {chain : FreeChain} {live : List Address} {n : Nat}
    (huse : InUse pool chain live) (hrun : (reserve n).run pool = .ok () next) :
    InUse next (chain.pushAll (newBlocks pool next)) live
  | init {pool next : Pool} {chain : FreeChain} {live : List Address} {elementSize : Nat}
    {config : PoolConfig} (huse : InUse pool chain live)
    (hrun : (init elementSize config).run pool = .ok () next) :
    InUse next { chain with head := none } live
  | write {pool : Pool} {chain : FreeChain} {live : List Address} {block : Address}
    (huse : InUse pool chain live) (hlive : block ∈ live) (place : Option Address) :
    InUse pool (chain.scribble block place) live

variable {chain : FreeChain} {live : List Address}

/-- A pool that is set up anew has no blocks. -/
theorem Sound.reset {elementSize nextChunk : Nat} {config : PoolConfig} {initialized : Bool}
    {alignment : Nat} {journal : List Event} (hsize : linkSize ≤ elementSize)
    (hhead : chain.head = none) :
    Sound { Pool.fresh elementSize alignment config initialized with nextChunk, journal }
      chain [] where
  size := hsize
  numbers_nodup := List.nodup_nil
  numbers_lt := by simp [Pool.fresh]
  blocks := List.Perm.refl _
  threaded := hhead
  capacity := rfl
  instantiations := rfl
  total := rfl
  grows := rfl

theorem Sound.grow (hsound : Sound pool chain live) (hrun : Pool.grow.run pool = .ok () next) :
    Sound next (chain.pushAll (newBlocks pool next)) live := by
  obtain rfl := grow_ok hrun
  have hgrown := hsound.grown pool.stats.blockSize
  rw [← newBlocks_grown] at hgrown
  exact hgrown.withBlockSize pool.scaledBlockSize

theorem Sound.alloc (hsound : Sound pool chain live) (hrun : Pool.alloc.run pool = .ok block next) :
    Sound next (chain.pushAll (newBlocks pool next)).pop (block :: live) := by
  obtain ⟨supply, rest, hsupply, hfree, rfl⟩ := alloc_ok hrun
  have hnew : newBlocks pool (supply.handedOut rest) = newBlocks pool supply := rfl
  rw [hnew]
  obtain rfl | hgrow := hsupply
  · rw [newBlocks_self]
    exact hsound.handedOut hfree
  · exact (hsound.grow hgrow).handedOut hfree

theorem Sound.release (hsound : Sound pool chain live) (hlive : block ∈ live)
    (hrun : (Pool.release block).run pool = .ok () next) :
    Sound next (chain.push block) (live.erase block) := by
  obtain rfl := release_ok hrun
  exact hsound.takenBack hlive

theorem Sound.growBy (hsound : Sound pool chain live)
    (hrun : (Pool.growBy n).run pool = .ok () next) :
    Sound next (chain.pushAll (newBlocks pool next)) live := by
  obtain rfl := growBy_ok hrun
  rw [newBlocks_grown]
  exact hsound.grown n

theorem Sound.reserve (hsound : Sound pool chain live)
    (hrun : (Pool.reserve n).run pool = .ok () next) :
    Sound next (chain.pushAll (newBlocks pool next)) live := by
  obtain ⟨-, rfl⟩ | ⟨-, rfl⟩ := reserve_ok hrun
  · rw [newBlocks_self]
    exact hsound
  · rw [newBlocks_grown]
    exact hsound.grown _

theorem Sound.init (hsound : Sound pool chain live) {elementSize : Nat} {config : PoolConfig}
    (hrun : (Pool.init elementSize config).run pool = .ok () next) :
    Sound next { chain with head := none } live := by
  obtain ⟨hnone, -, rfl⟩ := init_ok hrun
  obtain rfl : live = [] := List.length_eq_zero_iff.1 (hsound.instantiations.symm.trans hnone)
  exact .reset (Nat.le_max_right _ _) rfl

theorem Sound.write (hsound : Sound pool chain live) (hlive : block ∈ live)
    (place : Option Address) : Sound pool (chain.scribble block place) live :=
  { hsound with
    threaded := hsound.threaded.scribble (fun hfree => hsound.disjoint hfree hlive) place }

/-- A block that is handed out is taken back without a fault. -/
theorem Sound.release_run (hsound : Sound pool chain live) (hlive : block ∈ live) :
    (Pool.release block).run pool = .ok () (pool.takenBack block) := by
  have howns : pool.owns block = true :=
    (owns_iff_mem_starts hsound.size_pos block).2 ((hsound.mem_starts_iff block).2 (.inr hlive))
  have hsome : pool.stats.instantiations ≠ 0 := by
    rw [hsound.instantiations]
    exact Nat.ne_of_gt (List.length_pos_of_mem hlive)
  rw [release_eq, howns, if_neg (by simp), if_neg hsome]

theorem InUse.sound (huse : InUse pool chain live) : Sound pool chain live := by
  induction huse with
  | fresh hsize => exact .reset hsize rfl
  | alloc _ hrun ih => exact ih.alloc hrun
  | release _ hlive hrun ih => exact ih.release hlive hrun
  | grow _ hrun ih => exact ih.grow hrun
  | growBy _ hrun ih => exact ih.growBy hrun
  | reserve _ hrun ih => exact ih.reserve hrun
  | init _ hrun ih => exact ih.init hrun
  | write _ hlive place ih => exact ih.write hlive place

theorem inUse_new : InUse new .empty [] :=
  .fresh (Nat.le_refl linkSize)

theorem InUse.of_forLayout {size alignment : Nat} {config : PoolConfig}
    (hmake : forLayout size alignment config = .ok pool) : InUse pool .empty [] := by
  simp only [forLayout, bind, Except.bind] at hmake
  split at hmake
  · cases hmake
  · obtain rfl := Except.ok.inj hmake
    exact .fresh (Nat.le_max_right size linkSize)

theorem InUse.emptyCopy (huse : InUse pool chain live) : InUse pool.emptyCopy .empty [] :=
  .fresh huse.sound.size

/-- Every block is accounted for: the chain of free blocks ends and passes no block
twice, the free blocks and those handed out are distinct and are exactly the starts of
elements, and the counters agree with this. -/
structure Accounted (pool : Pool) (chain : FreeChain) (live : List Address) : Prop where
  threaded : chain.Lists pool.freeList
  free_nodup : pool.freeList.Nodup
  live_nodup : live.Nodup
  disjoint : pool.freeList.Disjoint live
  starts : ∀ place, (place ∈ pool.freeList ∨ place ∈ live) ↔
    ∃ chunk ∈ pool.chunks, place ∈ chunk.blocks pool.stats.elementSize
  owns : ∀ place, pool.owns place = true ↔ (place ∈ pool.freeList ∨ place ∈ live)
  capacity : pool.stats.capacity = pool.freeList.length
  instantiations : pool.stats.instantiations = live.length
  balance : pool.stats.instantiations + pool.stats.capacity = pool.stats.total
  total : pool.stats.total = (pool.chunks.map Chunk.elements).sum
  grows : pool.stats.grows = pool.chunks.length

theorem Sound.toAccounted (hsound : Sound pool chain live) : Accounted pool chain live where
  threaded := hsound.threaded
  free_nodup := (List.nodup_append'.1 hsound.nodup_blocks).1
  live_nodup := (List.nodup_append'.1 hsound.nodup_blocks).2.1
  disjoint := hsound.disjoint
  starts := fun place => (hsound.mem_starts_iff place).symm.trans mem_starts
  owns := fun place =>
    (owns_iff_mem_starts hsound.size_pos place).trans (hsound.mem_starts_iff place)
  capacity := hsound.capacity
  instantiations := hsound.instantiations
  balance := hsound.balance
  total := hsound.total
  grows := hsound.grows

/-- The block that is handed out was first on the chain, after the pool has grown if
it had to, and nobody else holds it. -/
theorem Sound.fresh_of_alloc (hsound : Sound pool chain live)
    (hrun : Pool.alloc.run pool = .ok block next) :
    (chain.pushAll (newBlocks pool next)).head = some block ∧ block ∉ live := by
  have hlive := (List.nodup_append'.1 (hsound.alloc hrun).nodup_blocks).2.1
  refine ⟨?_, (List.nodup_cons.1 hlive).1⟩
  obtain ⟨supply, rest, hsupply, hfree, rfl⟩ := alloc_ok hrun
  have hthreaded : (chain.pushAll (newBlocks pool supply)).Lists supply.freeList := by
    obtain rfl | hgrow := hsupply
    · rw [newBlocks_self]
      exact hsound.threaded
    · exact (hsound.grow hgrow).threaded
  rw [hfree] at hthreaded
  exact hthreaded.1

/-- However a pool is used, all its blocks are accounted for, and no block is handed out
that is still held. -/
theorem InUse.accounted (huse : InUse pool chain live) :
    Accounted pool chain live ∧
      ∀ block next, Pool.alloc.run pool = .ok block next →
        (chain.pushAll (newBlocks pool next)).head = some block ∧ block ∉ live :=
  ⟨huse.sound.toAccounted, fun _ _ hrun => huse.sound.fresh_of_alloc hrun⟩

/-- Two blocks are handed out, the first one comes back, and the pool grows by another. -/
theorem accounted_after_reuse :
    ∃ pool chain, InUse pool chain [⟨0, 24⟩] ∧ pool.freeList = [⟨1, 0⟩, ⟨0, 0⟩] ∧
      Accounted pool chain [⟨0, 24⟩] := by
  have hmake : forLayout 24 8 ⟨2, 2⟩ = .ok (.fresh 24 8 ⟨2, 2⟩ true) := rfl
  have hfirst : InUse _ _ [⟨0, 0⟩] := (InUse.of_forLayout hmake).alloc rfl
  have hsecond : InUse _ _ [⟨0, 24⟩, ⟨0, 0⟩] := hfirst.alloc rfl
  have hheld : (⟨0, 0⟩ : Address) ∈ [⟨0, 24⟩, ⟨0, 0⟩] := by decide
  have hback : InUse _ _ [⟨0, 24⟩] := hsecond.release hheld rfl
  have hgrown := hback.growBy (n := 1) rfl
  exact ⟨_, _, hgrown, rfl, hgrown.accounted.1⟩

end Pool

end StackLang
