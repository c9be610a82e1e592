import Mathlib.Data.List.Nodup
import StackLang.Pool.Basic

/-!
# Free lists threaded through blocks

A pool sets no room aside for its free list.  It knows the first free block, and the
first bytes of every free block hold the place of the next one.  The bytes of a block
that is handed out belong to its holder, who may write anything there.

This module says when such a chain of blocks is a given list, and how taking a block
off and putting blocks in front change it.
-/

namespace StackLang

/-- The first free block, and the place that the first bytes of each block hold. -/
structure FreeChain where
  head : Option Address
  link : Address → Option Address

namespace FreeChain

/-- No block is free. -/
def empty : FreeChain := ⟨none, fun _ => none⟩

/-- Takes the first block off. -/
def pop (chain : FreeChain) : FreeChain :=
  { chain with head := chain.head.bind chain.link }

/-- Puts a block in front: its first bytes hold the block that was first. -/
def push (block : Address) (chain : FreeChain) : FreeChain where
  head := some block
  link := fun other => if other = block then chain.head else chain.link other

/-- Puts blocks in front, which keep their order: each one leads to the next, and the
last one to the block that was first. -/
def pushAll (blocks : List Address) (chain : FreeChain) : FreeChain :=
  blocks.foldr push chain

/-- Whoever follows the chain passes the given blocks and comes to its end. -/
def Lists (chain : FreeChain) : List Address → Prop
  | [] => chain.head = none
  | block :: rest => chain.head = some block ∧ Lists chain.pop rest

theorem Lists.pop {chain : FreeChain} {block : Address} {rest : List Address}
    (hlists : chain.Lists (block :: rest)) : chain.pop.Lists rest :=
  hlists.2

/-- A chain is one list only. -/
theorem Lists.unique {chain : FreeChain} {blocks others : List Address}
    (hlists : chain.Lists blocks) (hothers : chain.Lists others) : blocks = others := by
  induction blocks generalizing chain others with
  | nil =>
    cases others with
    | nil => rfl
    | cons other behind => exact absurd (hlists.symm.trans hothers.1) (by simp)
  | cons block rest ih =>
    cases others with
    | nil => exact absurd (hothers.symm.trans hlists.1) (by simp)
    | cons other behind =>
      obtain rfl : block = other := Option.some.inj (hlists.1.symm.trans hothers.1)
      rw [ih hlists.2 hothers.2]

/-- Only the bytes of the blocks on the chain matter. -/
theorem Lists.congr {chain other : FreeChain} {blocks : List Address}
    (hlists : chain.Lists blocks) (hhead : other.head = chain.head)
    (hlink : ∀ block ∈ blocks, other.link block = chain.link block) : other.Lists blocks := by
  induction blocks generalizing chain other with
  | nil => exact hhead.trans hlists
  | cons block rest ih =>
    obtain ⟨hblock, hrest⟩ := hlists
    have hnext : other.pop.head = chain.pop.head := by
      simp only [FreeChain.pop, hhead, hblock, Option.bind_some]
      exact hlink block (by simp)
    exact ⟨hhead.trans hblock, ih hrest hnext fun later hmem => hlink later (by simp [hmem])⟩

theorem Lists.push {chain : FreeChain} {blocks : List Address} (hlists : chain.Lists blocks)
    {block : Address} (hfresh : block ∉ blocks) : (chain.push block).Lists (block :: blocks) := by
  refine ⟨rfl, hlists.congr (by simp [FreeChain.pop, FreeChain.push]) fun other hmem => ?_⟩
  have hne : other ≠ block := fun heq => hfresh (heq ▸ hmem)
  simp [FreeChain.pop, FreeChain.push, hne]

theorem Lists.pushAll {chain : FreeChain} {blocks : List Address} (hlists : chain.Lists blocks)
    {front : List Address} (hnodup : front.Nodup) (hfresh : front.Disjoint blocks) :
    (chain.pushAll front).Lists (front ++ blocks) := by
  induction front with
  | nil => exact hlists
  | cons block rest ih =>
    obtain ⟨hblock, hrest⟩ := List.nodup_cons.1 hnodup
    obtain ⟨hnew, hdisjoint⟩ := List.disjoint_cons_left.1 hfresh
    exact (ih hrest hdisjoint).push (by simp [hblock, hnew])

/-- What the holder of a block writes into it. -/
def scribble (block : Address) (place : Option Address) (chain : FreeChain) : FreeChain :=
  { chain with link := fun other => if other = block then place else chain.link other }

theorem Lists.scribble {chain : FreeChain} {blocks : List Address} (hlists : chain.Lists blocks)
    {block : Address} (hheld : block ∉ blocks) (place : Option Address) :
    (chain.scribble block place).Lists blocks := by
  refine hlists.congr rfl fun other hmem => ?_
  have hne : other ≠ block := fun heq => hheld (heq ▸ hmem)
  simp [FreeChain.scribble, hne]

end FreeChain

end StackLang
