import Mathlib
import StackLang.Proofs.Overload.Bindings

/-!
# Additions from the outside in

An addition to an overload tree can be read the way a signature is followed: go down to the
chain that the signature leads to, put a leaf there if the chain is empty, and put the
result back.  On the way down a chain may lack the branch for a slot; on the way back it
has one.  The chain and the branch that come new are counted, so that it is known beforehand
how much larger a tree gets.
-/

namespace StackLang.OverloadTree

variable {tree behind : OverloadTree} {slot : TypeSlot} {function : Token}

/-- How many leaves and branches there are. -/
def size : OverloadTree → Nat
  | empty => 0
  | leaf _ alternatives => alternatives.size + 1
  | branch _ next alternatives => next.size + alternatives.size + 1

/-- How many places it takes to write a tree down.  A chain without anything takes one. -/
def places (tree : OverloadTree) : Nat :=
  max 1 tree.size

/-- The chain behind the branch for a slot, which is empty if there is no branch. -/
def childOf (slot : TypeSlot) (tree : OverloadTree) : OverloadTree :=
  (tree.child? slot).getD empty

/-- Puts a chain behind the branch for a slot.  A new branch takes its place at the end of
the chain, but in front of the wildcard. -/
def withChild (slot : TypeSlot) : OverloadTree → OverloadTree → OverloadTree
  | empty, behind => branch slot behind empty
  | leaf function alternatives, behind => leaf function (alternatives.withChild slot behind)
  | branch own next alternatives, behind =>
    if own = slot then branch own behind alternatives
    else if own = .any then branch slot behind (branch own next alternatives)
    else branch own next (alternatives.withChild slot behind)

/-- The chain that a signature leads to. -/
def chainAt : Signature → OverloadTree → OverloadTree
  | [], tree => tree
  | slot :: rest, tree => (tree.childOf slot).chainAt rest

/-- Puts a chain where a signature leads to. -/
def graft : Signature → OverloadTree → OverloadTree → OverloadTree
  | [], _, behind => behind
  | slot :: rest, tree, behind =>
    tree.withChild slot ((tree.childOf slot).graft rest behind)

/-- How many places a chain lacks for a slot: one for the chain behind the slot, and one for
the branch, unless the chain is empty and has a place to spare. -/
def lacks (slot : TypeSlot) (tree : OverloadTree) : Nat :=
  if (tree.child? slot).isSome then 0 else if tree.isEmpty then 1 else 2

theorem lacks_pos (hchild : tree.child? slot = none) : 0 < tree.lacks slot := by
  rw [lacks, hchild]
  cases tree <;> simp [isEmpty]

/-- How many places a tree lacks for a signature. -/
def missing : Signature → OverloadTree → Nat
  | [], _ => 0
  | slot :: rest, tree => tree.lacks slot + (tree.childOf slot).missing rest

/-! ## Additions -/

private theorem map_map_result (result : Except Refusal OverloadTree)
    (inner outer : OverloadTree → OverloadTree) :
    (result.map inner).map outer = result.map fun tree => outer (inner tree) := by
  cases result <;> rfl

/-- An addition takes place behind the branch for the first slot. -/
theorem WellFormed.add_cons (hwf : tree.WellFormed) (rest : Signature) :
    tree.add function (slot :: rest) =
      ((tree.childOf slot).add function rest).map (tree.withChild slot) := by
  induction tree with
  | empty => rfl
  | leaf bound alternatives ih =>
    rw [add, ih hwf.2, map_map_result]
    rfl
  | branch own next alternatives _ ih =>
    obtain ⟨-, -, -, halternatives, -, hlast⟩ := hwf
    by_cases hown : own = slot
    · simp [add, childOf, child?, withChild, hown]
    · by_cases hany : own = .any
      · subst hany
        obtain rfl := hlast rfl
        simp [add, childOf, child?, withChild, hown, Except.map]
      · simp only [add, hown, hany, if_false, ih halternatives, map_map_result, childOf, child?,
          withChild]

theorem chainAt_empty (signature : Signature) : empty.chainAt signature = empty := by
  induction signature with
  | nil => rfl
  | cons slot rest ih => exact ih

theorem wellFormed_childOf (hwf : tree.WellFormed) (slot : TypeSlot) :
    (tree.childOf slot).WellFormed := by
  rw [childOf]
  cases hchild : tree.child? slot with
  | none => trivial
  | some behind => exact (hwf.of_child? hchild).1

/-- A signature can be added exactly if it leads to an empty chain. -/
theorem WellFormed.add_eq (hwf : tree.WellFormed) (signature : Signature) :
    tree.add function signature =
      match tree.chainAt signature with
      | empty => .ok (tree.graft signature (leaf function empty))
      | leaf _ _ => .error .alreadyDefined
      | branch _ _ _ => .error .startsLonger := by
  induction signature generalizing tree with
  | nil => cases tree <;> rfl
  | cons slot rest ih =>
    rw [hwf.add_cons, ih (wellFormed_childOf hwf slot), chainAt]
    cases (tree.childOf slot).chainAt rest <;> rfl

/-! ## Places -/

/-- Nothing is missing on the way to a chain that is not empty. -/
theorem missing_eq_zero {signature : Signature} (hbelow : tree.chainAt signature ≠ empty) :
    tree.missing signature = 0 := by
  induction signature generalizing tree with
  | nil => rfl
  | cons slot rest ih =>
    have hchild : (tree.child? slot).isSome := by
      by_contra hnone
      rw [Option.not_isSome_iff_eq_none] at hnone
      rw [chainAt, childOf, hnone] at hbelow
      exact hbelow (chainAt_empty rest)
    rw [missing, lacks, if_pos hchild, ih hbelow]

/-- A chain that is replaced behind its branch changes the size by the difference. -/
theorem WellFormed.size_withChild_of_some (hwf : tree.WellFormed) {old : OverloadTree}
    (hchild : tree.child? slot = some old) (behind : OverloadTree) :
    (tree.withChild slot behind).size + old.size = tree.size + behind.size := by
  induction tree with
  | empty => cases hchild
  | leaf bound alternatives ih =>
    have hbelow := ih hwf.2 hchild
    simp only [withChild, size]
    omega
  | branch own next alternatives _ ih =>
    obtain ⟨-, -, -, halternatives, -, hlast⟩ := hwf
    by_cases hown : own = slot
    · obtain rfl : next = old := by simpa [child?, hown] using hchild
      simp only [withChild, hown, if_true, size]
      omega
    · have hbehind : alternatives.child? slot = some old := by simpa [child?, hown] using hchild
      have hany : own ≠ .any := fun hany => by
        rw [hlast hany] at hbehind
        cases hbehind
      have hbelow := ih halternatives hbehind
      simp only [withChild, hown, hany, if_false, size]
      omega

/-- A chain behind a new branch comes in addition, and so does the branch. -/
theorem size_withChild_of_none (hchild : tree.child? slot = none) (behind : OverloadTree) :
    (tree.withChild slot behind).size = tree.size + behind.size + 1 := by
  induction tree with
  | empty => simp [withChild, size]
  | leaf bound alternatives ih =>
    rw [withChild, size, ih hchild, size]
    omega
  | branch own next alternatives _ ih =>
    have hown : own ≠ slot := fun hown => by simp [child?, hown] at hchild
    rw [withChild, if_neg hown]
    split
    · simp only [size]
      omega
    · rw [size, ih (by simpa [child?, hown] using hchild), size]
      omega

theorem size_eq_zero_iff : tree.size = 0 ↔ tree = empty := by
  cases tree <;> simp [size]

theorem size_graft_pos (hbehind : behind ≠ empty) (signature : Signature) (tree : OverloadTree) :
    0 < (tree.graft signature behind).size := by
  refine Nat.pos_of_ne_zero fun hzero => ?_
  rw [size_eq_zero_iff] at hzero
  cases signature with
  | nil => exact hbehind hzero
  | cons slot rest =>
    rw [graft] at hzero
    cases tree with
    | branch own next alternatives =>
      rw [withChild] at hzero
      split at hzero
      · cases hzero
      · split at hzero <;> cases hzero
    | _ => cases hzero

/-- A leaf put where a chain is empty takes the place of the chain, and what was missing on
the way there is all that comes new. -/
theorem WellFormed.places_graft (hwf : tree.WellFormed) {signature : Signature}
    (hchain : tree.chainAt signature = empty) :
    (tree.graft signature (leaf function empty)).places =
      tree.places + tree.missing signature := by
  induction signature generalizing tree with
  | nil =>
    obtain rfl : tree = empty := hchain
    rfl
  | cons slot rest ih =>
    have hdeeper := ih (wellFormed_childOf hwf slot) hchain
    have hpos := size_graft_pos (show leaf function empty ≠ empty by simp) rest
      (tree.childOf slot)
    rw [places, max_eq_right hpos] at hdeeper
    rw [graft, missing, lacks]
    cases hchild : tree.child? slot with
    | none =>
      have hnew : tree.childOf slot = empty := by rw [childOf, hchild]; rfl
      rw [hnew] at hdeeper ⊢
      rw [places, size_withChild_of_none hchild, hdeeper]
      cases tree with
      | empty => simp [places, size, isEmpty]; omega
      | _ => simp [places, size, isEmpty]; omega
    | some behind =>
      have hold : tree.childOf slot = behind := by rw [childOf, hchild]; rfl
      have hbehind : 0 < behind.size := Nat.pos_of_ne_zero fun hzero =>
        (hwf.of_child? hchild).2 (size_eq_zero_iff.1 hzero)
      have htree : 0 < tree.size := Nat.pos_of_ne_zero fun hzero => by
        rw [size_eq_zero_iff.1 hzero] at hchild
        cases hchild
      have hsize := hwf.size_withChild_of_some hchild
        ((tree.childOf slot).graft rest (leaf function empty))
      rw [hold] at hdeeper hsize ⊢
      rw [places, max_eq_right hbehind] at hdeeper
      simp only [places, Option.isSome_some, if_true]
      omega

/-- An addition puts a leaf where its signature leads to, and takes up the places that were
missing on the way there. -/
theorem WellFormed.of_add (hwf : tree.WellFormed) {signature : Signature} {added : OverloadTree}
    (hadd : tree.add function signature = .ok added) :
    tree.chainAt signature = empty ∧ added = tree.graft signature (leaf function empty) ∧
      added.places = tree.places + tree.missing signature := by
  rw [hwf.add_eq] at hadd
  split at hadd
  · rename_i hchain
    obtain rfl := Except.ok.inj hadd
    exact ⟨hchain, rfl, hwf.places_graft hchain⟩
  · cases hadd
  · cases hadd

end StackLang.OverloadTree
