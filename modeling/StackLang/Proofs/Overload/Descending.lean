import Mathlib
import StackLang.Proofs.Overload.Claiming

/-!
# Going down an arena

A signature is followed through an arena by claiming, chain after chain, the branch for its
next slot.  What a claim leaves around the next chain fits into what was around the chain
before, so the whole way down ends with the chain that the signature leads to and with
everything else around it.  An arena that holds a tree thus takes an overload whenever the
tree does, and then it holds the tree with that overload; otherwise it stays as it is.
-/

namespace StackLang.OverloadArena

open OverloadTree

variable {arena made opened : OverloadArena} {id branch : NodeId} {link : Option NodeId}
  {tree grown : OverloadTree} {slot : TypeSlot} {plug : OverloadTree → OverloadTree}
  {nodes inner outer added : List NodeId} {rounds : Nat}

/-! ## Chain after chain -/

/-- From a chain on the nodes listed the way led on to `next`, which heads `chain` on the
nodes `inner`, and `plug` is what is around it on the nodes `outer`.  The nodes that were
made for this are `added`. -/
structure Opens (arena : OverloadArena) (nodes : List NodeId) (id next : NodeId)
    (chain : OverloadTree) (plug : OverloadTree → OverloadTree) (opened : OverloadArena)
    (outer inner added : List NodeId) : Prop where
  grows : Grows arena nodes added opened
  perm : (outer ++ inner).Perm (nodes ++ added)
  heads : Heads opened next chain inner
  surrounds : Surrounds opened outer id next plug
  unchanged : added = [] → opened = arena

namespace Opens

/-- The ways from chain to chain lead on from each other. -/
theorem trans {middle last : NodeId} {chain below : OverloadTree}
    {deeper : OverloadTree → OverloadTree} {passed rest later : List NodeId}
    (hopens : Opens arena nodes id middle chain plug made outer inner added)
    (hdeeper : Opens made inner middle last below deeper opened passed rest later)
    (hnodes : ∀ id ∈ nodes, id ∈ arena.ids) (hnodup : nodes.Nodup)
    (hfit : made.nodes.size ≤ 2 ^ 32) :
    Opens arena nodes id last below (plug ∘ deeper) opened (outer ++ passed) rest
      (added ++ later) where
  grows := hopens.grows.trans hdeeper.grows
    (fun own hown => hopens.perm.subset (List.mem_append_right outer hown)) hfit
  perm := by
    have hinner := hdeeper.perm.append_left outer
    have houter := hopens.perm.append_right later
    simp only [List.append_assoc] at hinner houter ⊢
    exact hinner.trans houter
  heads := hdeeper.heads
  surrounds := by
    intro other behind nodes hagree hdraws
    have hall := hopens.perm.nodup_iff.2 (hopens.grows.nodup_append hnodes hnodup hfit)
    -- What is around the first chain was left alone on the way further down.
    have hsame : ∀ own ∈ outer, other.node? own = made.node? own := fun own hown => by
      have hmem := hopens.grows.mem_of_append hnodes
        (hopens.perm.subset (List.mem_append_left inner hown))
      rw [hagree own (by simp [hown]), hdeeper.grows.kept own hmem
        (List.disjoint_of_nodup_append hall hown)]
    obtain ⟨below, hbelow, hinner⟩ :=
      hdeeper.surrounds (fun own hown => hagree own (by simp [hown])) hdraws
    obtain ⟨whole, hwhole, houter⟩ := hopens.surrounds hsame hbelow
    refine ⟨whole, hwhole, houter.trans ?_⟩
    rw [List.append_assoc]
    exact hinner.append_left outer
  unchanged := fun hadded => by
    obtain ⟨hfirst, hsecond⟩ := List.append_eq_nil_iff.1 hadded
    rw [hdeeper.unchanged hsecond, hopens.unchanged hfirst]

end Opens

/-- A branch that waits for a chain gets one without anything. -/
theorem Awaits.opens (hawaits : Awaits made outer id branch plug)
    (hgrows : Grows arena nodes added made) (hperm : outer.Perm (nodes ++ added))
    (hnodes : ∀ id ∈ nodes, id ∈ arena.ids) (hfit : made.nodes.size < 2 ^ 32) :
    ∃ opened, made.follow .next .blank branch = pure (made.fresh, opened) ∧
      Opens arena nodes id made.fresh .empty plug opened outer [made.fresh]
        (added ++ [made.fresh]) := by
  obtain ⟨node, hnode, hopen⟩ := hawaits.open_branch
  obtain ⟨hbranch, hblank⟩ := node?_linked hnode hfit .blank (node.linkedTo made.fresh .next)
  have hlinked : Grows made outer [made.fresh]
      ((made.add .blank).set branch (node.linkedTo made.fresh .next)) :=
    .linked hawaits.mem .blank _
  refine ⟨_, follow_of_none .next hnode hopen .blank, ?_, ?_, .blank hblank, ?_, by simp⟩
  · exact hgrows.trans hlinked (fun own hown => hperm.subset hown) hfit.le
  · simpa using hperm.append_right [made.fresh]
  · intro other behind inner hagree hdraws
    refine hawaits.plugged hnode ((hagree branch hawaits.mem).trans hbranch)
      (fun own hown hne => ?_) hdraws
    have hmem := hgrows.mem_of_append hnodes (hperm.subset hown)
    have hbranch : Grows made [branch] [made.fresh]
        ((made.add .blank).set branch (node.linkedTo made.fresh .next)) :=
      .linked (by simp) .blank _
    rw [hagree own hown, hbranch.kept own hmem (by simpa using hne)]

/-- One slot leads from a chain to the next one. -/
theorem Heads.claim_opens (hheads : Heads arena id tree nodes) (hwf : tree.WellFormed)
    (hnodup : nodes.Nodup) (slot : TypeSlot)
    (hfit : arena.nodes.size + tree.lacks slot ≤ 2 ^ 32) :
    ∃ branch made next opened outer inner added,
      (∀ rounds, nodes.length < rounds → arena.claim slot rounds id = pure (branch, made)) ∧
      made.follow .next .blank branch = pure (next, opened) ∧
      Opens arena nodes id next (tree.childOf slot) (tree.withChild slot) opened outer inner added ∧
      added.length = tree.lacks slot := by
  cases hchild : tree.child? slot with
  | none =>
    obtain ⟨branch, made, outer, added, hclaim, hgrows, hperm, hlength, hawaits⟩ :=
      hheads.claim_new hwf hchild hnodup (by have hpos := lacks_pos hchild; omega)
    obtain ⟨opened, hfollow, hopens⟩ :=
      hawaits.opens hgrows hperm (fun own hown => hheads.mem_ids hown) (by
        have hsize := hgrows.size
        omega)
    have hempty : tree.childOf slot = .empty := by rw [childOf, hchild]; rfl
    exact ⟨branch, made, made.fresh, opened, outer, _, _, hclaim, hfollow, hempty ▸ hopens,
      by simpa using hlength⟩
  | some behind =>
    cases hheads with
    | blank => cases hchild
    | chain hdraws =>
      obtain ⟨branch, node, next, outer, inner, hseek, hnode, hnext, hbehind, hperm, hsurrounds⟩ :=
        hdraws.finds rfl hwf hchild
      have hsame : tree.childOf slot = behind := by rw [childOf, hchild]; rfl
      have hlacks : tree.lacks slot = 0 := by rw [lacks, hchild]; rfl
      refine ⟨branch, arena, next, arena, outer, inner, [],
        fun rounds hrounds => (hdraws.claim_eq_seek slot rounds).trans (hseek rounds hrounds),
        follow_of_some .next hnode hnext .blank,
        ⟨.refl nodes, ?_, hsame ▸ .chain hbehind, hsurrounds, fun _ => rfl⟩, hlacks.symm⟩
      rwa [List.append_nil]

theorem length_le_size (hnodup : nodes.Nodup) (hnodes : ∀ own ∈ nodes, own ∈ arena.ids) :
    nodes.length ≤ arena.nodes.size :=
  length_ids ▸ (hnodup.subperm hnodes).length_le

/-- A signature leads to the chain that the tree has for it, and the rest of the tree is
around that chain. -/
theorem Heads.descend_opens (hheads : Heads arena id tree nodes) (hwf : tree.WellFormed)
    (hnodup : nodes.Nodup) {signature : Signature}
    (hfit : arena.nodes.size + tree.missing signature ≤ 2 ^ 32) :
    ∃ next opened outer inner added,
      (∀ rounds, arena.nodes.size + tree.missing signature < rounds →
        arena.descend rounds id signature = pure (next, opened)) ∧
      Opens arena nodes id next (tree.chainAt signature) (tree.graft signature) opened outer
        inner added ∧
      added.length = tree.missing signature := by
  induction signature generalizing arena id tree nodes with
  | nil =>
    refine ⟨id, arena, [], nodes, [], fun _ _ => rfl,
      ⟨.refl nodes, by simp, hheads, ?_, fun _ => rfl⟩, rfl⟩
    exact fun other behind inner _ hdraws => ⟨inner, hdraws, .rfl⟩
  | cons slot rest ih =>
    rw [missing] at hfit
    have hnodes : ∀ own ∈ nodes, own ∈ arena.ids := fun own hown => hheads.mem_ids hown
    obtain ⟨branch, made, middle, reached, outer, inner, added, hclaim, hfollow, hopens, hlength⟩ :=
      hheads.claim_opens hwf hnodup slot (by omega)
    have hsize := hopens.grows.size
    have hall := hopens.perm.nodup_iff.2
      (hopens.grows.nodup_append hnodes hnodup (by omega))
    obtain ⟨next, opened, passed, last, later, hdescend, hdeeper, hmore⟩ :=
      ih hopens.heads (wellFormed_childOf hwf slot) hall.of_append_right (by omega)
    refine ⟨next, opened, outer ++ passed, last, added ++ later, fun rounds hrounds => ?_,
      hopens.trans hdeeper hnodes hnodup (by omega), ?_⟩
    · rw [missing] at hrounds
      have hfew := length_le_size hnodup hnodes
      rw [descend, hclaim rounds (by omega), pure_bind]
      dsimp only
      rw [hfollow, pure_bind, hdescend rounds (by omega)]
    · rw [List.length_append, hlength, hmore, missing]


/-! ## Insertions -/

/-- The arena holds a tree, from the root on, and nothing else. -/
def Holds (arena : OverloadArena) (tree : OverloadTree) : Prop :=
  ∃ nodes, Heads arena .root tree nodes ∧ nodes.Perm arena.ids

theorem Draws.length_eq (hdraws : Draws arena link tree nodes) : nodes.length = tree.size := by
  induction hdraws with
  | empty => rfl
  | leaf _ _ ih => rw [List.length_cons, ih, size]
  | branch _ _ _ ihNext ihBelow =>
    rw [List.length_cons, List.length_append, ihNext, ihBelow, size]

theorem Heads.length_eq (hheads : Heads arena id tree nodes) : nodes.length = tree.places := by
  cases hheads with
  | blank => rfl
  | chain hdraws =>
    rw [hdraws.length_eq, places, max_eq_right]
    cases hdraws <;> exact Nat.succ_pos _

namespace Holds

theorem new : Holds {} .empty :=
  ⟨[.root], .blank rfl, .rfl⟩

theorem size_eq (hholds : Holds arena tree) : arena.nodes.size = tree.places := by
  obtain ⟨nodes, hheads, hperm⟩ := hholds
  rw [← length_ids, ← hperm.length_eq, hheads.length_eq]

/-- An overload that the tree takes becomes a leaf where its signature leads to. -/
theorem insert_added (hholds : Holds arena tree) (hwf : tree.WellFormed) {signature : Signature}
    {function : Token} (hne : signature ≠ []) (hadd : tree.add function signature = .ok grown)
    (hfit : grown.places ≤ 2 ^ 32) :
    ∃ later, (∀ rounds, grown.places < rounds →
        arena.insert rounds signature function = pure (later, true, [])) ∧
      Holds later grown := by
  obtain ⟨hchain, rfl, hplaces⟩ := hwf.of_add hadd
  rw [hplaces, ← hholds.size_eq] at hfit ⊢
  obtain ⟨nodes, hheads, hids⟩ := hholds
  have hnodup : nodes.Nodup := hids.nodup_iff.2 (nodup_ids (by omega))
  obtain ⟨next, opened, outer, inner, added, hdescend, hopens, hlength⟩ :=
    hheads.descend_opens hwf hnodup hfit
  have hall := hopens.perm.nodup_iff.2 (hopens.grows.nodup_append
    (fun own hown => hheads.mem_ids hown) hnodup (by rw [hopens.grows.size, hlength]; exact hfit))
  have hend := hopens.heads
  rw [hchain] at hend
  obtain ⟨hblank⟩ | ⟨⟨⟩⟩ := hend
  let later := opened.set next { kind := .leaf, function }
  have hleaf : Draws later (some next) (.leaf function .empty) [next] :=
    .leaf (node?_set_self hblank) .empty
  have hagree : ∀ own ∈ outer, later.node? own = opened.node? own := fun own hown =>
    node?_set_ne fun heq => List.disjoint_of_nodup_append hall hown (by simp [heq])
  obtain ⟨whole, hwhole, hperm⟩ := hopens.surrounds hagree hleaf
  refine ⟨later, fun rounds hrounds => ?_, whole, .chain hwhole, ?_⟩
  · rw [insert, if_neg (by simpa using hne), hdescend rounds hrounds, pure_bind]
    dsimp only
    rw [node_of_node? hblank, pure_bind]
    dsimp only
    rw [update_of_node? hblank, pure_bind]
  · rw [ids_set, hopens.grows.ids]
    exact (hperm.trans hopens.perm).trans (hids.append_right added)

/-- An overload that the tree refuses leaves the arena as it is. -/
theorem insert_refused (hholds : Holds arena tree) (hwf : tree.WellFormed)
    {signature : Signature} {function : Token} {refusal : Refusal} (hne : signature ≠ [])
    (hadd : tree.add function signature = .error refusal) (hfit : tree.places ≤ 2 ^ 32)
    (hrounds : tree.places < rounds) :
    arena.insert rounds signature function =
      pure (arena, false, [refusal.event signature]) := by
  rw [hwf.add_eq] at hadd
  have hmissing : tree.missing signature = 0 := missing_eq_zero fun hchain => by
    rw [hchain] at hadd
    cases hadd
  rw [← hholds.size_eq] at hfit hrounds
  obtain ⟨nodes, hheads, hids⟩ := hholds
  obtain ⟨next, opened, outer, inner, added, hdescend, hopens, hlength⟩ :=
    hheads.descend_opens hwf (hids.nodup_iff.2 (nodup_ids hfit)) (by rw [hmissing]; exact hfit)
  -- Nothing was missing on the way, so no node was made and no wildcard moved.
  obtain rfl := hopens.unchanged (List.eq_nil_of_length_eq_zero (hlength.trans hmissing))
  have hend := hopens.heads
  rw [insert, if_neg (by simpa using hne),
    hdescend rounds (by rw [hmissing]; exact hrounds), pure_bind]
  dsimp only
  cases hchain : tree.chainAt signature with
  | empty =>
    rw [hchain] at hadd
    cases hadd
  | leaf bound alternatives =>
    rw [hchain] at hend hadd
    cases hadd
    obtain _ | ⟨_ | hnode⟩ := hend
    rw [node_of_node? hnode, pure_bind]
  | branch own behind alternatives =>
    rw [hchain] at hend hadd
    cases hadd
    obtain _ | ⟨_ | _ | hnode⟩ := hend
    rw [node_of_node? hnode, pure_bind]

/-- An arena that holds a tree does what the tree does. -/
theorem insert_eq (hholds : Holds arena tree) (hwf : tree.WellFormed) {signature : Signature}
    {function : Token} {taken : Bool} {events : List Event}
    (hinsert : tree.insert signature function = .ok (grown, taken, events))
    (hfit : grown.places ≤ 2 ^ 32) :
    ∃ later, (∀ rounds, grown.places < rounds →
        arena.insert rounds signature function = pure (later, taken, events)) ∧
      Holds later grown ∧ (taken = false → later = arena) := by
  obtain ⟨hne, ⟨hadd, rfl, rfl⟩ | ⟨refusal, hadd, rfl, rfl, rfl⟩⟩ :=
    OverloadTree.insert_cases hinsert
  · obtain ⟨later, hlater, hgrown⟩ := hholds.insert_added hwf hne hadd hfit
    exact ⟨later, hlater, hgrown, fun htaken => by cases htaken⟩
  · exact ⟨arena, fun rounds hrounds => hholds.insert_refused hwf hne hadd hfit hrounds, hholds,
      fun _ => rfl⟩

end Holds

end StackLang.OverloadArena
