import Mathlib
import StackLang.Proofs.Overload.Descending

/-!
# The shape of an arena

The links of an arena could lead anywhere.  This module says of the nodes and links alone
what shape they have: they form a tree from the root on, its chains are in order, and every
node is filled in according to its kind.  Any sequence of overloads makes an arena of this
shape, as long as its nodes can be numbered, and on the way every search for a branch comes
to an end with the wildcard in its place.
-/

namespace StackLang.OverloadArena

open OverloadTree Relation

variable {arena : OverloadArena} {id later start target : NodeId} {way : Link}
  {link : Option NodeId} {tree : OverloadTree} {node : OverloadNode} {nodes : List NodeId}

/-! ## Links -/

/-- A link of the one node leads to the other. -/
def LinksTo (arena : OverloadArena) (way : Link) (id target : NodeId) : Prop :=
  ∃ node, arena.node? id = some node ∧ node.target way = some target

/-- Some link of the one node leads to the other. -/
def LeadsTo (arena : OverloadArena) (id target : NodeId) : Prop :=
  ∃ way, arena.LinksTo way id target

/-- Where the links of a node lead. -/
def targets (arena : OverloadArena) (id : NodeId) : List NodeId :=
  (arena.node? id).elim [] fun node => node.next.toList ++ node.alternative.toList

/-- The nodes form a tree of chains from the root on.  Every node but the root is where
exactly one link leads, and no chain has two nodes of one kind.  A leaf is the head of its
chain, with nothing behind it, and a wildcard is the end of its chain.  Branches lead on,
leaves alone have functions, and a blank node is all that there is. -/
structure Sound (arena : OverloadArena) : Prop where
  reached : ∀ id ∈ arena.ids, ReflTransGen arena.LeadsTo .root id
  acyclic : ∀ id, ¬ TransGen arena.LeadsTo id id
  referenced : ∀ id ∈ arena.ids, id ≠ .root →
    ∃! reference : NodeId × Link, arena.LinksTo reference.2 reference.1 id
  within : ∀ {id target}, arena.LeadsTo id target → target ∈ arena.ids ∧ target ≠ .root
  distinct : ∀ {id later node further}, TransGen (arena.LinksTo .alternative) id later →
    arena.node? id = some node → arena.node? later = some further → node.kind ≠ further.kind
  leaf_heads : ∀ {id later node}, arena.LinksTo .alternative id later →
    arena.node? later = some node → node.kind ≠ .leaf
  leaf_ends : ∀ {id node}, arena.node? id = some node → node.kind = .leaf → node.next = none
  wildcard_last : ∀ {id node}, arena.node? id = some node → node.kind = .branch .any →
    node.alternative = none
  branch_leads : ∀ {id node slot}, arena.node? id = some node → node.kind = .branch slot →
    node.next.isSome
  function_leaf : ∀ {id node}, arena.node? id = some node → node.kind ≠ .leaf →
    node.function = .void
  blank_alone : ∀ {id node}, arena.node? id = some node → node.kind = .blank → arena = {}

/-! ## Parts of a drawing -/

namespace Draws

/-- Every node that a drawing takes up draws a part of the tree. -/
theorem exists_part (hdraws : Draws arena link tree nodes) (hwf : tree.WellFormed)
    (hmem : id ∈ nodes) : ∃ part inner, Draws arena (some id) part inner ∧ part.WellFormed ∧
      inner.Sublist nodes := by
  induction hdraws with
  | empty => cases hmem
  | leaf hnode hbelow ih =>
    obtain rfl | hlater := List.mem_cons.1 hmem
    · exact ⟨_, _, .leaf hnode hbelow, hwf, .refl _⟩
    · obtain ⟨part, inner, hpart, hshape, hsub⟩ := ih hwf.2 hlater
      exact ⟨part, inner, hpart, hshape, hsub.cons _⟩
  | branch hnode hnext hbelow ihNext ihBelow =>
    obtain rfl | hlater := List.mem_cons.1 hmem
    · exact ⟨_, _, .branch hnode hnext hbelow, hwf, .refl _⟩
    · obtain hinner | hafter := List.mem_append.1 hlater
      · obtain ⟨part, inner, hpart, hshape, hsub⟩ := ihNext hwf.2.1 hinner
        exact ⟨part, inner, hpart, hshape, (hsub.trans (List.sublist_append_left _ _)).cons _⟩
      · obtain ⟨part, inner, hpart, hshape, hsub⟩ := ihBelow hwf.2.2.2.1 hafter
        exact ⟨part, inner, hpart, hshape, (hsub.trans (List.sublist_append_right _ _)).cons _⟩

theorem start_mem (hdraws : Draws arena (some id) tree nodes) : id ∈ nodes := by
  cases hdraws <;> exact List.mem_cons_self

/-- A link of the first node leads to a drawing on the other nodes. -/
theorem of_leadsTo (hdraws : Draws arena (some id) tree nodes) (hleads : arena.LeadsTo id target) :
    ∃ part inner rest, nodes = id :: rest ∧ Draws arena (some target) part inner ∧
      inner ⊆ rest := by
  obtain ⟨way, node, hnode, htarget⟩ := hleads
  cases hdraws with
  | leaf hown hbelow =>
    obtain rfl := Option.some.inj (hnode.symm.trans hown)
    cases way with
    | next => cases htarget
    | alternative =>
      cases htarget
      exact ⟨_, _, _, rfl, hbelow, fun _ hmem => hmem⟩
  | branch hown hnext hbelow =>
    obtain rfl := Option.some.inj (hnode.symm.trans hown)
    cases way with
    | next =>
      cases htarget
      exact ⟨_, _, _, rfl, hnext, List.subset_append_left _ _⟩
    | alternative =>
      cases htarget
      exact ⟨_, _, _, rfl, hbelow, List.subset_append_right _ _⟩

/-- Links do not lead out of a drawing. -/
theorem mem_of_reached (hreached : ReflTransGen arena.LeadsTo id target)
    (hdraws : Draws arena (some id) tree nodes) : target ∈ nodes := by
  induction hreached using ReflTransGen.head_induction_on generalizing tree nodes with
  | refl => exact hdraws.start_mem
  | head hleads _ ih =>
    obtain ⟨part, inner, rest, rfl, hpart, hsub⟩ := hdraws.of_leadsTo hleads
    exact List.mem_cons_of_mem _ (hsub (ih hpart))

/-- Links do not lead back to where a drawing starts. -/
theorem not_returning (hdraws : Draws arena (some id) tree nodes) (hnodup : nodes.Nodup) :
    ¬ TransGen arena.LeadsTo id id := by
  intro hreturns
  -- The first link leads to a drawing on the other nodes, and no link leads out of that.
  obtain ⟨next, hleads, hreached⟩ := TransGen.head'_iff.1 hreturns
  obtain ⟨part, inner, rest, rfl, hpart, hsub⟩ := hdraws.of_leadsTo hleads
  exact (List.nodup_cons.1 hnodup).1 (hsub (mem_of_reached hreached hpart))

/-- Every node that a drawing takes up is reached from where the drawing starts. -/
theorem reached (hdraws : Draws arena link tree nodes) (hmem : id ∈ nodes) :
    ∃ start, link = some start ∧ ReflTransGen arena.LeadsTo start id := by
  induction hdraws with
  | empty => cases hmem
  | leaf hnode _ ih =>
    refine ⟨_, rfl, ?_⟩
    obtain rfl | hlater := List.mem_cons.1 hmem
    · exact .refl
    · obtain ⟨start, hlink, hreached⟩ := ih hlater
      exact hreached.head ⟨.alternative, _, hnode, hlink⟩
  | branch hnode _ _ ihNext ihBelow =>
    refine ⟨_, rfl, ?_⟩
    obtain rfl | hlater := List.mem_cons.1 hmem
    · exact .refl
    · obtain hinner | hafter := List.mem_append.1 hlater
      · obtain ⟨start, hlink, hreached⟩ := ihNext hinner
        exact hreached.head ⟨.next, _, hnode, hlink⟩
      · obtain ⟨start, hlink, hreached⟩ := ihBelow hafter
        exact hreached.head ⟨.alternative, _, hnode, hlink⟩

/-- The nodes that a drawing takes up are its start and where the links of its nodes
lead. -/
theorem perm_targets (hdraws : Draws arena link tree nodes) :
    nodes.Perm (link.toList ++ nodes.flatMap arena.targets) := by
  induction hdraws with
  | empty => rfl
  | @leaf id alternative function alternatives below hnode _ ih =>
    have hown : arena.targets id = alternative.toList := by simp [targets, hnode]
    rw [List.flatMap_cons, hown, Option.toList_some, List.singleton_append]
    exact ih.cons id
  | @branch id next alternative slot behind alternatives inner below hnode _ _ ihNext ihBelow =>
    have hown : arena.targets id = [next] ++ alternative.toList := by simp [targets, hnode]
    rw [List.flatMap_cons, List.flatMap_append, hown, Option.toList_some, List.singleton_append]
    refine .cons id ((ihNext.append ihBelow).trans (List.perm_iff_count.2 fun other => ?_))
    simp only [List.count_append, Option.toList_some]
    omega

/-- In what is left of a chain there are branches for different slots, and they are those
of the tree. -/
theorem exists_branch (hreached : ReflTransGen (arena.LinksTo .alternative) id later)
    (hdraws : Draws arena (some id) tree nodes) (hwf : tree.WellFormed)
    (hhead : tree.head? = none) (hnode : arena.node? later = some node) :
    ∃ slot, node.kind = .branch slot ∧ (tree.child? slot).isSome := by
  induction hreached using ReflTransGen.head_induction_on generalizing tree nodes with
  | refl =>
    cases hdraws with
    | leaf => cases hhead
    | branch hown => exact ⟨_, by rw [Option.some.inj (hnode.symm.trans hown)], by simp [child?]⟩
  | head hlink _ ih =>
    obtain ⟨first, hfirst, halternative⟩ := hlink
    cases hdraws with
    | leaf => cases hhead
    | @branch _ next _ own behind alternatives inner below hown _ hbelow =>
      obtain rfl := Option.some.inj (hfirst.symm.trans hown)
      obtain ⟨-, -, hrest, halternatives, -, -⟩ := hwf
      cases halternative
      obtain ⟨slot, hkind, hchild⟩ := ih hbelow halternatives hrest
      refine ⟨slot, hkind, ?_⟩
      rw [child?]
      split
      · rfl
      · exact hchild

end Draws

/-! ## Shape -/

theorem mem_targets_iff : target ∈ arena.targets id ↔ arena.LeadsTo id target := by
  constructor
  · intro hmem
    cases hnode : arena.node? id with
    | none => simp [targets, hnode] at hmem
    | some node =>
      rw [targets, hnode] at hmem
      obtain hnext | halternative := List.mem_append.1 hmem
      · exact ⟨.next, node, hnode, Option.mem_toList.1 hnext⟩
      · exact ⟨.alternative, node, hnode, Option.mem_toList.1 halternative⟩
  · rintro ⟨way, node, hnode, htarget⟩
    rw [targets, hnode]
    cases way with
    | next => exact List.mem_append_left _ (Option.mem_toList.2 htarget)
    | alternative => exact List.mem_append_right _ (Option.mem_toList.2 htarget)

theorem LeadsTo.mem_ids (hleads : arena.LeadsTo id target) : id ∈ arena.ids := by
  obtain ⟨way, node, hnode, -⟩ := hleads
  exact mem_ids_of_node? hnode

/-- If no target occurs twice, the links that lead to a node are those of one node. -/
theorem source_unique {source other : NodeId} (hnodup : (nodes.flatMap arena.targets).Nodup)
    (hsource : source ∈ nodes) (hother : other ∈ nodes) (htarget : target ∈ arena.targets source)
    (hagain : target ∈ arena.targets other) : source = other := by
  have hsymm : Std.Symm (Function.onFun List.Disjoint arena.targets) :=
    ⟨fun _ _ hdisjoint => hdisjoint.symm⟩
  by_contra hne
  exact (List.nodup_flatMap.1 hnodup).2.forall hsource hother hne htarget hagain

/-- The two links of a node do not lead to the same node if its targets differ. -/
theorem way_unique {other : Link} (hnodup : (arena.targets id).Nodup)
    (hlink : arena.LinksTo way id target) (hother : arena.LinksTo other id target) :
    way = other := by
  obtain ⟨node, hnode, htarget⟩ := hlink
  obtain ⟨same, hsame, hagain⟩ := hother
  obtain rfl := Option.some.inj (hnode.symm.trans hsame)
  rw [targets, hnode] at hnodup
  have hdisjoint := List.disjoint_of_nodup_append hnodup
  cases way <;> cases other
  · rfl
  · exact (hdisjoint (Option.mem_toList.2 htarget) (Option.mem_toList.2 hagain)).elim
  · exact (hdisjoint (Option.mem_toList.2 hagain) (Option.mem_toList.2 htarget)).elim
  · rfl

namespace Draws

/-- If a drawing takes up no node twice, one link leads to each of its nodes but the first,
and none leads to that one. -/
theorem referenced (hdraws : Draws arena (some start) tree nodes) (hnodup : nodes.Nodup)
    (hnodes : nodes.Perm arena.ids) :
    (∀ id ∈ arena.ids, id ≠ start →
      ∃! reference : NodeId × Link, arena.LinksTo reference.2 reference.1 id) ∧
      ∀ {id target}, arena.LeadsTo id target → target ∈ arena.ids ∧ target ≠ start := by
  -- No node occurs twice, neither among the targets nor as the start besides.
  have hperm : nodes.Perm (start :: nodes.flatMap arena.targets) := hdraws.perm_targets
  obtain ⟨hstart, htargets⟩ := List.nodup_cons.1 (hperm.nodup_iff.1 hnodup)
  have hmem : ∀ {id target}, arena.LeadsTo id target → target ∈ nodes.flatMap arena.targets :=
    fun hleads => List.mem_flatMap.2
      ⟨_, hnodes.mem_iff.2 hleads.mem_ids, mem_targets_iff.2 hleads⟩
  refine ⟨fun id hid hne => ?_, fun hleads => ⟨?_, ?_⟩⟩
  · have hlinked : id ∈ nodes.flatMap arena.targets :=
      (List.mem_cons.1 (hperm.subset (hnodes.mem_iff.2 hid))).resolve_left hne
    obtain ⟨source, hsource, htarget⟩ := List.mem_flatMap.1 hlinked
    obtain ⟨way, hlink⟩ := mem_targets_iff.1 htarget
    refine ⟨(source, way), hlink, fun ⟨other, another⟩ hother => ?_⟩
    have hleads : arena.LeadsTo other id := ⟨another, hother⟩
    obtain rfl := source_unique htargets (hnodes.mem_iff.2 hleads.mem_ids) hsource
      (mem_targets_iff.2 hleads) htarget
    have hown := (List.nodup_flatMap.1 htargets).1 other hsource
    exact congrArg (Prod.mk other) (way_unique hown hother hlink)
  · exact hnodes.subset (hperm.symm.subset (List.mem_cons_of_mem _ (hmem hleads)))
  · exact fun heq => hstart (heq ▸ hmem hleads)

/-- The node that a drawing starts at is a leaf with nothing behind it or a branch that
leads on, with nothing beside it if it is the wildcard's. -/
theorem node_cases (hdraws : Draws arena (some id) tree nodes) (hwf : tree.WellFormed)
    (hnode : arena.node? id = some node) :
    (node.kind = .leaf ∧ node.next = none) ∨
      ∃ slot, node.kind = .branch slot ∧ node.next.isSome ∧ node.function = .void ∧
        (slot = .any → node.alternative = none) := by
  cases hdraws with
  | leaf hown =>
    obtain rfl := Option.some.inj (hnode.symm.trans hown)
    exact .inl ⟨rfl, rfl⟩
  | @branch _ _ _ slot _ _ _ _ hown _ hbelow =>
    obtain rfl := Option.some.inj (hnode.symm.trans hown)
    refine .inr ⟨slot, rfl, rfl, rfl, fun hany => ?_⟩
    obtain ⟨-, -, -, -, -, hlast⟩ := hwf
    rw [hlast hany] at hbelow
    cases hbelow
    rfl

/-- Further alternatives of a chain are branches for other slots than the node has. -/
theorem alternative_cases (hdraws : Draws arena (some id) tree nodes) (hwf : tree.WellFormed)
    (hlater : TransGen (arena.LinksTo .alternative) id later) {further : OverloadNode}
    (hnode : arena.node? id = some node) (hfurther : arena.node? later = some further) :
    ∃ slot, further.kind = .branch slot ∧ node.kind ≠ .branch slot := by
  obtain ⟨next, ⟨first, hfirst, hlink⟩, hreached⟩ := TransGen.head'_iff.1 hlater
  obtain rfl := Option.some.inj (hnode.symm.trans hfirst)
  cases hdraws with
  | leaf hown hbelow =>
    obtain rfl := Option.some.inj (hnode.symm.trans hown)
    cases hlink
    obtain ⟨slot, hkind, -⟩ := hbelow.exists_branch hreached hwf.2 hwf.1 hfurther
    exact ⟨slot, hkind, by simp⟩
  | @branch _ _ _ own _ _ _ _ hown _ hbelow =>
    obtain rfl := Option.some.inj (hnode.symm.trans hown)
    cases hlink
    obtain ⟨-, -, hhead, halternatives, honce, -⟩ := hwf
    obtain ⟨slot, hkind, hchild⟩ := hbelow.exists_branch hreached halternatives hhead hfurther
    refine ⟨slot, hkind, fun heq => ?_⟩
    cases heq
    rw [honce] at hchild
    cases hchild

/-- A drawing that takes up all nodes of an arena gives it its shape. -/
theorem sound (hdraws : Draws arena (some .root) tree nodes) (hwf : tree.WellFormed)
    (hnodes : nodes.Perm arena.ids) (hfit : arena.nodes.size ≤ 2 ^ 32) : arena.Sound := by
  have hnodup : nodes.Nodup := hnodes.nodup_iff.2 (nodup_ids hfit)
  obtain ⟨hreferenced, hwithin⟩ := hdraws.referenced hnodup hnodes
  -- What holds of a node is read off the part of the drawing that begins with it.
  have hparts : ∀ {id}, id ∈ arena.ids → ∃ part inner, Draws arena (some id) part inner ∧
      part.WellFormed ∧ inner.Sublist nodes := fun hmem =>
    hdraws.exists_part hwf (hnodes.mem_iff.2 hmem)
  have hnode_cases : ∀ {id node}, arena.node? id = some node →
      (node.kind = .leaf ∧ node.next = none) ∨ ∃ slot, node.kind = .branch slot ∧
        node.next.isSome ∧ node.function = .void ∧ (slot = .any → node.alternative = none) :=
    fun hnode => by
      obtain ⟨part, inner, hpart, hshape, -⟩ := hparts (mem_ids_of_node? hnode)
      exact hpart.node_cases hshape hnode
  have halternative_cases : ∀ {id later node further},
      TransGen (arena.LinksTo .alternative) id later → arena.node? id = some node →
      arena.node? later = some further →
      ∃ slot, further.kind = .branch slot ∧ node.kind ≠ .branch slot :=
    fun hlater hnode hfurther => by
      obtain ⟨part, inner, hpart, hshape, -⟩ := hparts (mem_ids_of_node? hnode)
      exact hpart.alternative_cases hshape hlater hnode hfurther
  exact {
    reached := fun id hmem => by
      obtain ⟨start, hstart, hreached⟩ := hdraws.reached (hnodes.mem_iff.2 hmem)
      exact Option.some.inj hstart ▸ hreached
    acyclic := fun id hreturns => by
      obtain ⟨next, hleads, -⟩ := TransGen.head'_iff.1 hreturns
      obtain ⟨part, inner, hpart, -, hsub⟩ := hparts hleads.mem_ids
      exact hpart.not_returning (hsub.nodup hnodup) hreturns
    referenced := hreferenced
    within := hwithin
    distinct := fun hlater hnode hfurther => by
      obtain ⟨slot, hkind, hne⟩ := halternative_cases hlater hnode hfurther
      rwa [hkind]
    leaf_heads := fun hlink hlater => by
      have hfurther := TransGen.single hlink
      obtain ⟨node, hnode, -⟩ := hlink
      obtain ⟨slot, hkind, -⟩ := halternative_cases hfurther hnode hlater
      simp [hkind]
    leaf_ends := fun hnode hkind => by
      obtain ⟨-, hnext⟩ | ⟨slot, hbranch, -⟩ := hnode_cases hnode
      · exact hnext
      · simp [hbranch] at hkind
    wildcard_last := fun hnode hkind => by
      obtain ⟨hleaf, -⟩ | ⟨slot, hbranch, -, -, hlast⟩ := hnode_cases hnode
      · simp [hleaf] at hkind
      · exact hlast (NodeKind.branch.inj (hbranch.symm.trans hkind))
    branch_leads := fun hnode hkind => by
      obtain ⟨hleaf, -⟩ | ⟨slot, -, hnext, -⟩ := hnode_cases hnode
      · simp [hleaf] at hkind
      · exact hnext
    function_leaf := fun hnode hkind => by
      obtain ⟨hleaf, -⟩ | ⟨slot, -, -, hfunction, -⟩ := hnode_cases hnode
      · exact absurd hleaf hkind
      · exact hfunction
    blank_alone := fun hnode hkind => by
      obtain ⟨hleaf, -⟩ | ⟨slot, hbranch, -⟩ := hnode_cases hnode
      · simp [hleaf] at hkind
      · simp [hbranch] at hkind }

end Draws

/-- The only node of an arena without overloads is blank. -/
theorem node?_new (hnode : ({} : OverloadArena).node? id = some node) :
    id = .root ∧ node = {} := by
  have hindex : id.index = 0 := Nat.lt_one_iff.1 (index_lt_of_node? hnode)
  have hroot : id = .root := NodeId.index_injective hindex
  subst hroot
  exact ⟨rfl, (Option.some.inj hnode).symm⟩

theorem not_leadsTo_new : ¬ ({} : OverloadArena).LeadsTo id target := by
  rintro ⟨way, node, hnode, htarget⟩
  obtain ⟨-, rfl⟩ := node?_new hnode
  cases way <;> cases htarget

theorem sound_new : Sound {} where
  reached := fun id hmem => by
    obtain ⟨node, hnode⟩ := exists_node hmem
    rw [(node?_new hnode).1]
  acyclic := fun id hreturns => by
    obtain ⟨next, hleads, -⟩ := TransGen.head'_iff.1 hreturns
    exact not_leadsTo_new hleads
  referenced := fun id hmem hne => by
    obtain ⟨node, hnode⟩ := exists_node hmem
    exact absurd (node?_new hnode).1 hne
  within := fun hleads => (not_leadsTo_new hleads).elim
  distinct := fun hlater _ _ => by
    obtain ⟨next, hlink, -⟩ := TransGen.head'_iff.1 hlater
    exact (not_leadsTo_new ⟨_, hlink⟩).elim
  leaf_heads := fun hlink _ => (not_leadsTo_new ⟨_, hlink⟩).elim
  leaf_ends := fun hnode _ => by rw [(node?_new hnode).2]
  wildcard_last := fun hnode _ => by rw [(node?_new hnode).2]
  branch_leads := fun hnode hkind => by
    rw [(node?_new hnode).2] at hkind
    cases hkind
  function_leaf := fun hnode _ => by rw [(node?_new hnode).2]
  blank_alone := fun _ _ => rfl

/-- An arena with one node, which is blank, is one without overloads. -/
theorem eq_new (hnode : arena.node? .root = some {}) (hsize : arena.nodes.size = 1) :
    arena = {} := by
  obtain ⟨node, hnodes⟩ := Array.size_eq_one_iff.1 hsize
  obtain ⟨nodes⟩ := arena
  obtain rfl : nodes = #[node] := hnodes
  obtain rfl : node = {} := Option.some.inj hnode
  rfl

/-- From the head of a chain, the branch for any slot is found or made. -/
theorem Heads.claims (hheads : Heads arena id tree nodes) (hwf : tree.WellFormed)
    (hnodup : nodes.Nodup) (hfit : arena.nodes.size < 2 ^ 32) (slot : TypeSlot) :
    ∃ branch made, ∀ rounds, nodes.length < rounds →
      arena.claim slot rounds id = pure (branch, made) := by
  cases hchild : tree.child? slot with
  | none =>
    obtain ⟨branch, made, -, -, hclaim, -⟩ := hheads.claim_new hwf hchild hnodup hfit
    exact ⟨branch, made, hclaim⟩
  | some behind =>
    cases hheads with
    | blank => cases hchild
    | chain hdraws =>
      obtain ⟨branch, -, -, -, -, hseek, -⟩ := hdraws.finds rfl hwf hchild
      exact ⟨branch, arena, fun rounds hrounds =>
        (hdraws.claim_eq_seek slot rounds).trans (hseek rounds hrounds)⟩

namespace Holds

/-- An arena that holds a tree has its shape. -/
theorem sound (hholds : Holds arena tree) (hwf : tree.WellFormed)
    (hfit : arena.nodes.size ≤ 2 ^ 32) : arena.Sound := by
  obtain ⟨nodes, hheads, hids⟩ := hholds
  cases hheads with
  | blank hnode =>
    rw [eq_new hnode (by rw [← length_ids, ← hids.length_eq]; rfl)]
    exact sound_new
  | chain hdraws => exact hdraws.sound hwf hids hfit

/-- Wherever a search for a branch begins, it comes to an end. -/
theorem claims (hholds : Holds arena tree) (hwf : tree.WellFormed)
    (hfit : arena.nodes.size < 2 ^ 32) (hmem : id ∈ arena.ids) (slot : TypeSlot) :
    ∃ branch made, ∀ rounds, arena.nodes.size < rounds →
      arena.claim slot rounds id = pure (branch, made) := by
  obtain ⟨nodes, hheads, hids⟩ := hholds
  have hnodup : nodes.Nodup := hids.nodup_iff.2 (nodup_ids hfit.le)
  rw [← length_ids, ← hids.length_eq]
  cases hheads with
  | blank hnode =>
    obtain rfl := List.mem_singleton.1 (hids.mem_iff.2 hmem)
    exact (Heads.blank hnode).claims hwf hnodup hfit slot
  | chain hdraws =>
    obtain ⟨part, inner, hpart, hshape, hsub⟩ := hdraws.exists_part hwf (hids.mem_iff.2 hmem)
    obtain ⟨branch, made, hclaim⟩ :=
      (Heads.chain hpart).claims hshape (hsub.nodup hnodup) hfit slot
    exact ⟨branch, made, fun rounds hrounds => hclaim rounds (hsub.length_le.trans_lt hrounds)⟩

end Holds

/-! ## Sequences of requests -/

/-- Requests an overload.  A request without operands is a fault before any node is read. -/
def offer (rounds : Nat) (arena : OverloadArena) (request : Overload) : Attempt OverloadArena :=
  if request.1.isEmpty then return arena
  else return (← arena.insert rounds request.1 request.2).1

/-- What a sequence of requests makes of an arena without overloads. -/
def ofRequests (rounds : Nat) (requests : List Overload) : Attempt OverloadArena :=
  requests.foldlM (offer rounds) {}

/-- Requests do not make a tree smaller. -/
theorem places_le_offerAll {record : Record} (hfaithful : record.Faithful)
    (requests : List Overload) :
    record.tree.places ≤ (requests.foldl Record.offer record).tree.places := by
  induction requests generalizing record with
  | nil => exact le_rfl
  | cons request rest ih =>
    refine le_trans ?_ (ih (hfaithful.offer request))
    obtain hsame | ⟨added, hadd, hoffer⟩ := record.offer_cases request
    · rw [hsame]
    · obtain ⟨-, -, hplaces⟩ := hfaithful.wellFormed.of_add hadd
      rw [hoffer]
      exact le_of_le_of_eq (Nat.le_add_right _ _) hplaces.symm

namespace Holds

/-- A request does to an arena what it does to the tree that the arena holds. -/
theorem offer_eq {record : Record} (hholds : Holds arena record.tree)
    (hwf : record.tree.WellFormed) (request : Overload)
    (hfit : (record.offer request).tree.places ≤ 2 ^ 32) :
    ∃ later, (∀ rounds, (record.offer request).tree.places < rounds →
        arena.offer rounds request = pure later) ∧
      Holds later (record.offer request).tree := by
  by_cases hempty : request.1.isEmpty
  · have hoffer : record.offer request = record := by
      rw [Record.offer, OverloadTree.insert, if_pos hempty]
    rw [hoffer]
    exact ⟨arena, fun rounds _ => if_pos hempty, hholds⟩
  · obtain ⟨grown, taken, events, hinsert⟩ : ∃ grown taken events,
        record.tree.insert request.1 request.2 = .ok (grown, taken, events) := by
      rw [OverloadTree.insert, if_neg hempty]
      cases record.tree.add request.2 request.1 <;> exact ⟨_, _, _, rfl⟩
    have hoffer : (record.offer request).tree = grown := by
      rw [Record.offer, hinsert]
      cases taken <;> rfl
    rw [hoffer] at hfit ⊢
    obtain ⟨later, hlater, hheld, -⟩ := hholds.insert_eq hwf hinsert hfit
    refine ⟨later, fun rounds hrounds => ?_, hheld⟩
    rw [OverloadArena.offer, if_neg hempty, hlater rounds hrounds, pure_bind]

theorem offerAll_eq {record : Record} (hholds : Holds arena record.tree)
    (hfaithful : record.Faithful) (requests : List Overload)
    (hfit : (requests.foldl Record.offer record).tree.places ≤ 2 ^ 32) :
    ∃ later, (∀ rounds, (requests.foldl Record.offer record).tree.places < rounds →
        requests.foldlM (offer rounds) arena = pure later) ∧
      Holds later (requests.foldl Record.offer record).tree := by
  induction requests generalizing arena record with
  | nil => exact ⟨arena, fun _ _ => rfl, hholds⟩
  | cons request rest ih =>
    have hgrowing := places_le_offerAll (hfaithful.offer request) rest
    obtain ⟨middle, hmiddle, hheld⟩ :=
      hholds.offer_eq hfaithful.wellFormed request (hgrowing.trans hfit)
    obtain ⟨later, hlater, hlast⟩ := ih hheld (hfaithful.offer request) hfit
    refine ⟨later, fun rounds hrounds => ?_, hlast⟩
    rw [List.foldlM_cons, hmiddle rounds (hgrowing.trans_lt hrounds), pure_bind,
      hlater rounds hrounds]

end Holds

/-- A sequence of requests makes an arena that holds what the sequence makes of a tree. -/
theorem exists_ofRequests (requests : List Overload)
    (hfit : (Record.ofRequests requests).tree.places ≤ 2 ^ 32) :
    ∃ arena, Holds arena (Record.ofRequests requests).tree ∧
      ∀ rounds, (Record.ofRequests requests).tree.places < rounds →
        ofRequests rounds requests = pure arena := by
  have hnew : Holds {} ({} : Record).tree := .new
  obtain ⟨arena, harena, hholds⟩ :=
    hnew.offerAll_eq (Record.faithful_ofRequests []) requests hfit
  exact ⟨arena, hholds, harena⟩

/-- Selections and listings of an arena take no more rounds than it has nodes, and one, and
give what the tree gives. -/
theorem Holds.reads (hholds : Holds arena tree) {rounds : Nat}
    (hrounds : arena.nodes.size < rounds) :
    (∀ stack, arena.select rounds stack = pure (tree.select stack.operandTypes)) ∧
      (∀ expand, arena.info rounds expand = pure (tree.info expand)) ∧
      arena.toArray rounds = pure tree.toArray := by
  obtain ⟨nodes, hheads, hids⟩ := hholds
  rw [← length_ids, ← hids.length_eq] at hrounds
  exact ⟨fun stack => hheads.select_eq stack hrounds, fun expand => hheads.info_eq expand hrounds,
    hheads.toArray_eq hrounds⟩

/-- Any sequence of requests comes to an end, as long as its nodes can be numbered, with an
arena in shape that has one node for each place of the tree.  Wherever a search for a branch
begins in this arena, it comes to an end too, and so does every selection and every listing,
with what the tree selects or lists.  None of this takes more rounds than the arena has
nodes, and one. -/
theorem sound_ofRequests (requests : List Overload)
    (hfit : (Record.ofRequests requests).tree.places ≤ 2 ^ 32) :
    let tree := (Record.ofRequests requests).tree
    ∃ arena, (∀ rounds, arena.nodes.size < rounds → ofRequests rounds requests = pure arena) ∧
      arena.Sound ∧ arena.nodes.size = tree.places ∧
      (arena.nodes.size < 2 ^ 32 → ∀ id ∈ arena.ids, ∀ slot, ∃ branch made,
        ∀ rounds, arena.nodes.size < rounds → arena.claim slot rounds id = pure (branch, made)) ∧
      ∀ rounds, arena.nodes.size < rounds →
        (∀ stack, arena.select rounds stack = pure (tree.select stack.operandTypes)) ∧
        (∀ expand, arena.info rounds expand = pure (tree.info expand)) ∧
        arena.toArray rounds = pure tree.toArray := by
  intro tree
  have hwf : tree.WellFormed := (Record.faithful_ofRequests requests).wellFormed
  obtain ⟨arena, hholds, harena⟩ := exists_ofRequests requests hfit
  have hsize : arena.nodes.size = tree.places := hholds.size_eq
  refine ⟨arena, fun rounds hrounds => harena rounds (hsize ▸ hrounds),
    hholds.sound hwf (hsize.trans_le hfit), hsize,
    fun hroom id hmem slot => hholds.claims hwf hroom hmem slot, fun _ => hholds.reads⟩

/-- A wildcard that was bound first makes way twice and keeps what is behind it. -/
theorem sound_ofRequests_moved :
    let requests : List Overload :=
      [([.any, .any], .integer 1), ([.exactly .integer], .integer 2), ([.any], .integer 3),
        ([.exactly .double, .any], .integer 4)]
    (Record.ofRequests requests).tree.places ≤ 2 ^ 32 ∧
      ∃ arena, ofRequests 9 requests = pure arena ∧ arena.Sound ∧ arena.nodes.size = 8 ∧
        (∀ id ∈ arena.ids, ∃ branch made, arena.claim .any 9 id = pure (branch, made)) ∧
        arena.toArray 9 = pure (.array
          [.array [.literal "integertype", .array [.integer 2]],
            .array [.literal "doubletype",
              .array [.array [.literal "anytype", .array [.integer 4]]]],
            .array [.literal "anytype",
              .array [.array [.literal "anytype", .array [.integer 1]]]]]) := by
  intro requests
  have hplaces : (Record.ofRequests requests).tree.places = 8 := by decide
  have hfit : (Record.ofRequests requests).tree.places ≤ 2 ^ 32 := by rw [hplaces]; decide
  obtain ⟨arena, harena, hsound, hsize, hclaims, hreads⟩ := sound_ofRequests requests hfit
  rw [hplaces] at hsize
  have hrounds : arena.nodes.size < 9 := by omega
  have hroom : arena.nodes.size < 2 ^ 32 := by rw [hsize]; decide
  obtain ⟨-, -, harray⟩ := hreads 9 hrounds
  refine ⟨hfit, arena, harena 9 hrounds, hsound, hsize, fun id hmem => ?_, harray⟩
  obtain ⟨branch, made, hclaim⟩ := hclaims hroom id hmem .any
  exact ⟨branch, made, hclaim 9 hrounds⟩

end StackLang.OverloadArena
