import Mathlib
import StackLang.Proofs.Overload.Drawings
import StackLang.Proofs.Overload.Grafting

/-!
# Claiming a branch

On the way down an arena the branch for a slot is claimed in one chain after the other.
Between the claim of a branch and the next chain the arena draws no tree: the branch may
have nothing behind it yet, and if it is new it may stand in the node that was the
wildcard's.  What is said at such a point is what the arena draws as soon as something is
drawn behind the branch, whatever that is, as long as the nodes around it stay as they are.
-/

namespace StackLang.OverloadArena

open OverloadTree

variable {arena other made opened : OverloadArena} {id own branch next : NodeId}
  {link : Option NodeId} {tree rest behind : OverloadTree} {slot : TypeSlot}
  {node : OverloadNode} {wrap plug : OverloadTree → OverloadTree}
  {nodes cell inner outer below added : List NodeId} {rounds : Nat}

/-! ## Arenas that grow -/

/-- An arena with new nodes, in which of the old ones only those listed have changed. -/
structure Grows (arena : OverloadArena) (nodes added : List NodeId) (grown : OverloadArena) :
    Prop where
  ids : grown.ids = arena.ids ++ added
  kept : ∀ id ∈ arena.ids, id ∉ nodes → grown.node? id = arena.node? id

namespace Grows

theorem refl (nodes : List NodeId) : Grows arena nodes [] arena :=
  ⟨(List.append_nil _).symm, fun _ _ _ => rfl⟩

theorem size (hgrows : Grows arena nodes added made) :
    made.nodes.size = arena.nodes.size + added.length := by
  rw [← length_ids, hgrows.ids, List.length_append, length_ids]

theorem mem (hgrows : Grows arena nodes added made) (hmem : id ∈ arena.ids) : id ∈ made.ids := by
  rw [hgrows.ids]
  exact List.mem_append_left added hmem

theorem not_mem_added (hgrows : Grows arena nodes added made)
    (hfit : made.nodes.size ≤ 2 ^ 32) (hmem : id ∈ arena.ids) : id ∉ added := by
  have hnodup := nodup_ids hfit
  rw [hgrows.ids] at hnodup
  exact fun hadded => List.disjoint_of_nodup_append hnodup hmem hadded

theorem mem_of_append (hgrows : Grows arena nodes added made)
    (hnodes : ∀ id ∈ nodes, id ∈ arena.ids) (hmem : own ∈ nodes ++ added) : own ∈ made.ids := by
  rw [hgrows.ids]
  exact List.mem_append.2 ((List.mem_append.1 hmem).imp_left (hnodes own))

theorem nodup_append (hgrows : Grows arena nodes added made)
    (hnodes : ∀ id ∈ nodes, id ∈ arena.ids) (hnodup : nodes.Nodup)
    (hfit : made.nodes.size ≤ 2 ^ 32) : (nodes ++ added).Nodup := by
  have hids := nodup_ids hfit
  rw [hgrows.ids] at hids
  exact hnodup.append hids.of_append_right fun id hmem =>
    hgrows.not_mem_added hfit (hnodes id hmem)

/-- What changes afterwards may be nodes that were free to change and new ones. -/
theorem trans {later : List NodeId} (hgrows : Grows arena nodes added made)
    (hlater : Grows made inner later opened) (hinner : ∀ id ∈ inner, id ∈ nodes ++ added)
    (hfit : made.nodes.size ≤ 2 ^ 32) : Grows arena nodes (added ++ later) opened where
  ids := by rw [hlater.ids, hgrows.ids, List.append_assoc]
  kept := fun id hmem hid => by
    rw [hlater.kept id (hgrows.mem hmem) fun hchanged => ?_, hgrows.kept id hmem hid]
    obtain hold | hnew := List.mem_append.1 (hinner id hchanged)
    · exact hid hold
    · exact hgrows.not_mem_added hfit hmem hnew

theorem mono {more : List NodeId} (hgrows : Grows arena nodes added made)
    (hmore : ∀ id ∈ nodes, id ∈ more) : Grows arena more added made :=
  ⟨hgrows.ids, fun id hmem hid => hgrows.kept id hmem fun hold => hid (hmore id hold)⟩

theorem set (hmem : id ∈ nodes) (node : OverloadNode) :
    Grows arena nodes [] (arena.set id node) where
  ids := by simp
  kept := fun own _ hown => node?_set_ne fun heq => hown (heq ▸ hmem)

/-- A new node that another one is linked to. -/
theorem linked (hmem : id ∈ nodes) (kind : NodeKind) (node : OverloadNode) :
    Grows arena nodes [arena.fresh] ((arena.add kind).set id node) where
  ids := by simp
  kept := fun own hold hown => by
    have hne : own ≠ id := fun heq => hown (heq ▸ hmem)
    obtain ⟨node, hnode⟩ := exists_node hold
    rw [node?_set_ne hne, node?_add_of_some hnode, hnode]

end Grows

theorem fresh_not_mem_ids (hfit : arena.nodes.size < 2 ^ 32) : arena.fresh ∉ arena.ids := by
  intro hmem
  obtain ⟨index, hindex, heq⟩ := List.mem_map.1 hmem
  have hlt := List.mem_range.1 hindex
  have hsame := congrArg NodeId.index heq
  rw [fresh, NodeId.index_ofIndex hfit, NodeId.index_ofIndex (hlt.trans hfit)] at hsame
  omega

theorem ne_fresh_of_node? (hfit : arena.nodes.size < 2 ^ 32) (hnode : arena.node? id = some node) :
    id ≠ arena.fresh :=
  fun heq => fresh_not_mem_ids hfit (heq ▸ mem_ids_of_node? hnode)

/-- What is drawn on other nodes than those that may have changed stays. -/
theorem Draws.grow (hdraws : Draws arena link tree inner) (hgrows : Grows arena nodes added made)
    (hdisjoint : ∀ id ∈ inner, id ∉ nodes) : Draws made link tree inner :=
  hdraws.congr fun id hmem => hgrows.kept id (hdraws.mem_ids hmem) (hdisjoint id hmem)

/-! ## One node of a chain -/

/-- A node makes `wrap` of the alternatives behind it, and what else it draws takes up the
nodes listed. -/
inductive Cell (arena : OverloadArena) :
    OverloadNode → (OverloadTree → OverloadTree) → List NodeId → Prop where
  | leaf {alternative : Option NodeId} {function : Token} :
      Cell arena { kind := .leaf, alternative, function } (.leaf function) []
  | branch {next : NodeId} {alternative : Option NodeId} {slot : TypeSlot}
      {behind : OverloadTree} {inner : List NodeId} (hnext : Draws arena (some next) behind inner) :
      Cell arena { kind := .branch slot, next := some next, alternative } (.branch slot behind)
        inner

namespace Cell

theorem draws (hcell : Cell arena node wrap cell) (hnode : arena.node? id = some node)
    (hbelow : Draws arena node.alternative rest below) :
    Draws arena (some id) (wrap rest) (id :: (cell ++ below)) := by
  cases hcell with
  | leaf => exact .leaf hnode hbelow
  | branch hnext => exact .branch hnode hnext hbelow

theorem congr (hcell : Cell arena node wrap cell)
    (hagree : ∀ id ∈ cell, other.node? id = arena.node? id) : Cell other node wrap cell := by
  cases hcell with
  | leaf => exact .leaf
  | branch hnext => exact .branch (hnext.congr hagree)

theorem mem_ids (hcell : Cell arena node wrap cell) (hmem : own ∈ cell) : own ∈ arena.ids := by
  cases hcell with
  | leaf => cases hmem
  | branch hnext => exact hnext.mem_ids hmem

/-- It does not matter where the next alternative is. -/
theorem relinked (hcell : Cell arena node wrap cell) (alternative : Option NodeId) :
    Cell arena { node with alternative } wrap cell := by
  cases hcell with
  | leaf => exact .leaf
  | branch hnext => exact .branch hnext

/-- A node for something else than the slot passes it on, unless it is the wildcard's. -/
theorem withChild (hcell : Cell arena node wrap cell) (hkind : node.kind ≠ .branch slot)
    (hany : node.kind ≠ .branch .any) (rest behind : OverloadTree) :
    (wrap rest).withChild slot behind = wrap (rest.withChild slot behind) := by
  cases hcell with
  | leaf => rfl
  | branch hnext =>
    rw [OverloadTree.withChild, if_neg fun heq => hkind (congrArg _ heq),
      if_neg fun heq => hany (congrArg _ heq)]

end Cell

/-! ## What is around a chain -/

/-- As long as the nodes `outer` stay as they are, `id` heads the chain that `plug` makes of
whatever is drawn from `next` on. -/
def Surrounds (arena : OverloadArena) (outer : List NodeId) (id next : NodeId)
    (plug : OverloadTree → OverloadTree) : Prop :=
  ∀ ⦃other behind inner⦄, (∀ own ∈ outer, other.node? own = arena.node? own) →
    Draws other (some next) behind inner →
    ∃ nodes, Draws other (some id) (plug behind) nodes ∧ nodes.Perm (outer ++ inner)

/-- The branch has nothing behind it yet.  As soon as something is drawn there, `id` heads
the chain that `plug` makes of it, as long as the other nodes of `outer` stay as they are. -/
structure Awaits (arena : OverloadArena) (outer : List NodeId) (id branch : NodeId)
    (plug : OverloadTree → OverloadTree) : Prop where
  mem : branch ∈ outer
  open_branch : ∃ node, arena.node? branch = some node ∧ node.next = none
  plugged : ∀ ⦃other node next behind inner⦄, arena.node? branch = some node →
    other.node? branch = some { node with next := some next } →
    (∀ own ∈ outer, own ≠ branch → other.node? own = arena.node? own) →
    Draws other (some next) behind inner →
    ∃ nodes, Draws other (some id) (plug behind) nodes ∧ nodes.Perm (outer ++ inner)

/-- What is around a chain is also around it from a node further up. -/
theorem Surrounds.pass {alternative : NodeId}
    (hsurrounds : Surrounds arena outer alternative next (rest.withChild slot))
    (hnode : arena.node? id = some node) (hcell : Cell arena node wrap cell)
    (hkind : node.kind ≠ .branch slot) (hany : node.kind ≠ .branch .any)
    (hlink : node.alternative = some alternative) :
    Surrounds arena (id :: (cell ++ outer)) id next ((wrap rest).withChild slot) := by
  intro other behind inner hagree hdraws
  obtain ⟨below, hbelow, hperm⟩ :=
    hsurrounds (fun own hown => hagree own (by simp [hown])) hdraws
  have hsame := hcell.congr fun own hown => hagree own (by simp [hown])
  refine ⟨id :: (cell ++ below), ?_, ?_⟩
  · rw [hcell.withChild hkind hany]
    exact hsame.draws ((hagree id (by simp)).trans hnode) (hlink ▸ hbelow)
  · simpa using hperm.append_left cell

theorem Awaits.pass {alternative : NodeId}
    (hawaits : Awaits arena outer alternative branch (rest.withChild slot))
    (hnode : arena.node? id = some node) (hcell : Cell arena node wrap cell)
    (hkind : node.kind ≠ .branch slot) (hany : node.kind ≠ .branch .any)
    (hlink : node.alternative = some alternative) (hnodup : (id :: (cell ++ outer)).Nodup) :
    Awaits arena (id :: (cell ++ outer)) id branch ((wrap rest).withChild slot) where
  mem := by simp [hawaits.mem]
  open_branch := hawaits.open_branch
  plugged := by
    intro other old next behind inner hold hnew hagree hdraws
    obtain ⟨hid, hrest⟩ := List.nodup_cons.1 hnodup
    have hne : id ≠ branch := fun heq => hid (by simp [heq, hawaits.mem])
    have happart : ∀ own ∈ cell, own ≠ branch := fun own hown heq =>
      List.disjoint_of_nodup_append hrest hown (heq ▸ hawaits.mem)
    obtain ⟨below, hbelow, hperm⟩ :=
      hawaits.plugged hold hnew (fun own hown => hagree own (by simp [hown])) hdraws
    have hsame := hcell.congr fun own hown => hagree own (by simp [hown]) (happart own hown)
    refine ⟨id :: (cell ++ below), ?_, ?_⟩
    · rw [hcell.withChild hkind hany]
      exact hsame.draws ((hagree id (by simp) hne).trans hnode) (hlink ▸ hbelow)
    · simpa using hperm.append_left cell

theorem nodup_append_fresh (hdraws : Draws arena link tree nodes) (hnodup : nodes.Nodup)
    (hfit : arena.nodes.size < 2 ^ 32) : (nodes ++ [arena.fresh]).Nodup :=
  hnodup.append (List.nodup_singleton _) (List.disjoint_singleton.2 fun hmem =>
    fresh_not_mem_ids hfit (hdraws.mem_ids hmem))

/-! ## Following links -/

theorem follow_of_some (way : Link) (hnode : arena.node? id = some node)
    (hlink : node.target way = some next) (kind : NodeKind) :
    arena.follow way kind id = pure (next, arena) := by
  rw [follow, node_of_node? hnode, pure_bind, hlink]

theorem follow_of_none (way : Link) (hnode : arena.node? id = some node)
    (hlink : node.target way = none) (kind : NodeKind) :
    arena.follow way kind id =
      pure (arena.fresh, (arena.add kind).set id (node.linkedTo arena.fresh way)) := by
  rw [follow, node_of_node? hnode, pure_bind, hlink]
  dsimp only
  rw [update_of_node? (node?_add_of_some hnode kind), pure_bind]

/-- A node that was just made, and the one that was linked to it. -/
theorem node?_linked (hnode : arena.node? id = some node) (hfit : arena.nodes.size < 2 ^ 32)
    (kind : NodeKind) (changed : OverloadNode) :
    ((arena.add kind).set id changed).node? id = some changed ∧
      ((arena.add kind).set id changed).node? arena.fresh = some { kind } := by
  refine ⟨node?_set_self (node?_add_of_some hnode kind), ?_⟩
  rw [node?_set_ne (ne_fresh_of_node? hfit hnode).symm, node?_add_fresh hfit]

/-! ## Seeking a branch -/

theorem seek_here (hnode : arena.node? id = some node) (hkind : node.kind = .branch slot) :
    arena.seek slot (rounds + 1) id = pure (id, arena) := by
  rw [seek, node_of_node? hnode, pure_bind, if_pos hkind]

theorem seek_otherwise {alternative : NodeId} (hnode : arena.node? id = some node)
    (hkind : node.kind ≠ .branch slot)
    (hfollow : arena.follow .alternative (.branch slot) id = pure (alternative, made)) :
    arena.seek slot (rounds + 1) id =
      if node.kind = .branch .any then made.demote slot id alternative >>= seek slot rounds id
      else made.seek slot rounds alternative := by
  rw [seek, node_of_node? hnode, pure_bind, if_neg hkind, hfollow, pure_bind]

theorem seek_pass {alternative : NodeId} (hnode : arena.node? id = some node)
    (hkind : node.kind ≠ .branch slot) (hany : node.kind ≠ .branch .any)
    (hlink : node.alternative = some alternative) :
    arena.seek slot (rounds + 1) id = arena.seek slot rounds alternative := by
  rw [seek_otherwise hnode hkind (follow_of_some .alternative hnode hlink _), if_neg hany]

/-- At the end of a chain the branch is made in a new node. -/
theorem seek_end (hnode : arena.node? id = some node) (hfit : arena.nodes.size < 2 ^ 32)
    (hkind : node.kind ≠ .branch slot) (hany : node.kind ≠ .branch .any)
    (hlink : node.alternative = none) :
    ∃ made, (∀ rounds, arena.seek slot (rounds + 2) id = pure (arena.fresh, made)) ∧
      Grows arena [id] [arena.fresh] made ∧
      made.node? id = some { node with alternative := some arena.fresh } ∧
      made.node? arena.fresh = some { kind := .branch slot } := by
  obtain ⟨hself, hnew⟩ := node?_linked hnode hfit (.branch slot)
    (node.linkedTo arena.fresh .alternative)
  refine ⟨_, fun rounds => ?_, .linked (by simp) (.branch slot) _, hself, hnew⟩
  rw [seek_otherwise hnode hkind (follow_of_none .alternative hnode hlink _), if_neg hany,
    seek_here hnew rfl]

/-- A wildcard gives up its place and what is behind it, and only then the node after it,
which was made for the branch, becomes the wildcard. -/
theorem demote_eq {alternative : NodeId}
    (hwildcard : arena.node? id =
      some { kind := .branch .any, next := some next, alternative := some alternative })
    (hbranch : arena.node? alternative = some { kind := .branch slot }) (hne : id ≠ alternative)
    (hfit : arena.nodes.size ≤ 2 ^ 32) :
    ∃ made, arena.demote slot id alternative = pure made ∧
      Grows arena [id, alternative] [] made ∧
      made.node? id = some { kind := .branch slot, alternative := some alternative } ∧
      made.node? alternative = some { kind := .branch .any, next := some next } := by
  let changed := arena.set id { kind := .branch slot, alternative := some alternative }
  have hplace : changed.node? id =
    some { kind := .branch slot, alternative := some alternative } := node?_set_self hwildcard
  have hbehind : changed.node? alternative = some { kind := .branch slot } :=
    (node?_set_ne hne.symm).trans hbranch
  have hchanged : Grows arena [id, alternative] [] changed := .set (by simp) _
  refine ⟨changed.set alternative { kind := .branch .any, next := some next }, ?_, ?_,
    (node?_set_ne hne).trans hplace, node?_set_self hbehind⟩
  · rw [demote, node_of_node? hbranch, pure_bind, if_neg (by simp), node_of_node? hwildcard,
      pure_bind]
    dsimp only
    rw [update_of_node? hwildcard, pure_bind, update_of_node? hbehind]
  · exact hchanged.trans (.set (List.mem_singleton_self alternative) _) (by simp)
      (by rw [hchanged.size]; exact hfit)

/-- A wildcard becomes the branch, and a new node takes over from it. -/
theorem seek_wildcard (hnode : arena.node? id = some { kind := .branch .any, next := some next })
    (hfit : arena.nodes.size < 2 ^ 32) (hslot : slot ≠ .any) :
    ∃ made, (∀ rounds, arena.seek slot (rounds + 2) id = pure (id, made)) ∧
      Grows arena [id] [arena.fresh] made ∧
      made.node? id = some { kind := .branch slot, alternative := some arena.fresh } ∧
      made.node? arena.fresh = some { kind := .branch .any, next := some next } := by
  have hne := ne_fresh_of_node? hfit hnode
  let linked := (arena.add (.branch slot)).set id
    { kind := .branch .any, next := some next, alternative := some arena.fresh }
  have hlinked : Grows arena [id] [arena.fresh] linked := .linked (by simp) (.branch slot) _
  have hsize : linked.nodes.size ≤ 2 ^ 32 := by
    rw [hlinked.size, List.length_singleton]
    exact hfit
  have hfollow : arena.follow .alternative (.branch slot) id = pure (arena.fresh, linked) :=
    follow_of_none .alternative hnode rfl _
  obtain ⟨hself, hnew⟩ := node?_linked hnode hfit (.branch slot)
    { kind := .branch .any, next := some next, alternative := some arena.fresh }
  obtain ⟨made, hdemote, hgrows, hmade, hwildcard⟩ := demote_eq hself hnew hne hsize
  refine ⟨made, fun rounds => ?_, hlinked.trans hgrows (by simp) hsize, hmade, hwildcard⟩
  rw [seek_otherwise hnode (by simpa using hslot.symm) hfollow, if_pos rfl, hdemote, pure_bind,
    seek_here hmade rfl]

/-! ## Claiming a branch -/

/-- The branch for the slot is there, and nothing changes. -/
def Finds (arena : OverloadArena) (slot : TypeSlot) (id : NodeId) (tree behind : OverloadTree)
    (nodes : List NodeId) : Prop :=
  ∃ branch node next outer inner,
    (∀ rounds, nodes.length < rounds → arena.seek slot rounds id = pure (branch, arena)) ∧
    arena.node? branch = some node ∧ node.next = some next ∧
    Draws arena (some next) behind inner ∧ (outer ++ inner).Perm nodes ∧
    Surrounds arena outer id next (tree.withChild slot)

theorem lt_of_pass (hrounds : (id :: (cell ++ below)).length < rounds + 1) :
    below.length < rounds := by
  rw [List.length_cons, List.length_append] at hrounds
  omega

theorem Finds.pass {alternative : NodeId}
    (hfinds : Finds arena slot alternative rest behind below)
    (hnode : arena.node? id = some node) (hcell : Cell arena node wrap cell)
    (hkind : node.kind ≠ .branch slot) (hany : node.kind ≠ .branch .any)
    (hlink : node.alternative = some alternative) :
    Finds arena slot id (wrap rest) behind (id :: (cell ++ below)) := by
  obtain ⟨branch, found, next, outer, inner, hseek, hbranch, hnext, hbehind, hperm, hsurrounds⟩ :=
    hfinds
  refine ⟨branch, found, next, id :: (cell ++ outer), inner, fun rounds hrounds => ?_, hbranch,
    hnext, hbehind, ?_, hsurrounds.pass hnode hcell hkind hany hlink⟩
  · obtain ⟨rounds, rfl⟩ := Nat.exists_eq_add_one.2 (Nat.zero_lt_of_lt hrounds)
    rw [seek_pass hnode hkind hany hlink, hseek rounds (lt_of_pass hrounds)]
  · simpa using hperm.append_left cell

/-- What is not empty is drawn from a node on. -/
theorem Draws.exists_link (hdraws : Draws arena link tree nodes) (hne : tree ≠ .empty) :
    ∃ id, link = some id := by
  cases hdraws with
  | empty => exact absurd rfl hne
  | leaf => exact ⟨_, rfl⟩
  | branch => exact ⟨_, rfl⟩

/-- A branch that is there is found. -/
theorem Draws.finds (hdraws : Draws arena link tree nodes) (hlink : link = some id)
    (hwf : tree.WellFormed) (hchild : tree.child? slot = some behind) :
    Finds arena slot id tree behind nodes := by
  induction hdraws generalizing id with
  | empty => cases hlink
  | @leaf own alternative function alternatives below hnode hbelow ih =>
    obtain rfl := Option.some.inj hlink
    obtain ⟨alternative, rfl⟩ := hbelow.exists_link fun hempty => by simp [hempty] at hchild
    exact (ih rfl hwf.2 hchild).pass hnode .leaf (by simp) (by simp) rfl
  | @branch own next alternative other inside alternatives inner below hnode hnext hbelow _ ih =>
    obtain rfl := Option.some.inj hlink
    obtain ⟨-, -, -, halternatives, -, hlast⟩ := hwf
    by_cases hother : other = slot
    · subst hother
      obtain rfl : inside = behind := by simpa [child?] using hchild
      refine ⟨own, _, next, own :: below, inner, fun rounds hrounds => ?_, hnode, rfl, hnext,
        ?_, ?_⟩
      · obtain ⟨rounds, rfl⟩ := Nat.exists_eq_add_one.2 (Nat.zero_lt_of_lt hrounds)
        exact seek_here hnode rfl
      · exact (List.perm_append_comm).cons own
      · intro later behind nodes hagree hbehind
        refine ⟨own :: (nodes ++ below), ?_, (List.perm_append_comm).cons own⟩
        rw [withChild, if_pos rfl]
        exact .branch ((hagree own (by simp)).trans hnode) hbehind
          (hbelow.congr fun id hmem => hagree id (by simp [hmem]))
    · have hfurther : alternatives.child? slot = some behind := by
        simpa [child?, hother] using hchild
      have hconcrete : other ≠ .any := fun hany => by simp [hlast hany] at hfurther
      obtain ⟨alternative, rfl⟩ := hbelow.exists_link fun hempty => by simp [hempty] at hfurther
      exact (ih rfl halternatives hfurther).pass hnode (.branch hnext) (by simpa using hother)
        (by simpa using hconcrete) rfl

/-- The branch for the slot comes new, together with one node. -/
def Makes (arena : OverloadArena) (slot : TypeSlot) (id : NodeId) (tree : OverloadTree)
    (nodes : List NodeId) : Prop :=
  ∃ branch made outer,
    (∀ rounds, nodes.length < rounds → arena.seek slot rounds id = pure (branch, made)) ∧
    Grows arena nodes [arena.fresh] made ∧ outer.Perm (nodes ++ [arena.fresh]) ∧
    Awaits made outer id branch (tree.withChild slot)

theorem two_le_of_length_lt (hrounds : (id :: below).length < rounds) : 2 ≤ rounds := by
  rw [List.length_cons] at hrounds
  omega

/-- A branch that is alone in its chain. -/
theorem awaits_alone (hnode : arena.node? id = some { kind := .branch slot }) :
    Awaits arena [id] id id (empty.withChild slot) where
  mem := List.mem_singleton_self id
  open_branch := ⟨_, hnode, rfl⟩
  plugged := by
    intro other node next behind inner hold hnew _ hdraws
    obtain rfl := Option.some.inj (hnode.symm.trans hold)
    refine ⟨id :: (inner ++ []), .branch hnew hdraws .empty, ?_⟩
    rw [List.append_nil]
    rfl

/-- A branch with the wildcard as its only alternative, which was in its place before. -/
theorem awaits_before_wildcard {wildcard : NodeId}
    (hnode : arena.node? id = some { kind := .branch slot, alternative := some wildcard })
    (hwildcard : arena.node? wildcard = some { kind := .branch .any, next := some next })
    (hnext : Draws arena (some next) behind inner) (hslot : slot ≠ .any) (hid : id ∉ inner)
    (hne : id ≠ wildcard) :
    Awaits arena (id :: (inner ++ [wildcard])) id id
      ((OverloadTree.branch .any behind .empty).withChild slot) where
  mem := by simp
  open_branch := ⟨_, hnode, rfl⟩
  plugged := by
    intro other node later new nodes hold hchanged hagree hdraws
    obtain rfl := Option.some.inj (hnode.symm.trans hold)
    -- What the wildcard leads to has not moved, only the wildcard has.
    have hmoved : Draws other (some wildcard) (.branch .any behind .empty)
        (wildcard :: (inner ++ [])) :=
      .branch ((hagree wildcard (by simp) hne.symm).trans hwildcard)
        (hnext.congr fun own hown => hagree own (by simp [hown]) fun heq => hid (heq ▸ hown))
        .empty
    refine ⟨id :: (nodes ++ wildcard :: (inner ++ [])), ?_, ?_⟩
    · rw [withChild, if_neg hslot.symm, if_pos rfl]
      exact .branch hchanged hdraws hmoved
    · refine List.perm_iff_count.2 fun own => ?_
      simp only [List.count_cons, List.count_append, List.append_nil, List.count_nil]
      omega

/-- A chain that makes way for a branch further down, or at its end. -/
theorem makes_pass (hnode : arena.node? id = some node) (hcell : Cell arena node wrap cell)
    (hkind : node.kind ≠ .branch slot) (hany : node.kind ≠ .branch .any)
    (hbelow : Draws arena node.alternative rest below)
    (hmakes : ∀ alternative, node.alternative = some alternative →
      Makes arena slot alternative rest below)
    (hnodup : (id :: (cell ++ below)).Nodup) (hfit : arena.nodes.size < 2 ^ 32) :
    Makes arena slot id (wrap rest) (id :: (cell ++ below)) := by
  have hdraws := hcell.draws hnode hbelow
  have hspare := nodup_append_fresh hdraws hnodup hfit
  obtain ⟨hid, htail⟩ := List.nodup_cons.1 hnodup
  -- At the end of the chain the new node is linked to this one; otherwise it comes further
  -- down, and this node stays as it is.
  cases hlink : node.alternative with
  | none =>
    rw [hlink] at hbelow
    cases hbelow
    obtain ⟨made, hseek, hgrows, hself, hnew⟩ := seek_end hnode hfit hkind hany hlink
    have hsame : Cell made { node with alternative := some arena.fresh } wrap cell :=
      (hcell.congr fun own hown => hgrows.kept own (hcell.mem_ids hown) fun hmem =>
        hid (List.mem_singleton.1 hmem ▸ by simp [hown])).relinked _
    refine ⟨arena.fresh, made, id :: (cell ++ [arena.fresh]), fun rounds hrounds => ?_,
      hgrows.mono (by simp), by simp, ?_⟩
    · obtain ⟨rounds, rfl⟩ := Nat.exists_eq_add_of_le' (two_le_of_length_lt hrounds)
      exact hseek rounds
    exact (awaits_alone hnew).pass hself hsame hkind hany rfl (by simpa using hspare)
  | some alternative =>
    obtain ⟨branch, made, outer, hseek, hgrows, hperm, hawaits⟩ := hmakes alternative hlink
    have hself : made.node? id = some node :=
      (hgrows.kept id (mem_ids_of_node? hnode) fun hmem => hid (by simp [hmem])).trans hnode
    have hsame : Cell made node wrap cell :=
      hcell.congr fun own hown => hgrows.kept own (hcell.mem_ids hown) fun hmem =>
        List.disjoint_of_nodup_append htail hown hmem
    have houter : (id :: (cell ++ outer)).Perm (id :: (cell ++ below) ++ [arena.fresh]) := by
      simpa using hperm.append_left cell
    refine ⟨branch, made, id :: (cell ++ outer), fun rounds hrounds => ?_,
      hgrows.mono fun own hmem => by simp [hmem], houter,
      hawaits.pass hself hsame hkind hany hlink (houter.nodup_iff.2 hspare)⟩
    obtain ⟨rounds, rfl⟩ := Nat.exists_eq_add_one.2 (Nat.zero_lt_of_lt hrounds)
    rw [seek_pass hnode hkind hany hlink, hseek rounds (lt_of_pass hrounds)]

/-- A wildcard makes way for a branch. -/
theorem makes_wildcard
    (hnode : arena.node? id = some { kind := .branch .any, next := some next })
    (hnext : Draws arena (some next) behind inner) (hslot : slot ≠ .any)
    (hnodup : (id :: inner).Nodup) (hfit : arena.nodes.size < 2 ^ 32) :
    Makes arena slot id (.branch .any behind .empty) (id :: inner) := by
  obtain ⟨hid, -⟩ := List.nodup_cons.1 hnodup
  obtain ⟨made, hseek, hgrows, hself, hwildcard⟩ := seek_wildcard hnode hfit hslot
  have hbehind : Draws made (some next) behind inner :=
    hnext.grow hgrows fun own hown hmem => hid (List.mem_singleton.1 hmem ▸ hown)
  refine ⟨id, made, id :: (inner ++ [arena.fresh]), fun rounds hrounds => ?_,
    hgrows.mono (by simp), by simp,
    awaits_before_wildcard hself hwildcard hbehind hslot hid (ne_fresh_of_node? hfit hnode)⟩
  obtain ⟨rounds, rfl⟩ := Nat.exists_eq_add_of_le' (two_le_of_length_lt hrounds)
  exact hseek rounds

/-- A branch that is not there is made. -/
theorem Draws.makes (hdraws : Draws arena link tree nodes) (hlink : link = some id)
    (hwf : tree.WellFormed) (hchild : tree.child? slot = none) (hnodup : nodes.Nodup)
    (hfit : arena.nodes.size < 2 ^ 32) : Makes arena slot id tree nodes := by
  induction hdraws generalizing id with
  | empty => cases hlink
  | @leaf own alternative function alternatives below hnode hbelow ih =>
    obtain rfl := Option.some.inj hlink
    exact makes_pass hnode .leaf (by simp) (by simp) hbelow
      (fun alternative hlink => ih hlink hwf.2 hchild (List.nodup_cons.1 hnodup).2) hnodup hfit
  | @branch own next alternative other inside alternatives inner below hnode hnext hbelow _ ih =>
    obtain rfl := Option.some.inj hlink
    obtain ⟨-, -, -, halternatives, -, hlast⟩ := hwf
    have hother : other ≠ slot := fun heq => by simp [child?, heq] at hchild
    have hfurther : alternatives.child? slot = none := by simpa [child?, hother] using hchild
    by_cases hany : other = .any
    · -- The wildcard is the last of its chain, so there is nothing to go on to.
      subst hany
      obtain rfl := hlast rfl
      cases hbelow
      rw [List.append_nil] at hnodup ⊢
      exact makes_wildcard hnode hnext hother.symm hnodup hfit
    · exact makes_pass hnode (.branch hnext) (by simpa using hother) (by simpa using hany) hbelow
        (fun alternative hlink => ih hlink halternatives hfurther
          (List.nodup_cons.1 hnodup).2.of_append_right) hnodup hfit

theorem Draws.claim_eq_seek (hdraws : Draws arena (some id) tree nodes) (slot : TypeSlot)
    (rounds : Nat) : arena.claim slot rounds id = arena.seek slot rounds id := by
  cases hdraws with
  | leaf hnode => rw [claim, node_of_node? hnode, pure_bind, if_neg (by simp)]
  | branch hnode => rw [claim, node_of_node? hnode, pure_bind, if_neg (by simp)]

/-- In a chain without anything the branch is made in the node that is there. -/
theorem Heads.claim_new (hheads : Heads arena id tree nodes) (hwf : tree.WellFormed)
    (hchild : tree.child? slot = none) (hnodup : nodes.Nodup) (hfit : arena.nodes.size < 2 ^ 32) :
    ∃ branch made outer added,
      (∀ rounds, nodes.length < rounds → arena.claim slot rounds id = pure (branch, made)) ∧
      Grows arena nodes added made ∧ outer.Perm (nodes ++ added) ∧
      added.length + 1 = tree.lacks slot ∧ Awaits made outer id branch (tree.withChild slot) := by
  cases hheads with
  | blank hnode =>
    refine ⟨id, arena.set id { kind := .branch slot }, [id], [], fun rounds _ => ?_,
      .set (by simp) _, .rfl, rfl, awaits_alone (node?_set_self hnode)⟩
    rw [claim, node_of_node? hnode, pure_bind, if_pos rfl, update_of_node? hnode, pure_bind]
  | chain hdraws =>
    have hlacks : tree.lacks slot = 2 := by
      rw [lacks, hchild]
      cases hdraws <;> rfl
    obtain ⟨branch, made, outer, hseek, hgrows, hperm, hawaits⟩ :=
      hdraws.makes rfl hwf hchild hnodup hfit
    exact ⟨branch, made, outer, [arena.fresh],
      fun rounds hrounds => (hdraws.claim_eq_seek slot rounds).trans (hseek rounds hrounds),
      hgrows, hperm, hlacks.symm, hawaits⟩

end StackLang.OverloadArena
