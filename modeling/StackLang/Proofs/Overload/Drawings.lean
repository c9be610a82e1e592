import Mathlib
import StackLang.OverloadArena
import StackLang.Proofs.Overload.Bindings

/-!
# Trees drawn in an arena

An arena draws a tree if its links lead through the leaves and branches of the tree, each of
which takes up a node of its own.  This module says so chain by chain, together with the
list of the nodes that are taken up: an arena that agrees on these nodes draws the same
tree.  Whatever is read off an arena, by selection or for a listing, is found in no more
rounds than there are nodes to go through and one, and it is what the tree says.
-/

namespace StackLang.OverloadArena

variable {arena other : OverloadArena} {id : NodeId} {link : Option NodeId}
  {tree behind : OverloadTree} {nodes inner : List NodeId} {rounds : Nat}

theorem nodup_ids (hfit : arena.nodes.size ≤ 2 ^ 32) : arena.ids.Nodup := by
  refine List.Nodup.map_on (fun left hleft right hright heq => ?_) List.nodup_range
  rw [← NodeId.index_ofIndex ((List.mem_range.1 hleft).trans_le hfit), heq,
    NodeId.index_ofIndex ((List.mem_range.1 hright).trans_le hfit)]

/-- A link leads to the chain of a tree, which takes up the nodes listed. -/
inductive Draws (arena : OverloadArena) :
    Option NodeId → OverloadTree → List NodeId → Prop where
  | empty : Draws arena none .empty []
  | leaf {id : NodeId} {alternative : Option NodeId} {function : Token}
      {alternatives : OverloadTree} {below : List NodeId}
      (hnode : arena.node? id = some { kind := .leaf, alternative, function })
      (hbelow : Draws arena alternative alternatives below) :
      Draws arena (some id) (.leaf function alternatives) (id :: below)
  | branch {id next : NodeId} {alternative : Option NodeId} {slot : TypeSlot}
      {behind alternatives : OverloadTree} {inner below : List NodeId}
      (hnode : arena.node? id = some { kind := .branch slot, next := some next, alternative })
      (hnext : Draws arena (some next) behind inner)
      (hbelow : Draws arena alternative alternatives below) :
      Draws arena (some id) (.branch slot behind alternatives) (id :: (inner ++ below))

/-- A node is the head of the chain of a tree; a chain without anything is a blank node. -/
inductive Heads (arena : OverloadArena) : NodeId → OverloadTree → List NodeId → Prop where
  | blank {id : NodeId} (hnode : arena.node? id = some {}) : Heads arena id .empty [id]
  | chain {id : NodeId} {tree : OverloadTree} {nodes : List NodeId}
      (hdraws : Draws arena (some id) tree nodes) : Heads arena id tree nodes

namespace Draws

/-- Only the nodes that are taken up matter. -/
theorem congr (hdraws : Draws arena link tree nodes)
    (hagree : ∀ id ∈ nodes, other.node? id = arena.node? id) : Draws other link tree nodes := by
  induction hdraws with
  | empty => exact .empty
  | leaf hnode _ ih =>
    exact .leaf ((hagree _ (by simp)).trans hnode) (ih fun id hmem => hagree id (by simp [hmem]))
  | branch hnode _ _ ihNext ihBelow =>
    exact .branch ((hagree _ (by simp)).trans hnode)
      (ihNext fun id hmem => hagree id (by simp [hmem]))
      (ihBelow fun id hmem => hagree id (by simp [hmem]))

theorem exists_node (hdraws : Draws arena link tree nodes) (hmem : id ∈ nodes) :
    ∃ node, arena.node? id = some node := by
  induction hdraws with
  | empty => cases hmem
  | leaf hnode _ ih =>
    obtain rfl | hbelow := List.mem_cons.1 hmem
    · exact ⟨_, hnode⟩
    · exact ih hbelow
  | branch hnode _ _ ihNext ihBelow =>
    obtain rfl | hrest := List.mem_cons.1 hmem
    · exact ⟨_, hnode⟩
    · exact (List.mem_append.1 hrest).elim ihNext ihBelow

theorem mem_ids (hdraws : Draws arena link tree nodes) (hmem : id ∈ nodes) : id ∈ arena.ids := by
  obtain ⟨node, hnode⟩ := hdraws.exists_node hmem
  exact mem_ids_of_node? hnode

/-! ### Selection -/

theorem firstFit_eq_none (hdraws : Draws arena link tree nodes) {tag : TypeTag}
    (hfollow : tree.follow? tag = none) (hrounds : nodes.length < rounds) :
    arena.firstFit tag rounds link = pure none := by
  induction hdraws generalizing rounds with
  | empty =>
    obtain ⟨rounds, rfl⟩ := Nat.exists_eq_add_one.2 hrounds
    rw [firstFit]
  | leaf hnode _ ih =>
    obtain ⟨rounds, rfl⟩ := Nat.exists_eq_add_one.2 (Nat.zero_lt_of_lt hrounds)
    rw [firstFit, node_of_node? hnode, pure_bind, if_neg (by simp [NodeKind.accepts])]
    exact ih hfollow (by simpa using hrounds)
  | @branch id next alternative slot behind alternatives inner below hnode _ _ _ ih =>
    obtain ⟨rounds, rfl⟩ := Nat.exists_eq_add_one.2 (Nat.zero_lt_of_lt hrounds)
    have hslot : ¬ slot.accepts tag := fun haccepts => by
      simp [OverloadTree.follow?, haccepts] at hfollow
    rw [firstFit, node_of_node? hnode, pure_bind,
      if_neg (show ¬ NodeKind.accepts (.branch slot) tag from hslot)]
    refine ih (by simpa [OverloadTree.follow?, hslot] using hfollow) ?_
    simp only [List.length_cons, List.length_append] at hrounds
    omega

theorem firstFit_eq_some (hdraws : Draws arena link tree nodes) {tag : TypeTag}
    (hfollow : tree.follow? tag = some behind) (hrounds : nodes.length < rounds) :
    ∃ found node next inner, arena.firstFit tag rounds link = pure (some found) ∧
      arena.node? found = some node ∧ node.next = some next ∧
      Draws arena (some next) behind inner ∧ inner.length < nodes.length := by
  induction hdraws generalizing rounds with
  | empty => cases hfollow
  | leaf hnode _ ih =>
    obtain ⟨rounds, rfl⟩ := Nat.exists_eq_add_one.2 (Nat.zero_lt_of_lt hrounds)
    rw [firstFit, node_of_node? hnode, pure_bind, if_neg (by simp [NodeKind.accepts])]
    obtain ⟨found, node, next, inner, hfit, hfound, hnext, hdraws, hlength⟩ :=
      ih hfollow (by simpa using hrounds)
    exact ⟨found, node, next, inner, hfit, hfound, hnext, hdraws, Nat.lt_succ_of_lt hlength⟩
  | @branch id next alternative slot inside alternatives inner below hnode hnext _ _ ih =>
    obtain ⟨rounds, rfl⟩ := Nat.exists_eq_add_one.2 (Nat.zero_lt_of_lt hrounds)
    simp only [List.length_cons, List.length_append] at hrounds ⊢
    rw [firstFit, node_of_node? hnode, pure_bind]
    by_cases hslot : slot.accepts tag
    · obtain rfl : inside = behind := by simpa [OverloadTree.follow?, hslot] using hfollow
      exact ⟨id, _, next, inner, if_pos hslot, hnode, rfl, hnext, by omega⟩
    · rw [if_neg (show ¬ NodeKind.accepts (.branch slot) tag from hslot)]
      obtain ⟨found, node, next, inner, hfit, hfound, hnext, hdraws, hlength⟩ :=
        ih (by simpa [OverloadTree.follow?, hslot] using hfollow) (show _ < rounds by omega)
      exact ⟨found, node, next, inner, hfit, hfound, hnext, hdraws, by omega⟩

/-! ### Listings -/

theorem rowsFrom_eq (hdraws : Draws arena link tree nodes) (expand : DictId → String)
    (path : Signature) (hrounds : nodes.length < rounds) :
    arena.rowsFrom expand rounds path link = pure (tree.rowsFrom expand path) := by
  induction hdraws generalizing path rounds with
  | empty =>
    obtain ⟨rounds, rfl⟩ := Nat.exists_eq_add_one.2 hrounds
    rw [rowsFrom, OverloadTree.rowsFrom]
  | leaf hnode _ ih =>
    obtain ⟨rounds, rfl⟩ := Nat.exists_eq_add_one.2 (Nat.zero_lt_of_lt hrounds)
    rw [rowsFrom, node_of_node? hnode, pure_bind]
    simp only [ih path (Nat.lt_of_succ_lt_succ hrounds), pure_bind, OverloadTree.rowsFrom]
  | branch hnode _ _ ihNext ihBelow =>
    obtain ⟨rounds, rfl⟩ := Nat.exists_eq_add_one.2 (Nat.zero_lt_of_lt hrounds)
    simp only [List.length_cons, List.length_append] at hrounds
    rw [rowsFrom, node_of_node? hnode, pure_bind]
    simp only [ihNext _ (show _ < rounds by omega), ihBelow path (show _ < rounds by omega),
      pure_bind, OverloadTree.rowsFrom]

theorem itemsFrom_eq (hdraws : Draws arena link tree nodes) (hrounds : nodes.length < rounds) :
    arena.itemsFrom rounds link = pure tree.toItems := by
  induction hdraws generalizing rounds with
  | empty =>
    obtain ⟨rounds, rfl⟩ := Nat.exists_eq_add_one.2 hrounds
    rw [itemsFrom, OverloadTree.toItems]
  | leaf hnode _ ih =>
    obtain ⟨rounds, rfl⟩ := Nat.exists_eq_add_one.2 (Nat.zero_lt_of_lt hrounds)
    rw [itemsFrom, node_of_node? hnode, pure_bind]
    simp only [ih (Nat.lt_of_succ_lt_succ hrounds), pure_bind, OverloadTree.toItems,
      List.singleton_append]
  | branch hnode _ _ ihNext ihBelow =>
    obtain ⟨rounds, rfl⟩ := Nat.exists_eq_add_one.2 (Nat.zero_lt_of_lt hrounds)
    simp only [List.length_cons, List.length_append] at hrounds
    rw [itemsFrom, node_of_node? hnode, pure_bind]
    simp only [ihNext (show _ < rounds by omega), ihBelow (show _ < rounds by omega), pure_bind,
      OverloadTree.toItems, List.singleton_append]

end Draws

namespace Heads

theorem mem_ids (hheads : Heads arena id tree nodes) {own : NodeId} (hmem : own ∈ nodes) :
    own ∈ arena.ids := by
  cases hheads with
  | blank hnode => exact List.mem_singleton.1 hmem ▸ mem_ids_of_node? hnode
  | chain hdraws => exact hdraws.mem_ids hmem

/-- The head of a chain is a leaf exactly if a signature ends there. -/
theorem exists_head (hheads : Heads arena id tree nodes) :
    ∃ head, arena.node? id = some head ∧ ∀ fallback,
      (if head.kind = .leaf then some head.function else fallback) = tree.head?.or fallback := by
  cases hheads with
  | blank hnode => exact ⟨_, hnode, fun _ => rfl⟩
  | chain hdraws =>
    cases hdraws with
    | leaf hnode _ => exact ⟨_, hnode, fun _ => rfl⟩
    | branch hnode _ _ => exact ⟨_, hnode, fun _ => rfl⟩

theorem length_pos (hheads : Heads arena id tree nodes) : 0 < nodes.length := by
  cases hheads with
  | blank => exact Nat.one_pos
  | chain hdraws => cases hdraws <;> exact Nat.succ_pos _

theorem nextFor_eq_none (hheads : Heads arena id tree nodes) {operand : Option TypeTag}
    (hfollow : (operand.bind fun tag => tree.follow? tag) = none)
    (hrounds : nodes.length < rounds) : arena.nextFor operand rounds id = pure none := by
  cases operand with
  | none => rfl
  | some tag =>
    have hfit : arena.firstFit tag rounds (some id) = pure none := by
      cases hheads with
      | blank hnode =>
        obtain ⟨rounds, rfl⟩ := Nat.exists_eq_add_of_lt hrounds
        rw [List.length_singleton, firstFit, node_of_node? hnode, pure_bind,
          if_neg (by simp [NodeKind.accepts]), Nat.one_add, firstFit]
      | chain hdraws => exact hdraws.firstFit_eq_none hfollow hrounds
    rw [nextFor, hfit, pure_bind]

theorem nextFor_eq_some (hheads : Heads arena id tree nodes) {operand : Option TypeTag}
    (hfollow : (operand.bind fun tag => tree.follow? tag) = some behind)
    (hrounds : nodes.length < rounds) :
    ∃ next inner, arena.nextFor operand rounds id = pure (some next) ∧
      Draws arena (some next) behind inner ∧ inner.length < nodes.length := by
  cases operand with
  | none => cases hfollow
  | some tag =>
    cases hheads with
    | blank => cases hfollow
    | chain hdraws =>
      obtain ⟨found, node, next, inner, hfit, hnode, hlink, hnext, hlength⟩ :=
        hdraws.firstFit_eq_some hfollow hrounds
      refine ⟨next, inner, ?_, hnext, hlength⟩
      rw [nextFor, hfit, pure_bind]
      simp only [node_of_node? hnode, pure_bind, hlink]

/-- Selection ends, with what the tree selects. -/
theorem selectFrom_eq (hheads : Heads arena id tree nodes) {stack : TokenStack} {level : Nat}
    {operands : List Token} (hoperands : stack.items.drop level = operands)
    (hlevel : level ≤ stack.load) (fallback : Option Token) (hrounds : nodes.length < rounds) :
    arena.selectFrom stack rounds level fallback id =
      pure (tree.selectFrom level fallback (operands.map Token.tag?)) := by
  obtain ⟨rounds, rfl⟩ := Nat.exists_eq_add_one.2 (Nat.zero_lt_of_lt hrounds)
  induction operands generalizing id tree nodes level fallback rounds with
  | nil =>
    obtain ⟨head, hnode, hbest⟩ := hheads.exists_head
    have hload : level = stack.load := by
      have hlength := List.drop_eq_nil_iff.1 hoperands
      rw [← stack.load_eq] at hlength
      omega
    rw [selectFrom, node_of_node? hnode, pure_bind, hbest, if_pos hload.ge, ← hload]
    simp only [List.map_nil, OverloadTree.selectFrom]
    cases tree.head?.or fallback <;> rfl
  | cons operand below ih =>
    obtain ⟨head, hnode, hbest⟩ := hheads.exists_head
    have hlt : level < stack.load := by
      rw [stack.load_eq]
      refine not_le.1 fun hover => ?_
      rw [List.drop_eq_nil_of_le hover] at hoperands
      cases hoperands
    have hpick : stack.pick level = .ok operand := by
      have hfirst : stack.items[level]? = some operand := by
        rw [← List.head?_drop, hoperands, List.head?_cons]
      rw [TokenStack.pick, hfirst]
    have hbelow : stack.items.drop (level + 1) = below := by
      rw [← List.tail_drop, hoperands, List.tail_cons]
    rw [selectFrom, node_of_node? hnode, pure_bind, hbest, if_neg (not_le.2 hlt), hpick]
    simp only [List.map_cons, OverloadTree.selectFrom]
    cases hfollow : operand.tag?.bind fun tag => tree.follow? tag with
    | none =>
      rw [hheads.nextFor_eq_none hfollow hrounds, pure_bind]
      cases tree.head?.or fallback <;> rfl
    | some behind =>
      obtain ⟨next, inner, hnext, hdraws, hlength⟩ := hheads.nextFor_eq_some hfollow hrounds
      have hpos := (Heads.chain hdraws).length_pos
      obtain ⟨rounds, rfl⟩ := Nat.exists_eq_add_one.2 (show 0 < rounds by omega)
      rw [hnext, pure_bind]
      exact ih (.chain hdraws) hbelow hlt (tree.head?.or fallback) rounds (by omega)

end Heads

/-! ## From the root -/

theorem Heads.select_eq (hheads : Heads arena .root tree nodes) (stack : TokenStack)
    (hrounds : nodes.length < rounds) :
    arena.select rounds stack = pure (tree.select stack.operandTypes) :=
  hheads.selectFrom_eq rfl (Nat.zero_le _) none hrounds

theorem Heads.isEmpty_eq (hheads : Heads arena .root tree nodes) :
    arena.isEmpty = pure tree.isEmpty := by
  cases hheads with
  | blank hnode => rw [isEmpty, node_of_node? hnode, pure_bind]; rfl
  | chain hdraws =>
    cases hdraws with
    | leaf hnode _ => rw [isEmpty, node_of_node? hnode, pure_bind]; rfl
    | branch hnode _ _ => rw [isEmpty, node_of_node? hnode, pure_bind]; rfl

theorem Heads.info_eq (hheads : Heads arena .root tree nodes) (expand : DictId → String)
    (hrounds : nodes.length < rounds) : arena.info rounds expand = pure (tree.info expand) := by
  rw [info, hheads.isEmpty_eq, pure_bind]
  cases hheads with
  | blank => rfl
  | chain hdraws =>
    have hrows := hdraws.rowsFrom_eq expand [] hrounds
    cases hdraws <;> exact hrows

theorem Heads.toArray_eq (hheads : Heads arena .root tree nodes)
    (hrounds : nodes.length < rounds) : arena.toArray rounds = pure tree.toArray := by
  rw [toArray, hheads.isEmpty_eq, pure_bind]
  cases hheads with
  | blank => rfl
  | chain hdraws =>
    have hitems := hdraws.itemsFrom_eq hrounds
    cases hdraws <;> exact congrArg (Functor.map Token.array) hitems

end StackLang.OverloadArena
