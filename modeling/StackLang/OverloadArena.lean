import StackLang.OverloadTree
import StackLang.Stack

/-!
# Overload trees in an arena

The nodes of an overload tree lie in one array, in the order in which they were made, and
know each other by number.  One link of a node leads to the next alternative of its chain,
the other one to the chain for the operand below.  The first node is the root: it heads the
chain for the top operand.

A new overload goes down from the root and makes the nodes that it misses.  A wildcard that
it meets on the way becomes the branch that it wants, and a new node at the end of the chain
takes over what was behind the wildcard.

Links are numbers, so nothing but the order in which nodes are made keeps them from leading
nowhere, which is a fault, or round in circles, where following them does not come to an end.
Whatever follows links is therefore given a number of rounds, after which it has to be done.
-/

namespace StackLang

/-- Number of a node; numbers have 32 bits. -/
structure NodeId where
  number : UInt32
  deriving DecidableEq, Repr, Inhabited

namespace NodeId

/-- The node that heads the chain for the top operand. -/
def root : NodeId := ⟨0⟩

/-- The number of the node at a position, as far as 32 bits hold it. -/
def ofIndex (index : Nat) : NodeId := ⟨UInt32.ofNat index⟩

/-- The position of the node with this number. -/
def index (id : NodeId) : Nat := id.number.toNat

@[simp]
theorem ofIndex_index (id : NodeId) : ofIndex id.index = id := by
  simp [ofIndex, index]

theorem index_ofIndex {index : Nat} (hfit : index < UInt32.size) :
    (ofIndex index).index = index :=
  UInt32.toNat_ofNat_of_lt' hfit

theorem index_injective : Function.Injective index := fun left right heq => by
  rw [← ofIndex_index left, heq, ofIndex_index]

end NodeId

/-- What following links comes to: a value or a fault, or `none` if it is not done after the
rounds that it is given. -/
abbrev Attempt (α : Type) := ExceptT Fault Option α

/-- There are no rounds left. -/
def unfinished {α : Type} : Attempt α := ExceptT.mk none

/-- What a node stands for. -/
inductive NodeKind where
  /-- The head of a chain in which nothing is bound yet. -/
  | blank
  | branch (slot : TypeSlot)
  | leaf
  deriving DecidableEq, Repr, Inhabited

/-- Whether an operand of type `tag` goes on behind the node. -/
def NodeKind.accepts : NodeKind → TypeTag → Bool
  | branch slot, tag => slot.accepts tag
  | _, _ => false

/-- The two ways on from a node. -/
inductive Link where
  /-- To the chain for the operand below. -/
  | next
  /-- To the next alternative of the chain. -/
  | alternative
  deriving DecidableEq, Repr

/-- A node of an overload tree; the function is that of a leaf. -/
structure OverloadNode where
  kind : NodeKind := .blank
  next : Option NodeId := none
  alternative : Option NodeId := none
  function : Token := .void
  deriving Inhabited

namespace OverloadNode

/-- Where a link of the node leads. -/
def target (node : OverloadNode) : Link → Option NodeId
  | .next => node.next
  | .alternative => node.alternative

/-- The node with a link to another one. -/
def linkedTo (id : NodeId) (node : OverloadNode) : Link → OverloadNode
  | .next => { node with next := some id }
  | .alternative => { node with alternative := some id }

end OverloadNode

/-- The nodes of an overload tree, in the order in which they were made. -/
structure OverloadArena where
  nodes : Array OverloadNode := #[{}]

namespace OverloadArena

/-! ## Nodes -/

def node? (id : NodeId) (arena : OverloadArena) : Option OverloadNode :=
  arena.nodes[id.index]?

/-- The node with a number; it is a fault if there is none. -/
def node (id : NodeId) (arena : OverloadArena) : Attempt OverloadNode :=
  match arena.node? id with
  | some node => return node
  | none => throw (.outOfBounds arena.nodes.size id.index)

/-- Puts a node in the place of another one. -/
def set (id : NodeId) (node : OverloadNode) (arena : OverloadArena) : OverloadArena where
  nodes := arena.nodes.setIfInBounds id.index node

/-- Changes a node. -/
def update (id : NodeId) (change : OverloadNode → OverloadNode) (arena : OverloadArena) :
    Attempt OverloadArena := do
  return arena.set id (change (← arena.node id))

/-- The number that a new node gets. -/
def fresh (arena : OverloadArena) : NodeId :=
  .ofIndex arena.nodes.size

/-- Makes a node that nothing leads to and that leads nowhere. -/
def add (kind : NodeKind) (arena : OverloadArena) : OverloadArena where
  nodes := arena.nodes.push { kind }

/-- The numbers of the nodes, in the order in which they were made. -/
def ids (arena : OverloadArena) : List NodeId :=
  (List.range arena.nodes.size).map .ofIndex

section Laws

variable {arena : OverloadArena} {id other : NodeId} {node old : OverloadNode}

theorem node_of_node? (hnode : arena.node? id = some node) : arena.node id = pure node := by
  rw [OverloadArena.node, hnode]

theorem update_of_node? (hnode : arena.node? id = some node)
    (change : OverloadNode → OverloadNode) :
    arena.update id change = pure (arena.set id (change node)) := by
  rw [update, node_of_node? hnode, pure_bind]

theorem index_lt_of_node? (hnode : arena.node? id = some node) : id.index < arena.nodes.size :=
  (Array.getElem?_eq_some_iff.1 hnode).1

theorem node?_set_self (hnode : arena.node? id = some old) :
    (arena.set id node).node? id = some node :=
  Array.getElem?_setIfInBounds_self_of_lt (index_lt_of_node? hnode)

theorem node?_set_ne (hne : other ≠ id) : (arena.set id node).node? other = arena.node? other :=
  Array.getElem?_setIfInBounds_ne fun heq => hne (NodeId.index_injective heq.symm)

theorem node?_add_of_some (hnode : arena.node? id = some node) (kind : NodeKind) :
    (arena.add kind).node? id = some node := by
  have hlt := index_lt_of_node? hnode
  rwa [node?, add, Array.getElem?_push_lt hlt, ← Array.getElem?_eq_getElem hlt]

theorem node?_add_fresh (hfit : arena.nodes.size < UInt32.size) (kind : NodeKind) :
    (arena.add kind).node? arena.fresh = some { kind } := by
  rw [node?, add, fresh, NodeId.index_ofIndex hfit, Array.getElem?_push_size]

@[simp]
theorem ids_set : (arena.set id node).ids = arena.ids := by
  simp [ids, set]

@[simp]
theorem ids_add (kind : NodeKind) : (arena.add kind).ids = arena.ids ++ [arena.fresh] := by
  simp [ids, add, fresh, List.range_succ]

theorem length_ids : arena.ids.length = arena.nodes.size := by
  simp [ids]

theorem mem_ids_of_node? (hnode : arena.node? id = some node) : id ∈ arena.ids :=
  List.mem_map.2 ⟨id.index, List.mem_range.2 (index_lt_of_node? hnode), id.ofIndex_index⟩

theorem exists_node (hmem : id ∈ arena.ids) : ∃ node, arena.node? id = some node := by
  obtain ⟨index, hindex, rfl⟩ := List.mem_map.1 hmem
  have hle : (NodeId.ofIndex index).index ≤ index := by
    simpa [NodeId.ofIndex, NodeId.index] using Nat.mod_le index _
  exact ⟨_, Array.getElem?_eq_getElem (Nat.lt_of_le_of_lt hle (List.mem_range.1 hindex))⟩

end Laws

/-! ## Binding -/

/-- The node that a link leads to.  A link that leads nowhere is made to lead to a new
node. -/
def follow (link : Link) (kind : NodeKind) (id : NodeId) (arena : OverloadArena) :
    Attempt (NodeId × OverloadArena) := do
  match (← arena.node id).target link with
  | some target => return (target, arena)
  | none =>
    let linked ← (arena.add kind).update id fun node => node.linkedTo arena.fresh link
    return (arena.fresh, linked)

/-- Makes a wildcard the branch for a slot.  Its alternative, which was made to be that
branch, becomes the wildcard and gets what was behind it. -/
def demote (slot : TypeSlot) (wildcard alternative : NodeId) (arena : OverloadArena) :
    Attempt OverloadArena := do
  if (← arena.node alternative).kind ≠ .branch slot then throw .wildcardNotLast
  else
    let ⟨_, next, _, function⟩ ← arena.node wildcard
    let arena ← arena.update wildcard fun node =>
      { node with kind := .branch slot, next := none, function := .void }
    arena.update alternative fun node => { node with kind := .branch .any, next, function }

/-- Goes down a chain to the branch for a slot; the end of the chain and a wildcard make
way for it. -/
def seek (slot : TypeSlot) : Nat → NodeId → OverloadArena → Attempt (NodeId × OverloadArena)
  | 0, _, _ => unfinished
  | rounds + 1, id, arena => do
    let kind := (← arena.node id).kind
    if kind = .branch slot then return (id, arena)
    else
      let (alternative, arena) ← arena.follow .alternative (.branch slot) id
      if kind = .branch .any then
        let arena ← arena.demote slot id alternative
        arena.seek slot rounds id
      else arena.seek slot rounds alternative

/-- The branch for a slot in a chain, which is there afterwards if it was not before. -/
def claim (slot : TypeSlot) (rounds : Nat) (id : NodeId) (arena : OverloadArena) :
    Attempt (NodeId × OverloadArena) := do
  if (← arena.node id).kind = .blank then
    return (id, ← arena.update id fun node => { node with kind := .branch slot })
  else arena.seek slot rounds id

/-- The head of the chain that a signature leads to from another chain. -/
def descend (rounds : Nat) (id : NodeId) (arena : OverloadArena) :
    Signature → Attempt (NodeId × OverloadArena)
  | [] => return (id, arena)
  | slot :: rest => do
    let (branch, arena) ← arena.claim slot rounds id
    let (next, arena) ← arena.follow .next .blank branch
    arena.descend rounds next rest

/-- Binds a signature unless it is taken; tells whether it did, and reports a refusal.  An
overload without operands makes no sense. -/
def insert (rounds : Nat) (signature : Signature) (function : Token) (arena : OverloadArena) :
    Attempt (OverloadArena × Bool × List Event) := do
  if signature.isEmpty then throw .emptySignature
  else
    let (id, arena) ← arena.descend rounds .root signature
    match (← arena.node id).kind with
    | .blank =>
      return (← arena.update id fun node => { node with kind := .leaf, function }, true, [])
    | .leaf => return (arena, false, [Refusal.alreadyDefined.event signature])
    | .branch _ => return (arena, false, [Refusal.startsLonger.event signature])

/-! ## Selection -/

/-- The first node fit for `tag` in what is left of a chain. -/
def firstFit (tag : TypeTag) (arena : OverloadArena) :
    Nat → Option NodeId → Attempt (Option NodeId)
  | 0, _ => unfinished
  | _ + 1, none => return none
  | rounds + 1, some id => do
    let node ← arena.node id
    if node.kind.accepts tag then return some id
    else arena.firstFit tag rounds node.alternative

/-- The chain to go on with behind a chain.  A void operand has no type and fits nothing. -/
def nextFor (operand : Option TypeTag) (rounds : Nat) (id : NodeId) (arena : OverloadArena) :
    Attempt (Option NodeId) :=
  match operand with
  | none => return none
  | some tag => do
    match ← arena.firstFit tag rounds (some id) with
    | none => return none
    | some found => return (← arena.node found).next

/-- Selects from level `level` on, where `fallback` is the last leaf passed and the chain
for this level begins at a node. -/
def selectFrom (stack : TokenStack) (arena : OverloadArena) :
    Nat → Nat → Option Token → NodeId → Attempt (Except Error Token)
  | 0, _, _, _ => unfinished
  | rounds + 1, level, fallback, id => do
    let head ← arena.node id
    let best := if head.kind = .leaf then some head.function else fallback
    if stack.load ≤ level then
      return best.elim (.error (.stackUnderflow (level + 1) stack.load)) .ok
    else
      match stack.pick level with
      | .error error => return .error error
      | .ok operand =>
        match ← arena.nextFor operand.tag? (rounds + 1) id with
        | some next => arena.selectFrom stack rounds (level + 1) best next
        | none => return best.elim (.error (.argumentType level)) .ok

/-- The function for the operands on a stack. -/
def select (rounds : Nat) (stack : TokenStack) (arena : OverloadArena) :
    Attempt (Except Error Token) :=
  arena.selectFrom stack rounds 0 none .root

/-! ## Listings -/

/-- Whether nothing has been bound. -/
def isEmpty (arena : OverloadArena) : Attempt Bool := do
  return (← arena.node .root).kind = .blank

/-- The rows for what is left of a chain that `path` leads to, with its last position
first. -/
def rowsFrom (expand : DictId → String) (arena : OverloadArena) :
    Nat → Signature → Option NodeId → Attempt String
  | 0, _, _ => unfinished
  | _ + 1, _, none => return ""
  | rounds + 1, path, some id => do
    let node ← arena.node id
    let rows ← match node.kind with
      | .leaf => pure (OverloadTree.row expand path node.function)
      | .branch slot => arena.rowsFrom expand rounds (slot :: path) node.next
      | .blank => pure ""
    return rows ++ (← arena.rowsFrom expand rounds path node.alternative)

/-- The decision table, with one row for each overload. -/
def info (rounds : Nat) (expand : DictId → String) (arena : OverloadArena) : Attempt String := do
  if ← arena.isEmpty then return ""
  else arena.rowsFrom expand rounds [] (some .root)

/-- What is left of a chain as tokens: a leaf is its function, and a branch is the array of
its type's literal name and the array of the next chain. -/
def itemsFrom (arena : OverloadArena) : Nat → Option NodeId → Attempt (List Token)
  | 0, _ => unfinished
  | _ + 1, none => return []
  | rounds + 1, some id => do
    let node ← arena.node id
    let item ← match node.kind with
      | .leaf => pure [node.function]
      | .branch slot => do
        let chain ← arena.itemsFrom rounds node.next
        pure [.array [.literal slot.slotName, .array chain]]
      | .blank => pure []
    return item ++ (← arena.itemsFrom rounds node.alternative)

/-- The tree as nested arrays. -/
def toArray (rounds : Nat) (arena : OverloadArena) : Attempt Token := do
  if ← arena.isEmpty then return .array []
  else return .array (← arena.itemsFrom rounds (some .root))

end OverloadArena

end StackLang
