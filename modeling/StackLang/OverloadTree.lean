import StackLang.Error
import StackLang.Event
import StackLang.Text.Column
import StackLang.Token.Render

/-!
# Overload selection by operand types

An overload tree maps signatures to functions.  At each level the alternatives
form a chain: first, if a signature ends here, a leaf with its function, then
branches for concrete types in the order in which they came, then the branch of
the wildcard.  Level zero is the type of the top operand, so a branch leads to
the level of the operand below.

Selection follows the branch of the operand's own type if there is one and the
wildcard's otherwise, and falls back to the last leaf it passed.
-/

namespace StackLang

/-- A chain of alternatives; `empty` ends it. -/
inductive OverloadTree where
  | empty
  | leaf (function : Token) (alternatives : OverloadTree)
  | branch (slot : TypeSlot) (next alternatives : OverloadTree)
  deriving Inhabited

/-- Why an overload was not accepted. -/
inductive Refusal where
  /-- The signature has a function already. -/
  | alreadyDefined
  /-- The signature is the start of one that has a function. -/
  | startsLonger
  deriving DecidableEq, Repr

/-- What is reported about a refused signature. -/
def Refusal.event : Refusal → Signature → Event
  | alreadyDefined, signature => .overloadDefined signature
  | startsLonger, signature => .overloadIsStart signature

namespace OverloadTree

/-- The tree of a single overload. -/
def single (function : Token) : Signature → OverloadTree
  | [] => leaf function empty
  | slot :: rest => branch slot (single function rest) empty

/-- Binds a signature to a function, or tells why it cannot be bound.  A new
concrete type takes its place in front of the wildcard. -/
def add (function : Token) : OverloadTree → Signature → Except Refusal OverloadTree
  | empty, signature => .ok (single function signature)
  | leaf _ _, [] => .error .alreadyDefined
  | leaf bound alternatives, slot :: rest =>
    (alternatives.add function (slot :: rest)).map (leaf bound)
  | branch _ _ _, [] => .error .startsLonger
  | branch slot next alternatives, wanted :: rest =>
    if slot = wanted then
      (next.add function rest).map fun next => branch slot next alternatives
    else if slot = .any then
      .ok (branch wanted (single function rest) (branch slot next alternatives))
    else (alternatives.add function (wanted :: rest)).map (branch slot next)

/-- What an addition that succeeds makes of a chain, by what the chain begins with. -/
inductive Adds (function : Token) : OverloadTree → Signature → OverloadTree → Prop where
  | alone {signature : Signature} : Adds function empty signature (single function signature)
  | behindLeaf {bound : Token} {slot : TypeSlot} {rest : Signature}
    {alternatives added : OverloadTree}
    (hadds : Adds function alternatives (slot :: rest) added) :
    Adds function (leaf bound alternatives) (slot :: rest) (leaf bound added)
  | behindSlot {slot : TypeSlot} {rest : Signature} {next alternatives added : OverloadTree}
    (hadds : Adds function next rest added) :
    Adds function (branch slot next alternatives) (slot :: rest) (branch slot added alternatives)
  | beforeWildcard {wanted : TypeSlot} {rest : Signature} {next alternatives : OverloadTree}
    (hwanted : wanted ≠ .any) :
    Adds function (branch .any next alternatives) (wanted :: rest)
      (branch wanted (single function rest) (branch .any next alternatives))
  | behindBranch {slot wanted : TypeSlot} {rest : Signature}
    {next alternatives added : OverloadTree} (hslot : slot ≠ wanted) (hconcrete : slot ≠ .any)
    (hadds : Adds function alternatives (wanted :: rest) added) :
    Adds function (branch slot next alternatives) (wanted :: rest) (branch slot next added)

private theorem map_eq_ok {wrap : OverloadTree → OverloadTree}
    {result : Except Refusal OverloadTree} {added : OverloadTree}
    (h : result.map wrap = .ok added) : ∃ part, result = .ok part ∧ wrap part = added := by
  cases result with
  | error refusal => simp [Except.map] at h
  | ok part => exact ⟨part, rfl, by simpa [Except.map] using h⟩

theorem adds_of_add {function : Token} {tree added : OverloadTree} {signature : Signature}
    (hadd : tree.add function signature = .ok added) : Adds function tree signature added := by
  induction tree generalizing signature added with
  | empty =>
    cases hadd
    exact .alone
  | leaf bound alternatives ih =>
    cases signature with
    | nil => cases hadd
    | cons slot rest =>
      obtain ⟨changed, hchanged, rfl⟩ := map_eq_ok hadd
      exact .behindLeaf (ih hchanged)
  | branch slot next alternatives ihNext ihAlternatives =>
    cases signature with
    | nil => cases hadd
    | cons wanted rest =>
      rw [add] at hadd
      split at hadd
      case isTrue hslot =>
        subst hslot
        obtain ⟨changed, hchanged, rfl⟩ := map_eq_ok hadd
        exact .behindSlot (ihNext hchanged)
      case isFalse hslot =>
        split at hadd
        case isTrue hany =>
          subst hany
          cases hadd
          exact .beforeWildcard (Ne.symm hslot)
        case isFalse hconcrete =>
          obtain ⟨changed, hchanged, rfl⟩ := map_eq_ok hadd
          exact .behindBranch hslot hconcrete (ihAlternatives hchanged)

/-- Binds a signature unless it is taken; tells whether it did, and reports a
refusal.  An overload without operands makes no sense. -/
def insert (tree : OverloadTree) (signature : Signature) (function : Token) :
    Except Fault (OverloadTree × Bool × List Event) :=
  if signature.isEmpty then .error .emptySignature
  else
    match tree.add function signature with
    | .ok tree => .ok (tree, true, [])
    | .error refusal => .ok (tree, false, [refusal.event signature])

/-- A request adds its overload, or is refused and changes nothing. -/
theorem insert_cases {function : Token} {tree next : OverloadTree} {signature : Signature}
    {accepted : Bool} {events : List Event}
    (hinsert : tree.insert signature function = .ok (next, accepted, events)) :
    signature ≠ [] ∧
      ((tree.add function signature = .ok next ∧ accepted = true ∧ events = []) ∨
        ∃ refusal, tree.add function signature = .error refusal ∧ next = tree ∧
          accepted = false ∧ events = [refusal.event signature]) := by
  rw [insert] at hinsert
  split at hinsert
  case isTrue => cases hinsert
  case isFalse hsigned =>
    refine ⟨by simpa using hsigned, ?_⟩
    cases hadd : tree.add function signature with
    | ok added =>
      rw [hadd] at hinsert
      cases hinsert
      exact .inl ⟨rfl, rfl, rfl⟩
    | error refusal =>
      rw [hadd] at hinsert
      cases hinsert
      exact .inr ⟨refusal, rfl, rfl, rfl, rfl⟩

/-- The function of the leaf at the head of a chain. -/
def head? : OverloadTree → Option Token
  | leaf function _ => some function
  | _ => none

/-- The chain that the first branch fit for `tag` leads to. -/
def follow? (tag : TypeTag) : OverloadTree → Option OverloadTree
  | empty => none
  | leaf _ alternatives => alternatives.follow? tag
  | branch slot next alternatives =>
    if slot.accepts tag then some next else alternatives.follow? tag

/-- Selects from level `level` on, where `fallback` is the last leaf passed and
`operands` are the types of the operands from this level down.  A void operand
has no type and fits no branch. -/
def selectFrom (level : Nat) (fallback : Option Token) (tree : OverloadTree) :
    List (Option TypeTag) → Except Error Token
  | [] =>
    match tree.head?.or fallback with
    | some function => .ok function
    | none => .error (.stackUnderflow (level + 1) level)
  | operand :: below =>
    match operand.bind fun tag => tree.follow? tag with
    | some next => selectFrom (level + 1) (tree.head?.or fallback) next below
    | none =>
      match tree.head?.or fallback with
      | some function => .ok function
      | none => .error (.argumentType level)

/-- The function for operands given from the top of the stack downwards. -/
def select (tree : OverloadTree) (operands : List (Option TypeTag)) : Except Error Token :=
  selectFrom 0 none tree operands

/-- Whether nothing has been bound. -/
def isEmpty : OverloadTree → Bool
  | empty => true
  | _ => false

/-- The overloads in the order of the chains; `path` leads to this chain, with
its last position first. -/
def overloadsFrom (path : Signature) : OverloadTree → List (Signature × Token)
  | empty => []
  | leaf function alternatives =>
    (path.reverse, function) :: alternatives.overloadsFrom path
  | branch slot next alternatives =>
    next.overloadsFrom (slot :: path) ++ alternatives.overloadsFrom path

/-- Every bound signature with its function. -/
def overloads (tree : OverloadTree) : List (Signature × Token) :=
  tree.overloadsFrom []

/-- Width of a type column. -/
def typeWidth : Nat := 15

/-- One row of the decision table: the types, deepest operand first. -/
def row (expand : DictId → String) (path : Signature) (function : Token) : String :=
  String.join (path.map fun slot => Text.padRight slot.slotName typeWidth) ++
    "calls " ++ function.display expand ++ "\n"

/-- The rows for a chain that `path` leads to, with its last position first. -/
def rowsFrom (expand : DictId → String) (path : Signature) : OverloadTree → String
  | empty => ""
  | leaf function alternatives =>
    row expand path function ++ alternatives.rowsFrom expand path
  | branch slot next alternatives =>
    next.rowsFrom expand (slot :: path) ++ alternatives.rowsFrom expand path

/-- The decision table, with one row for each overload. -/
def info (expand : DictId → String) (tree : OverloadTree) : String :=
  tree.rowsFrom expand []

/-- The alternatives of a chain as tokens: a leaf is its function, and a branch
is the array of its type's literal name and the array of the next chain. -/
def toItems : OverloadTree → List Token
  | empty => []
  | leaf function alternatives => function :: alternatives.toItems
  | branch slot next alternatives =>
    .array [.literal slot.slotName, .array next.toItems] :: alternatives.toItems

/-- The tree as nested arrays. -/
def toArray (tree : OverloadTree) : Token :=
  .array tree.toItems

/-- The tokens bound in a tree. -/
def functions : OverloadTree → List Token
  | empty => []
  | leaf function alternatives => function :: alternatives.functions
  | branch _ next alternatives => next.functions ++ alternatives.functions

end OverloadTree

end StackLang
