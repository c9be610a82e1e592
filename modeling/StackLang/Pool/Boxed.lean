import StackLang.Pool.Basic

/-!
# Boxed values

A box owns a block of a pool and keeps a value in it.  The block goes back to
the pool when the box is dropped or opened, so the boxes of a pool are exactly
its blocks handed out, as long as nobody else uses it.
-/

namespace StackLang

/-- Fixed-width types whose values are boxed. -/
inductive BoxType where
  | byte
  | word
  | wordPair
  | doubleWord
  deriving DecidableEq, Repr

namespace BoxType

/-- Bytes of a value. -/
def size : BoxType → Nat
  | byte => 1
  | word => 8
  | wordPair => 16
  | doubleWord => 16

/-- Alignment of a value. -/
def alignment : BoxType → Nat
  | byte => 1
  | word => 8
  | wordPair => 8
  | doubleWord => 16

/-- Bits of the number that a value holds. -/
def bits : BoxType → Nat
  | byte => 8
  | word | wordPair => 64
  | doubleWord => 128

/-- A number cut down to the width of the type. -/
def truncate (type : BoxType) (n : Int) : Nat :=
  (n % Nat.pow 2 type.bits).toNat

/-- A stored number as text; a pair holds its number twice. -/
def display : BoxType → Nat → String
  | wordPair, n => s!"({n}, {n})"
  | _, n => s!"{n}"

end BoxType

/-- A value in a block of a pool. -/
structure Boxed where
  block : Address
  number : Nat
  deriving DecidableEq, Repr

/-- A pool and the boxes placed in it, by the numbers of their slots. -/
structure BoxedPool where
  pool : Pool
  type : BoxType
  slots : List (Int × Boxed) := []

/-- An action on boxes, which may fault. -/
abbrev BoxAction := EStateM Fault BoxedPool

namespace BoxedPool

/-- The box in a slot. -/
def box? (boxes : BoxedPool) (slot : Int) : Option Boxed :=
  boxes.slots.lookup slot

/-- Runs an action on the pool. -/
def onPool {α : Type} (action : PoolAction α) : BoxAction α := fun boxes =>
  match action.run boxes.pool with
  | .ok value pool => .ok value { boxes with pool }
  | .error fault pool => .error fault { boxes with pool }

/-- The pool's elements must be large enough for the type, and aligned for it. -/
def checkFit (boxes : BoxedPool) : Except Fault Unit :=
  let element := boxes.pool.stats.elementSize
  if element < boxes.type.size then .error (.elementTooSmall element boxes.type.size)
  else if boxes.pool.alignment < boxes.type.alignment ∨ element % boxes.type.alignment ≠ 0 then
    .error .misaligned
  else .ok ()

/-- Moves a number into a new box. -/
def create (number : Nat) : BoxAction Boxed := do
  match (← get).checkFit with
  | .error fault => throw fault
  | .ok () => return ⟨← onPool Pool.alloc, number⟩

/-- Empties a slot and gives its block back; tells what was in it. -/
def drop (slot : Int) : BoxAction (Option Boxed) := do
  match (← get).box? slot with
  | none => return none
  | some box =>
    modify fun boxes => { boxes with slots := boxes.slots.filter (·.1 != slot) }
    onPool (Pool.release box.block)
    return some box

/-- Puts a box into a slot; a box that was there is dropped afterwards. -/
def put (slot : Int) (box : Boxed) : BoxAction Unit := do
  discard <| drop slot
  modify fun boxes => { boxes with slots := (slot, box) :: boxes.slots }

/-- Boxes a number, cut down to the type, in a slot. -/
def new (slot : Int) (number : Int) : BoxAction Unit := do
  let type := (← get).type
  put slot (← create (type.truncate number))

/-- Puts a copy of one box into another slot. -/
def copy (source target : Int) : BoxAction Unit := do
  match (← get).box? source with
  | none => return
  | some box => put target (← create box.number)

/-- Overwrites the number in a box. -/
def assign (slot : Int) (number : Int) : BoxAction Unit :=
  modify fun boxes => { boxes with
    slots := boxes.slots.map fun (at_, box) =>
      if at_ = slot then (at_, { box with number := boxes.type.truncate number })
      else (at_, box) }

/-- Drops every box. -/
def dropAll : BoxAction Unit := do
  for (slot, _) in (← get).slots do
    discard <| drop slot

end BoxedPool

end StackLang
