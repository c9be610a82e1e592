import StackLang.Storage.Placement
import StackLang.Token.Kind

/-!
# Slots

The tokens of a workspace stand in numbered slots.  A token that is put into a
slot is made before the one that was there goes; moving and exchanging make
nothing.
-/

namespace StackLang

namespace Workspace

/-- The contents of a slot; a slot that does not exist is void. -/
def slot (work : Workspace) (i : Nat) : Slot :=
  work.slots[i]?.getD {}

/-- The token in a slot. -/
def token (work : Workspace) (i : Nat) : Token :=
  (work.slot i).token

/-- Changes a slot without a thought for storage. -/
def modifySlot (i : Nat) (f : Slot → Slot) : Work Unit :=
  modify fun work => { work with slots := work.slots.modify i f }

/-- Adds a slot with a new token. -/
def addSlot (draft : Draft) : Work Unit := do
  let token ← draft.placeNew
  modify fun work => { work with slots := work.slots.push { token } }

/-- Puts a slot's contents in the place of another's, whose token goes. -/
def assign (i : Nat) (contents : Slot) : Work Unit := do
  let replaced := (← get).token i
  modifySlot i fun _ => contents
  release replaced

/-- Puts a new token into a slot; it is made before the old one goes. -/
def put (i : Nat) (draft : Draft) : Work Unit := do
  let token ← draft.placeNew
  assign i { token }

/-- Puts a copy of one slot's token into another slot. -/
def copySlot (source target : Nat) : Work Unit := do
  let token ← ((← get).token source).copy
  assign target { token }

/-- Moves the contents of one slot to another; the first one is void then. -/
def moveSlot (source target : Nat) : Work Unit := do
  let contents := (← get).slot source
  modifySlot source fun _ => {}
  assign target contents

/-- Exchanges the contents of two slots.  The first is void while the second takes
its contents in, so a slot that is exchanged with itself loses its token. -/
def swapSlots (i j : Nat) : Work Unit := do
  let first := (← get).slot i
  modifySlot i fun _ => {}
  let second := (← get).slot j
  modifySlot j fun _ => first
  assign i second

/-- Makes the token in a slot void; the flag stays. -/
def clearSlot (i : Nat) : Work Unit := do
  let removed := (← get).token i
  modifySlot i Slot.clear
  release removed

/-- Whether the token in a slot is an array. -/
def isArray (i : Nat) : Work Bool :=
  return ((← get).token i).isA .array

/-- Appends a token to the array in a slot. -/
def pushItem (i : Nat) (item : Token) : Work Unit :=
  modifySlot i fun slot => slot.withToken (slot.token.mapValue fun
    | .array items => .array (items ++ [item])
    | value => value)

/-- Appends a new token to the array in a slot; tells whether it is an array.  For
anything else no token is made. -/
def append (i : Nat) (draft : Draft) : Work Bool := do
  if ← isArray i then
    pushItem i (← draft.placeNew)
    return true
  else return false

/-- Reads the token in a slot as a kind and writes it into a token again, which
exists only for a moment. -/
def readAs (kind : Kind) (i : Nat) : Work (Except Error Token) := do
  let work ← get
  match kind.ofToken work.isAlive (work.token i) with
  | .error error => return .error error
  | .ok value =>
    let written ← (kind.toToken value).copy
    release written
    return .ok written

/-- The counters of the pool for a type. -/
def stats (tag : TypeTag) : Work PoolStats :=
  onPool tag (return (← get).stats)

/-- Makes room for `n` more data of a type. -/
def reserve (tag : TypeTag) (n : Nat) : Work Unit :=
  onPool tag (Pool.reserve n)

end Workspace

end StackLang
