import StackLang.Machine.Scopes
import StackLang.Stack
import StackLang.Storage.ValuePools
import StackLang.Store.Census
import StackLang.Store.Render
import StackLang.Store.Usage
import StackLang.Text.Blank

/-!
# The machine

A machine executes tokens.  The execution stack holds what is left to do, the
operand stack the data, and the scopes resolve names.  Everything the machine
says besides its results goes to the diagnostics and to the journal of its store.

Operations are actions on the machine; one that fails leaves the machine as it
was at the point of failure, which is what a script can observe.

Every new datum claims storage.  Where the pools of the machine cannot grow for
ever, a claim beyond their room is a fault: it ends the operation, and unlike an
error it is not handled by the statement that is running.  So is the attempt to say
something that has no text.
-/

namespace StackLang

/-- Settings of a machine. -/
structure Config where
  /-- Pause before every element of a procedure or loop. -/
  stepMode : Bool := false
  /-- Drop the frame of a procedure before its last element runs. -/
  tailElimination : Bool := true
  /-- Growth of the pools for values. -/
  pools : PoolConfig := {}
  deriving DecidableEq, Repr, Inhabited

/-- What a piece of diagnostic text is. -/
inductive DiagnosticKind where
  /-- A procedure shown at a pause. -/
  | listing
  /-- A remark made in step mode. -/
  | note
  /-- The frames that were open when a statement failed. -/
  | backtrace
  deriving DecidableEq, Repr

/-- A piece of diagnostic text. -/
structure Diagnostic where
  kind : DiagnosticKind
  text : String
  deriving DecidableEq, Repr

/-- The execution stack at some moment, with all that is needed to show it. -/
structure Snapshot where
  execution : List Token
  depth : Nat
  store : Store
  alive : List SharedObject
  deriving Inhabited

/-- The state of a machine. -/
structure Machine where
  operands : TokenStack := .empty
  execution : TokenStack := .empty
  store : Store
  scopes : Scopes
  config : Config := {}
  /-- Number of open frames. -/
  depth : Nat := 0
  /-- Commands for the next pauses, if somebody answers. -/
  prompt : Option (List DebugCommand) := none
  /-- Latest first. -/
  diagnostics : List Diagnostic := []
  /-- Runs once the statement is done; void if nothing is pending. -/
  callback : Token := .void
  /-- What the host and running operators hold on to. -/
  held : List Holding := []
  /-- How many data fit into the pools; nothing if they can grow for ever. -/
  room : Option Room := none
  /-- So many more data of any type certainly fit, as far as the last census told. -/
  slack : Nat := 0
  /-- Latest first. -/
  snapshots : List Snapshot := []
  deriving Inhabited

/-- An action of the host on a machine, which may fault. -/
abbrev HostAction := EStateM Fault Machine

/-- An action on a machine, which may fail. -/
abbrev Operation := EStateM Failure Machine

/-- How an action on a machine ended. -/
abbrev Outcome := EStateM.Result Failure Machine Unit

theorem Operation.discard_eq_bind {α : Type} (operation : Operation α) :
    Functor.discard operation = operation >>= fun _ => pure () := by
  funext machine
  simp only [Functor.discard, Functor.mapConst, Function.comp, Function.const, EStateM.map,
    bind, EStateM.bind]
  cases operation machine <;> rfl

namespace DebugCommand

/-- An input line is a request for a listing if its first character that is not
blank is an `l`, in either case. -/
def ofLine (line : String) : DebugCommand :=
  match Text.dropBlanks line with
  | 'l' :: _ => .list
  | 'L' :: _ => .list
  | _ => .proceed

end DebugCommand

namespace Machine

/-- Everything that is held outside the store. -/
def holdings (machine : Machine) : List Holding :=
  (machine.operands.items ++ machine.execution.items ++ [machine.callback]).map .token ++
    (machine.scopes.innermostFirst.map fun id => .value (.dictionary (.owned id))) ++
    machine.held

/-- Tokens with the handles that are held outside the store. -/
def roots (machine : Machine) : List Token :=
  machine.holdings.map Holding.asToken

/-- The shared objects that are alive. -/
def alive (machine : Machine) : List SharedObject :=
  machine.store.alive machine.roots

/-- Whether a dictionary is alive. -/
def isAlive (machine : Machine) (id : DictId) : Bool :=
  machine.store.isAlive machine.roots id

/-- The types of all live data while `inHand` is in hand. -/
def census (machine : Machine) (inHand : List Holding) : List TypeTag :=
  machine.store.census (inHand ++ machine.holdings)

/-- The number of live data of the most frequent type while `inHand` is in hand. -/
def load (machine : Machine) (inHand : List Holding) : Nat :=
  let live := machine.census inHand
  (TypeTag.all.map fun tag => live.count tag).foldl max 0

/-- Why there may not be as many data as with `inHand`, if so. -/
def refusal? (machine : Machine) (inHand : List Holding) : Option Fault :=
  match machine.room with
  | none => none
  | some room => if machine.load inHand ≤ room.perType then none else some room.fault

/-- Reports an event. -/
def report (event : Event) (machine : Machine) : Machine :=
  { machine with store := machine.store.report event }

/-- Writes diagnostic text. -/
def emit (kind : DiagnosticKind) (text : String) (machine : Machine) : Machine :=
  { machine with diagnostics := ⟨kind, text⟩ :: machine.diagnostics }

/-- Puts a token on the operand stack. -/
def push (token : Token) (machine : Machine) : Machine :=
  { machine with operands := machine.operands.push token }

/-- Puts a token on the execution stack. -/
def schedule (token : Token) (machine : Machine) : Machine :=
  { machine with execution := machine.execution.push token }

/-- Counts a frame that was opened. -/
def enterFrame (machine : Machine) : Machine :=
  { machine with depth := machine.depth + 1 }

/-- Counts frames that were closed. -/
def leaveFrames (count : Nat) (machine : Machine) : Machine :=
  { machine with depth := machine.depth - count }

/-- Raises the error of a result, if it is one. -/
def orFail {α : Type} : Except Error α → Operation α
  | .ok value => return value
  | .error error => throw (.error error)

/-- Says something, if it has a text. -/
def say (kind : DiagnosticKind) (text : Option String) : Operation Unit := fun machine =>
  match text with
  | none => .error (.fault .endlessText) machine
  | some text => .ok () (machine.emit kind text)

/-- Reserves storage for new data, which are in hand besides everything that is
held.  A census is taken only when the new data might not fit; data that went
meanwhile can only have made more room. -/
def reserve (inHand : List Holding) : HostAction Unit := do
  let machine ← get
  match machine.room with
  | none => return
  | some room =>
    let wanted := (inHand.flatMap Holding.blocks).length
    if wanted ≤ machine.slack then set { machine with slack := machine.slack - wanted }
    else
      let load := machine.load inHand
      if load ≤ room.perType then set { machine with slack := room.perType - load }
      else throw room.fault

/-- Claims storage for new data in the middle of an operation. -/
def claim (inHand : List Holding) : Operation Unit := fun machine =>
  match (reserve inHand).run machine with
  | .ok () machine => .ok () machine
  | .error fault machine => .error (.fault fault) machine

/-- Puts a new token on the operand stack while `inHand` is in hand. -/
def pushNew (token : Token) (inHand : List Holding) : Operation Unit := do
  claim (.token token :: inHand)
  modify (push token)

/-- Puts a new token on the execution stack while `inHand` is in hand. -/
def scheduleNew (token : Token) (inHand : List Holding) : Operation Unit := do
  claim (.token token :: inHand)
  modify (schedule token)

/-- Runs an action on the store. -/
def onStore {α : Type} (action : StoreAction α) : Operation α := fun machine =>
  match action.run machine.store with
  | .ok value store => .ok value { machine with store }
  | .error error store => .error (.error error) { machine with store }

/-- Takes the top operand. -/
def pop : Operation Token := do
  let (token, operands) ← orFail (← get).operands.pop
  modify fun machine => { machine with operands }
  return token

/-- Takes the top operand as a kind; one of another kind stays.  Reading the
tokens of an array copies them. -/
def popAs (kind : Kind) : Operation kind.Carrier := do
  let machine ← get
  let token ← orFail machine.operands.top
  let value ← orFail (kind.ofToken machine.isAlive token)
  claim ((kind.copiedTokens value).map .token)
  discard pop
  return value

/-- Takes the top operand as a kind and writes it into a token again. -/
def popThrough (kind : Kind) : Operation Token := do
  let token := kind.toToken (← popAs kind)
  claim [.token token]
  return token

/-- Drops operands, or none if there are fewer. -/
def popMany (n : Nat) : Operation Unit := do
  let operands ← orFail ((← get).operands.popMany n)
  modify fun machine => { machine with operands }

/-- Drops all operands. -/
def clearOperands (machine : Machine) : Machine :=
  { machine with operands := machine.operands.clear }

/-- The peak of the operand stack, which is measured anew from here on. -/
def takeOperandPeak (machine : Machine) : Nat × Machine :=
  (machine.operands.peak, { machine with operands := machine.operands.resetPeak })

/-- A copy of the innermost binding of a name, which is read by this. -/
def lookup (name : Name) : Operation (Option Token) := do
  let machine ← get
  match machine.scopes.lookup machine.store name with
  | none => return none
  | some (token, store) =>
    set { machine with store }
    claim [.token token]
    return some token

/-- Binds a name in the innermost dictionary, unless it holds a read-only
binding there. -/
def define (name : Name) (token : Token) : Operation Unit := do
  let machine ← get
  let target := machine.scopes.top
  match (machine.store.dictionary target).peek? name with
  | some bound =>
    if bound.isReadOnly then throw (.error (.readOnly name.text))
    set { machine with store := machine.store.insert target name token }
  | none => set { machine with store := machine.store.insert target name token }

/-- Opens a dictionary as the innermost scope. -/
def beginScope (id : DictId) (machine : Machine) : Machine :=
  { machine with scopes := machine.scopes.push id }

/-- Closes the innermost scope that was opened. -/
def endScope (machine : Machine) : Option DictId × Machine :=
  match machine.scopes.close with
  | none => (none, machine)
  | some (id, scopes) => (some id, { machine with scopes })

/-- Has a token run when the execution stack next drains to the base of a
statement. -/
def setCallback (action : Token) : Operation Unit := do
  claim [.token (.callback action)]
  modify fun machine => { machine with callback := .callback action }

/-- Forgets the pending callback. -/
def clearCallback (machine : Machine) : Machine :=
  { machine with callback := .void }

/-- Turns step mode on or off. -/
def setStepMode (on : Bool) (machine : Machine) : Machine :=
  { machine with config := { machine.config with stepMode := on } }

/-- Has the given commands answer the next pauses. -/
def setPrompt (commands : List DebugCommand) (machine : Machine) : Machine :=
  { machine with prompt := some commands }

/-- Binds a name in the innermost dictionary, also over a read-only binding. -/
def redefine (name : Name) (token : Token) (machine : Machine) : Machine :=
  { machine with store := machine.store.insert machine.scopes.top name token }

/-- Marks the entries reached from a dictionary as not read. -/
def forgetReads (id : DictId) (machine : Machine) : Machine :=
  { machine with store := machine.store.forgetReads id }

/-- Records what is on the execution stack. -/
def takeSnapshot (machine : Machine) : Machine :=
  let snapshot : Snapshot :=
    { execution := machine.execution.items
      depth := machine.depth
      store := machine.store
      alive := machine.alive }
  { machine with snapshots := snapshot :: machine.snapshots }

/-- The dictionary bound to a name. -/
def resolveDictionary (name : Name) : Operation DictId := do
  match ← lookup name with
  | none => throw (.error (.undefinedName name.text))
  | some token => orFail (Kind.dictionary.ofToken (← get).isAlive token)

/-- Stores copies of tokens in a dictionary, one after the other. -/
def copyInto (target : DictId) : List (Name × Slot) → Operation Unit
  | [] => return
  | (name, slot) :: rest => do
    claim [.token slot.token, .value (.dictionary (.owned target))]
    modify fun machine => { machine with store := machine.store.insert target name slot.token }
    copyInto target rest

/-- Merges a dictionary into the one bound to a name.  Its own names collide when
it is merged into itself. -/
def merge (source : DictId) (name : Name) : Operation Unit := do
  let target ← resolveDictionary name
  let store := (← get).store
  match store.firstCollision? source target with
  | some known => throw (.error (.undefinedName known.text))
  | none => copyInto target (store.dictionary source).entries

/-- Removes the names of a dictionary from the one bound to a name. -/
def unmerge (source : DictId) (name : Name) : Operation Unit := do
  let target ← resolveDictionary name
  modify fun machine => { machine with store := machine.store.unmerge source target }

end Machine

end StackLang
