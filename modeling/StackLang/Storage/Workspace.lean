import StackLang.Storage.ValuePools
import StackLang.Store.Basic

/-!
# A workspace with accounted storage

A workspace keeps tokens in numbered slots and accounts for the storage of every
datum: making or copying one takes a block of the pool for its type, and when it
goes the block is given back.  The bodies of procedures, dictionaries and
overload tables are shared, so every handle to one is counted.

This module holds the state of a workspace, its pools and its count of handles.
-/

namespace StackLang

/-- Something shared whose handles are counted. -/
inductive Shared where
  | object (object : SharedObject)
  | body (id : BodyId)
  deriving DecidableEq, Repr

/-- Slots, the store, the value pools, and every handle that exists. -/
structure Workspace where
  store : Store := {}
  /-- The pools that new data are placed in; none until the first is needed. -/
  valuePools : Option ValuePools := none
  /-- How many installations of value pools there have been. -/
  installations : Nat := 0
  /-- One entry for each handle. -/
  handles : List Shared := []
  slots : Array Slot := #[]
  deriving Inhabited

/-- An action on a workspace, which may fault. -/
abbrev Work := EStateM Fault Workspace

namespace Workspace

/-- Runs a clean-up when an action faults, and passes the fault on. -/
def onFault {α : Type} (action : Work α) (cleanUp : Work Unit) : Work α :=
  tryCatch action fun fault => do
    cleanUp
    throw fault

/-- Installs new value pools in place of the present ones. -/
def install (config : PoolConfig) : Work Unit := do
  modify fun work => { work with
    store := work.store.report
      (.installingPools config.initialBlockSize config.growthFactor) }
  let work ← get
  match ValuePools.install (work.installations + 1) config with
  | .error fault => throw fault
  | .ok valuePools =>
    set { work with
      valuePools := some valuePools
      installations := work.installations + 1 }

/-- Gives up the value pools. -/
def teardown : Work Unit :=
  modify fun work => { work with valuePools := none }

/-- The present value pools; where there are none, pools with the usual growth are
installed without a word. -/
def requirePools : Work ValuePools := do
  let work ← get
  match work.valuePools with
  | some valuePools => return valuePools
  | none =>
    match ValuePools.install (work.installations + 1) {} with
    | .error fault => throw fault
    | .ok valuePools =>
      set { work with
        valuePools := some valuePools
        installations := work.installations + 1 }
      return valuePools

/-- Runs an action on the present pool for a type. -/
def onPool {α : Type} (tag : TypeTag) (action : PoolAction α) : Work α := do
  let valuePools ← requirePools
  match action.run (valuePools.pool tag) with
  | .ok value pool =>
    modify fun work => { work with valuePools := some (valuePools.setPool tag pool) }
    return value
  | .error fault pool =>
    modify fun work => { work with valuePools := some (valuePools.setPool tag pool) }
    throw fault

/-- Gives back the block of a datum.  The pools of an earlier installation are
out of sight. -/
def freeBlock (tag : TypeTag) (home : Home) : Work Unit := do
  match (← get).valuePools with
  | none => return
  | some valuePools =>
    if valuePools.installation = home.installation then
      onPool tag (Pool.release home.block)

/-- Counts one more handle. -/
def addHandle (shared : Shared) : Work Unit :=
  modify fun work => { work with handles := shared :: work.handles }

/-- Counts one handle less; tells whether it was the last. -/
def dropHandle (shared : Shared) : Work Bool := do
  modify fun work => { work with handles := work.handles.erase shared }
  return !(← get).handles.contains shared

/-- Whether a dictionary has a handle. -/
def isAlive (work : Workspace) (id : DictId) : Bool :=
  work.handles.contains (.object (.dictionary id))

end Workspace

end StackLang
