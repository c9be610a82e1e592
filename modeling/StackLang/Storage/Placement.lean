import StackLang.Storage.Release
import StackLang.Store.Write
import StackLang.Token.Draft

/-!
# Placing data

New data are made from drafts, and copies from tokens.  Copies of arrays and
callbacks are deep; copies of anything shared take another handle.  An action
that faults half-way gives back what it had made until then.
-/

namespace StackLang

open Workspace

namespace Workspace

/-- Places a value, whose contents are placed already, in a block of its own. -/
def place (value : Value) (writeable : Bool) : Work Token := do
  let block ← onFault (onPool value.tag Pool.alloc) (value.release empty)
  let installation := (← get).installations
  return .datum value { writeable, home := { installation, block } }

/-- Makes a number for a procedure body, which has one handle. -/
def newBody : Work BodyId := do
  let id ← modifyGet fun work =>
    let (id, store) := work.store.newBody
    (id, { work with store })
  addHandle (.body id)
  return id

/-- Makes an empty dictionary with one handle. -/
def newDictionary : Work DictId := do
  let id ← modifyGet fun work =>
    let (id, store) := work.store.newDictionary
    (id, { work with store })
  addHandle (.object (.dictionary id))
  return id

/-- Makes an empty overload table with one handle. -/
def newTable : Work TableId := do
  let id ← modifyGet fun work =>
    let (id, store) := work.store.newTable
    (id, { work with store })
  addHandle (.object (.table id))
  return id

/-- Binds a name in a dictionary.  What the name was bound to goes, and so does
the handle of a dictionary that is stored as an alias. -/
def insert (target : DictId) (name : Name) (token : Token) : Work Unit := do
  let store := (← get).store
  let replaced := ((store.dictionary target).peek? name).getD .void
  let demoted := store.cycleThrough? target token
  modify fun work => { work with store := store.insert target name token }
  match demoted with
  | none => pure ()
  | some id =>
    if ← dropHandle (.object (.dictionary id)) then empty (.dictionary id)
  release replaced

/-- Removes a name from a dictionary, and gives back what it was bound to. -/
def remove (target : DictId) (name : Name) : Work Unit := do
  let store := (← get).store
  let removed := ((store.dictionary target).peek? name).getD .void
  modify fun work => { work with store := store.remove target name }
  release removed

/-- Adds an overload to a table; the function of a refused one is given back. -/
def addOverload (id : TableId) (signature : Signature) (function : Token) : Work Unit := do
  match (← get).store.addOverload id signature function with
  | .error fault =>
    release function
    throw fault
  | .ok (accepted, store) =>
    modify fun work => { work with store }
    if !accepted then release function

/-- Counts the handles that a copy of a value takes. -/
def shareHandles : Value → Work Unit
  | .procedure id _ => addHandle (.body id)
  | .litProcedure id _ => addHandle (.body id)
  | .dictionary (.owned id) => addHandle (.object (.dictionary id))
  | .table _ id => addHandle (.object (.table id))
  | _ => return

end Workspace

mutual

/-- Copies a value; arrays and callbacks are copied with what is in them. -/
def Value.copy : Value → Work Value
  | .array items => return .array (← Token.copyAll items)
  | .callback action => return .callback (← Token.copy action)
  | value => do
    shareHandles value
    return value

/-- Copies a token into the present pools. -/
def Token.copy : Token → Work Token
  | .void => return .void
  | .datum value attributes => do
    place (← Value.copy value) attributes.writeable

/-- Copies tokens in order. -/
def Token.copyAll : List Token → Work (List Token)
  | [] => return []
  | token :: rest => do
    let copied ← Token.copy token
    return copied :: (← onFault (Token.copyAll rest) (release copied))

end

mutual

/-- Makes the token that a draft describes. -/
def Draft.placeNew : Draft → Work Token
  | .void => return .void
  | .integer n => place (.integer n) true
  | .double x => place (.double x) true
  | .boolean b => place (.boolean b) true
  | .string text => place (.string text) true
  | .name name => place (.name name) true
  | .literal name => place (.literal name) true
  | .procedure body => do
    let tokens ← Draft.placeNewAll body
    place (.procedure (← newBody) tokens) true
  | .litProcedure body => do
    let tokens ← Draft.placeNewAll body
    place (.litProcedure (← newBody) tokens) true
  | .array items => do place (.array (← Draft.placeNewAll items)) true
  | .dictionary id => do
    addHandle (.object (.dictionary id))
    place (.dictionary (.owned id)) true
  | .newDictionary bindings => do
    let id ← newDictionary
    onFault (DraftBinding.placeNewAll id bindings)
      ((Value.dictionary (.owned id)).release empty)
    place (.dictionary (.owned id)) true
  | .function name operator => place (.function name operator) true
  | .newTable name overloads => do
    let id ← newTable
    onFault (DraftOverload.placeNewAll id overloads) ((Value.table name id).release empty)
    place (.table name id) true
  | .primitive primitive => place (.primitive primitive) true
  | .callback action => do place (.callback (← Draft.placeNew action)) true
  | .mark => place .mark true
  | .readOnly draft => return (← Draft.placeNew draft).setWriteable false

/-- Makes the tokens that drafts describe, in order. -/
def Draft.placeNewAll : List Draft → Work (List Token)
  | [] => return []
  | draft :: rest => do
    let token ← Draft.placeNew draft
    return token :: (← onFault (Draft.placeNewAll rest) (release token))

/-- Fills a new dictionary. -/
def DraftBinding.placeNewAll (id : DictId) : List DraftBinding → Work Unit
  | [] => return
  | .mk name value :: rest => do
    insert id name (← Draft.placeNew value)
    DraftBinding.placeNewAll id rest

/-- Fills a new overload table. -/
def DraftOverload.placeNewAll (id : TableId) : List DraftOverload → Work Unit
  | [] => return
  | .mk signature function :: rest => do
    addOverload id signature (← Draft.placeNew function)
    DraftOverload.placeNewAll id rest

end

end StackLang
