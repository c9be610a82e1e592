import StackLang.Storage.Workspace

/-!
# Giving storage back

A datum that goes gives back what its value holds and then its own block.  The
contents of a shared object go when its last handle goes, which may take further
objects along.
-/

namespace StackLang

open Workspace

mutual

/-- Gives back what a value holds; `empty` is told which shared objects of the
store lost their last handle. -/
def Value.release (empty : SharedObject → Work Unit) : Value → Work Unit
  | .procedure id body => do
    if ← dropHandle (.body id) then Token.releaseAll empty body
  | .litProcedure id body => do
    if ← dropHandle (.body id) then Token.releaseAll empty body
  | .array items => Token.releaseAll empty items
  | .callback action => Token.release empty action
  | .dictionary (.owned id) => do
    if ← dropHandle (.object (.dictionary id)) then empty (.dictionary id)
  | .table _ id => do
    if ← dropHandle (.object (.table id)) then empty (.table id)
  | _ => return

/-- Gives back a token: what its value holds, then its own block. -/
def Token.release (empty : SharedObject → Work Unit) : Token → Work Unit
  | .void => return
  | .datum value attributes => do
    Value.release empty value
    freeBlock value.tag attributes.home

/-- Gives back tokens in order. -/
def Token.releaseAll (empty : SharedObject → Work Unit) : List Token → Work Unit
  | [] => return
  | token :: rest => do
    Token.release empty token
    Token.releaseAll empty rest

end

namespace Workspace

/-- Forgets the contents of a shared object. -/
def forget (object : SharedObject) : Work Unit :=
  modify fun work => { work with
    store :=
      match object with
      | .dictionary id => work.store.modifyDictionary id fun _ => .empty
      | .table id => work.store.setTable id .empty }

/-- Gives back the contents of an object that lost its last handle.  Each object
is emptied once, so `depth` may be their number. -/
def emptyWithin : Nat → SharedObject → Work Unit
  | 0, _ => return
  | depth + 1, object => do
    let contents := (← get).store.contents object
    forget object
    Token.releaseAll (emptyWithin depth) contents

/-- Gives back the contents of an object that lost its last handle. -/
def empty (object : SharedObject) : Work Unit := do
  emptyWithin ((← get).store.objects.length + 1) object

/-- Gives back a token. -/
def release (token : Token) : Work Unit :=
  token.release empty

end Workspace

end StackLang
