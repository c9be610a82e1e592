import StackLang.Store.Basic

/-!
# Ownership between dictionaries

A dictionary directly owns the dictionaries whose handles its entries are.
Following such entries gives the dictionaries that it reaches.  What a shared
object keeps alive is more: every handle inside its tokens counts, also within
arrays, callbacks, procedures and overload tables.
-/

namespace StackLang.Store

/-- The dictionaries that entries of a dictionary are handles of. -/
def directlyOwned (store : Store) (id : DictId) : List DictId :=
  (store.dictionary id).tokens.filterMap Token.ownedDictionary?

/-- The dictionaries owned by those in `found` that are not among them. -/
def frontier (store : Store) (found : List DictId) : List DictId :=
  ((found.flatMap store.directlyOwned).filter fun id => !found.contains id).eraseDups

/-- Adds owned dictionaries until none is missing, at most `rounds` times. -/
def closeUnder (store : Store) : Nat → List DictId → List DictId
  | 0, found => found
  | rounds + 1, found =>
    match store.frontier found with
    | [] => found
    | more => store.closeUnder rounds (found ++ more)

/-- The dictionaries reached from one, itself included.  Every round but the
last finds one that is new, so one round more than there are dictionaries is
enough. -/
def reachable (store : Store) (id : DictId) : List DictId :=
  store.closeUnder (store.dictionaries.size + 1) [id]

/-- Whether a path of entries leads from one dictionary to another. -/
def reaches (store : Store) (source target : DictId) : Bool :=
  (store.reachable source).contains target

/-- The objects that have a handle left among `roots` or in one of `objects`. -/
def supported (store : Store) (roots : List Token) (objects : List SharedObject) :
    List SharedObject :=
  let handles := Token.ownedByAll roots ++
    objects.flatMap fun object => Token.ownedByAll (store.contents object)
  objects.filter handles.contains

/-- Drops objects without a handle until every object left has one, at most
`rounds` times. -/
def prune (store : Store) (roots : List Token) : Nat → List SharedObject → List SharedObject
  | 0, objects => objects
  | rounds + 1, objects =>
    let kept := store.supported roots objects
    if kept.length = objects.length then objects else store.prune roots rounds kept

/-- The objects still alive when `roots` are the tokens outside the store.  An
object dies when its last handle goes, and its own handles go with it; objects
that own each other in a circle therefore stay. -/
def alive (store : Store) (roots : List Token) : List SharedObject :=
  store.prune roots (store.dictionaries.size + store.tables.size) store.objects

/-- Whether a dictionary is alive. -/
def isAlive (store : Store) (roots : List Token) (id : DictId) : Bool :=
  (store.alive roots).contains (.dictionary id)

end StackLang.Store
