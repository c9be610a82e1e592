import StackLang.Store.Ownership
import StackLang.Token.Holding

/-!
# The census of live data

A datum is live as long as somebody can come to it: it is held outside the store,
or inside a shared object that is alive, or in a procedure body that such data
refer to.  A shared object and a procedure body count once, however many refer to
them.
-/

namespace StackLang.Store

/-- Procedure bodies without repetition, in the order of their numbers. -/
def distinctBodies (store : Store) (bodies : List NumberedBody) : List (List Token) :=
  let byNumber := bodies.foldl
    (fun found body => found.setIfInBounds body.1.index (some body.2))
    (Array.replicate store.bodies (none : Option (List Token)))
  byNumber.toList.filterMap id

/-- The types of all live data, one for each datum, if `holdings` are held outside
the store. -/
def census (store : Store) (holdings : List Holding) : List TypeTag :=
  let stored := (store.alive (holdings.map Holding.asToken)).flatMap store.contents
  let bodies :=
    store.distinctBodies (holdings.flatMap Holding.bodies ++ Token.bodiesOfAll stored)
  holdings.flatMap Holding.blocks ++ Token.blocksOfAll stored ++
    bodies.flatMap Token.blocksOfAll

end StackLang.Store
