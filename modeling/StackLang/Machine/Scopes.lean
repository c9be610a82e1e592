import StackLang.Store.Access

/-!
# Scopes

Names are resolved in a stack of dictionaries: the system dictionary is at the
bottom, the user dictionary above it, and the dictionaries opened by the program
on top.  The innermost dictionary that knows a name decides.
-/

namespace StackLang

/-- The dictionaries in which names are resolved. -/
structure Scopes where
  system : DictId
  user : DictId
  /-- Opened dictionaries, the innermost first. -/
  opened : List DictId := []
  deriving Inhabited

namespace Scopes

/-- All dictionaries, the innermost first. -/
def innermostFirst (scopes : Scopes) : List DictId :=
  scopes.opened ++ [scopes.user, scopes.system]

/-- The dictionary that definitions go to. -/
def top (scopes : Scopes) : DictId :=
  scopes.opened.head?.getD scopes.user

/-- Number of dictionaries. -/
def depth (scopes : Scopes) : Nat :=
  scopes.opened.length + 2

/-- Opens a dictionary as the innermost one. -/
def push (id : DictId) (scopes : Scopes) : Scopes :=
  { scopes with opened := id :: scopes.opened }

/-- Closes the innermost opened dictionary; the two at the bottom stay. -/
def close (scopes : Scopes) : Option (DictId × Scopes) :=
  match scopes.opened with
  | [] => none
  | id :: rest => some (id, { scopes with opened := rest })

/-- The innermost dictionary that knows a name. -/
def whereDefined? (scopes : Scopes) (store : Store) (name : Name) : Option DictId :=
  scopes.innermostFirst.find? fun id => (store.dictionary id).knows name

/-- Whether some dictionary knows a name. -/
def knows (scopes : Scopes) (store : Store) (name : Name) : Bool :=
  scopes.innermostFirst.any fun id => (store.dictionary id).knows name

/-- The innermost binding of a name, which is read by this. -/
def lookup (scopes : Scopes) (store : Store) (name : Name) : Option (Token × Store) :=
  scopes.innermostFirst.findSome? fun id =>
    (store.slot? id name).map fun slot => (slot.token, store.touch id name)

/-- What a look-up finds is where the name is defined. -/
theorem lookup_eq (scopes : Scopes) (store : Store) (name : Name) :
    scopes.lookup store name = (scopes.whereDefined? store name).bind fun id =>
      (store.slot? id name).map fun slot => (slot.token, store.touch id name) := by
  rw [lookup, whereDefined?]
  induction scopes.innermostFirst with
  | nil => rfl
  | cons id outer ih =>
    have hknows : (store.dictionary id).knows name = (store.slot? id name).isSome := rfl
    rw [List.findSome?_cons, List.find?_cons, hknows]
    cases hslot : store.slot? id name with
    | none => exact ih
    | some slot => simp only [Option.map_some, Option.isSome_some, Option.bind_some, hslot]

/-- Empties all dictionaries, the innermost first. -/
def clearAll (scopes : Scopes) (store : Store) : Store :=
  scopes.innermostFirst.foldl (fun store id => store.clear id) store

end Scopes

end StackLang
