import StackLang.Store.Write

/-!
# Which entries were read

A caller who hands over a dictionary of settings wants to know which of them
nobody looked at.  An entry that was read and owns a dictionary stands for the
entries of that dictionary, whose names are qualified with its own.
-/

namespace StackLang.Store

/-- The names found so far, and the dictionaries visited. -/
structure Missed where
  names : List String := []
  visited : List DictId := []

/-- Collects the unread names of a dictionary with `qualifier` in front of them.
A dictionary is visited once; `depth` bounds the nesting. -/
def collectUnread (store : Store) : Nat → String → DictId → Missed → Missed
  | 0, _, _, missed => missed
  | depth + 1, qualifier, id, missed =>
    if missed.visited.contains id then missed
    else
      (store.dictionary id).entries.foldl
        (fun missed entry =>
          let qualified := qualifier ++ entry.1.text
          if !entry.2.accessed then { missed with names := missed.names ++ [qualified] }
          else
            match entry.2.token.ownedDictionary? with
            | none => missed
            | some inner => store.collectUnread depth (qualified ++ "::") inner missed)
        { missed with visited := id :: missed.visited }

/-- The names never read, of a dictionary and of those it owns under read names. -/
def unread (store : Store) (id : DictId) : List String :=
  (store.collectUnread (store.dictionaries.size + 1) "" id {}).names

/-- Whether every name was read. -/
def allRead (store : Store) (id : DictId) : Bool :=
  (store.unread id).isEmpty

/-- Marks the entries of every dictionary reached from one as not read. -/
def forgetReads (id : DictId) (store : Store) : Store :=
  (store.reachable id).foldl
    (fun store other => store.modifyDictionary other Dictionary.forgetReads) store

end StackLang.Store
