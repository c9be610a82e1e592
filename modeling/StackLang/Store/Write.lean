import StackLang.Store.Ownership

/-!
# Writing dictionaries

Storing a dictionary where it would come to own itself stores an alias instead,
and so does every other write except the one through a raw slot.  Clearing a
dictionary clears what it owns; merging copies all entries or none.
-/

namespace StackLang.Store

/-- The dictionary that a token brings into `target`, if it reaches `target`. -/
def cycleThrough? (store : Store) (target : DictId) (token : Token) : Option DictId :=
  token.ownedDictionary?.filter fun id => store.reaches id target

/-- Binds a name in a dictionary.  A dictionary that reaches back is stored as an
alias, which is reported. -/
def insert (target : DictId) (name : Name) (token : Token) (store : Store) : Store :=
  match store.cycleThrough? target token with
  | none => store.modifyDictionary target (Dictionary.insert name token)
  | some id =>
    let aliased := token.mapValue fun _ => .dictionary (.aliased id)
    (store.report .cycleStoredAsAlias).modifyDictionary target (Dictionary.insert name aliased)

/-- Makes sure that a name has an entry, void if it is new, as a slot to be
written through. -/
def openSlot (target : DictId) (name : Name) (store : Store) : Store :=
  if (store.dictionary target).knows name then store
  else store.modifyDictionary target (Dictionary.insert name .void)

/-- Replaces what is in a slot without a check for cycles. -/
def writeSlot (target : DictId) (name : Name) (token : Token) (store : Store) : Store :=
  store.modifyDictionary target (Dictionary.modify name fun _ => { token })

/-- Removes a name from a dictionary. -/
def remove (target : DictId) (name : Name) (store : Store) : Store :=
  store.modifyDictionary target (Dictionary.erase name)

/-- Empties a dictionary and, entry by entry, the dictionaries that it owns.
`path` leads here; a dictionary on it is being cleared already, so it is left to
the one who does that.  `depth` bounds the length of the path. -/
def clearWithin : Nat → List DictId → DictId → Store → Store
  | 0, _, _, store => store
  | depth + 1, path, id, store =>
    let entries := (store.dictionary id).entries
    entries.foldl
      (fun store entry =>
        match entry.2.token.ownedDictionary? with
        | none => store
        | some inner =>
          if inner = id then store
          else if path.contains inner then store.report (.notClearedInUse entry.1)
          else clearWithin depth (id :: path) inner store)
      (store.modifyDictionary id fun _ => .empty)

/-- Empties a dictionary and every dictionary that it owns.  A path without
repetition is no longer than there are dictionaries. -/
def clear (id : DictId) (store : Store) : Store :=
  store.clearWithin (store.dictionaries.size + 1) [] id

/-- The first name of `source` that `target` knows. -/
def firstCollision? (store : Store) (source target : DictId) : Option Name :=
  (store.dictionary source).names.find? (store.dictionary target).knows

/-- Copies all entries of a dictionary into another one. -/
def copyEntries (source target : DictId) (store : Store) : Store :=
  (store.dictionary source).entries.foldl
    (fun store entry => store.insert target entry.1 entry.2.token) store

/-- Merges `source` into `target`, which must not know any of its names. -/
def merge (source target : DictId) (store : Store) : Except Error Store :=
  match store.firstCollision? source target with
  | some name => .error (.undefinedName name.text)
  | none => .ok (store.copyEntries source target)

/-- Removes the names of `source` from `target`. -/
def unmerge (source target : DictId) (store : Store) : Store :=
  (store.dictionary source).names.foldl (fun store name => store.remove target name) store

end StackLang.Store
