import StackLang.Dictionary.Basic
import StackLang.OverloadTree
import StackLang.Token.Ownership

/-!
# The store of shared objects

Dictionaries and overload tables are shared between the tokens that refer to
them, so they live in a store and are known by number.  Procedure bodies never
change, so only their numbers are given out here.  Numbers are never used twice.
The store also keeps the journal of what was reported.

Objects that nobody keeps alive stay in the store: whether one is alive is a
question about the handles that are left, not about the store's contents.
-/

namespace StackLang

/-- Dictionaries and overload tables by number, and the journal, latest first. -/
structure Store where
  dictionaries : Array Dictionary := #[]
  tables : Array OverloadTree := #[]
  /-- How many procedure bodies were made. -/
  bodies : Nat := 0
  journal : List Event := []
  deriving Inhabited

namespace Store

/-- The dictionary with a number; an unused number has no entries. -/
def dictionary (store : Store) (id : DictId) : Dictionary :=
  store.dictionaries[id.index]?.getD .empty

/-- The overload tree with a number; an unused number has no overloads. -/
def table (store : Store) (id : TableId) : OverloadTree :=
  store.tables[id.index]?.getD .empty

/-- Reports an event. -/
def report (event : Event) (store : Store) : Store :=
  { store with journal := event :: store.journal }

/-- Reports events given in the order in which they happened. -/
def reportAll (events : List Event) (store : Store) : Store :=
  events.foldl (fun store event => store.report event) store

/-- Changes one dictionary. -/
def modifyDictionary (id : DictId) (f : Dictionary → Dictionary) (store : Store) : Store :=
  { store with dictionaries := store.dictionaries.modify id.index f }

/-- Replaces one overload tree. -/
def setTable (id : TableId) (tree : OverloadTree) (store : Store) : Store :=
  { store with tables := store.tables.setIfInBounds id.index tree }

/-- Makes an empty dictionary. -/
def newDictionary (store : Store) : DictId × Store :=
  (⟨store.dictionaries.size⟩, { store with dictionaries := store.dictionaries.push .empty })

/-- Makes an empty overload table. -/
def newTable (store : Store) : TableId × Store :=
  (⟨store.tables.size⟩, { store with tables := store.tables.push .empty })

/-- Makes a number for a procedure body. -/
def newBody (store : Store) : BodyId × Store :=
  (⟨store.bodies⟩, { store with bodies := store.bodies + 1 })

/-- Every shared object that was ever made. -/
def objects (store : Store) : List SharedObject :=
  (List.range store.dictionaries.size).map (fun i => .dictionary ⟨i⟩) ++
    (List.range store.tables.size).map (fun i => .table ⟨i⟩)

/-- The tokens inside a shared object. -/
def contents (store : Store) : SharedObject → List Token
  | .dictionary id => (store.dictionary id).tokens
  | .table id => (store.table id).functions

/-- The slot of a name in a dictionary. -/
def slot? (store : Store) (id : DictId) (name : Name) : Option Slot :=
  (store.dictionary id).get? name

/-- Marks an entry as read. -/
def touch (id : DictId) (name : Name) (store : Store) : Store :=
  store.modifyDictionary id (Dictionary.touch name)

/-- Adds an overload to a table; a refusal leaves it unchanged and is reported. -/
def addOverload (id : TableId) (signature : Signature) (function : Token) (store : Store) :
    Except Fault (Bool × Store) := do
  let (tree, accepted, events) ← (store.table id).insert signature function
  return (accepted, (store.setTable id tree).reportAll events)

@[simp]
theorem dictionaries_report (event : Event) (store : Store) :
    (store.report event).dictionaries = store.dictionaries := rfl

@[simp]
theorem tables_report (event : Event) (store : Store) :
    (store.report event).tables = store.tables := rfl

@[simp]
theorem dictionary_report (event : Event) (store : Store) (id : DictId) :
    (store.report event).dictionary id = store.dictionary id := rfl

@[simp]
theorem dictionary_modifyDictionary_ne {store : Store} {id other : DictId}
    (f : Dictionary → Dictionary) (h : other ≠ id) :
    (store.modifyDictionary id f).dictionary other = store.dictionary other := by
  have hne : id.index ≠ other.index := by
    intro heq
    apply h
    cases id
    cases other
    simp_all
  simp [dictionary, modifyDictionary, Array.getElem?_modify, hne]

theorem dictionary_modifyDictionary_self {store : Store} {id : DictId}
    (f : Dictionary → Dictionary) (h : id.index < store.dictionaries.size) :
    (store.modifyDictionary id f).dictionary id = f (store.dictionary id) := by
  simp [dictionary, modifyDictionary, h, Array.getElem_modify_self]

/-- A new dictionary is as empty as an unused number. -/
theorem dictionary_newDictionary (store : Store) (id : DictId) :
    store.newDictionary.2.dictionary id = store.dictionary id := by
  rw [newDictionary, dictionary, dictionary, Array.getElem?_push]
  split
  case isTrue hid =>
    rw [Array.getElem?_eq_none (Nat.le_of_eq hid.symm)]
    rfl
  case isFalse => rfl

/-- A new table is as empty as an unused number. -/
theorem table_newTable (store : Store) (id : TableId) :
    store.newTable.2.table id = store.table id := by
  rw [newTable, table, table, Array.getElem?_push]
  split
  case isTrue hid =>
    rw [Array.getElem?_eq_none (Nat.le_of_eq hid.symm)]
    rfl
  case isFalse => rfl

theorem reportAll_eq (events : List Event) (store : Store) :
    store.reportAll events = { store with journal := events.reverse ++ store.journal } := by
  induction events generalizing store with
  | nil => rfl
  | cons event rest ih => simp [reportAll, report] at ih ⊢; exact ih _

theorem table_setTable_self {store : Store} {id : TableId} (tree : OverloadTree)
    (hlt : id.index < store.tables.size) : (store.setTable id tree).table id = tree := by
  simp [table, setTable, hlt]

theorem table_setTable_ne {store : Store} {id other : TableId} (tree : OverloadTree)
    (hne : other ≠ id) : (store.setTable id tree).table other = store.table other := by
  have hindex : id.index ≠ other.index := fun heq => hne (by cases id; cases other; simp_all)
  rw [table, setTable, Array.getElem?_setIfInBounds_ne hindex, table]

/-- What a replacement leaves in a table is the new tree or the old one. -/
theorem table_setTable (store : Store) (id other : TableId) (tree : OverloadTree) :
    (store.setTable id tree).table other = tree ∨
      (store.setTable id tree).table other = store.table other := by
  by_cases hid : other = id
  · subst hid
    by_cases hlt : other.index < store.tables.size
    · exact .inl (table_setTable_self tree hlt)
    · exact .inr (by simp [table, setTable, hlt])
  · exact .inr (table_setTable_ne tree hid)

/-- A request for an overload is put to its tree, and nothing else changes. -/
theorem addOverload_eq_ok {store added : Store} {id : TableId} {signature : Signature}
    {function : Token} {accepted : Bool}
    (hadd : store.addOverload id signature function = .ok (accepted, added)) :
    ∃ tree events, (store.table id).insert signature function = .ok (tree, accepted, events) ∧
      added = (store.setTable id tree).reportAll events := by
  rw [addOverload] at hadd
  cases hinsert : (store.table id).insert signature function with
  | error fault =>
    rw [hinsert] at hadd
    cases hadd
  | ok answer =>
    rw [hinsert] at hadd
    cases hadd
    exact ⟨_, _, rfl, rfl⟩

end Store

end StackLang
