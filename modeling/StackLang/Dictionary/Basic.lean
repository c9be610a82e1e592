import StackLang.Token.Slot

/-!
# Dictionaries

A dictionary maps names to slots and remembers the order in which the names
came.  Writing a known name keeps its place; removing a name closes the gap.  No
name occurs twice, so what a name is bound to does not depend on the order.
-/

namespace StackLang

/-- An ordered mapping from names to slots. -/
structure Dictionary where
  entries : List (Name × Slot) := []
  names_nodup : (entries.map Prod.fst).Nodup := by simp

namespace Dictionary

/-- A dictionary without entries. -/
def empty : Dictionary := {}

instance : Inhabited Dictionary := ⟨empty⟩

instance : EmptyCollection Dictionary := ⟨empty⟩

/-- The names in the order in which they came. -/
def names (dictionary : Dictionary) : List Name :=
  dictionary.entries.map Prod.fst

/-- Number of entries. -/
def size (dictionary : Dictionary) : Nat :=
  dictionary.entries.length

/-- Whether there are no entries. -/
def isEmpty (dictionary : Dictionary) : Bool :=
  dictionary.entries.isEmpty

/-- The slot of a name. -/
def get? (dictionary : Dictionary) (name : Name) : Option Slot :=
  dictionary.entries.lookup name

/-- The token of a name; looking at it does not count as reading. -/
def peek? (dictionary : Dictionary) (name : Name) : Option Token :=
  (dictionary.get? name).map Slot.token

/-- Whether a name has an entry. -/
def knows (dictionary : Dictionary) (name : Name) : Bool :=
  (dictionary.get? name).isSome

/-- The tokens in the order of their names. -/
def tokens (dictionary : Dictionary) : List Token :=
  dictionary.entries.map fun entry => entry.2.token

/-- Changes every slot. -/
def mapSlots (f : Name → Slot → Slot) (dictionary : Dictionary) : Dictionary where
  entries := dictionary.entries.map fun entry => (entry.1, f entry.1 entry.2)
  names_nodup := by
    simpa [List.map_map, Function.comp_def] using dictionary.names_nodup

/-- Changes the slot of one name, if it has one. -/
def modify (name : Name) (f : Slot → Slot) (dictionary : Dictionary) : Dictionary :=
  dictionary.mapSlots fun other slot => if other = name then f slot else slot

theorem get?_eq_none_iff {dictionary : Dictionary} {name : Name} :
    dictionary.get? name = none ↔ name ∉ dictionary.names := by
  rw [get?, List.lookup_eq_none_iff, names, List.mem_map]
  constructor
  · rintro hnone ⟨entry, hmem, rfl⟩
    exact absurd rfl (bne_iff_ne.1 (hnone entry hmem))
  · intro habsent entry hmem
    exact bne_iff_ne.2 fun heq => habsent ⟨entry, hmem, heq.symm⟩

/-- Binds a name to a token that nobody has read.  A new name goes to the end. -/
def insert (name : Name) (token : Token) (dictionary : Dictionary) : Dictionary :=
  if h : dictionary.get? name = none then
    { entries := dictionary.entries ++ [(name, { token })]
      names_nodup := by
        rw [List.map_append, List.nodup_append]
        refine ⟨dictionary.names_nodup, by simp, ?_⟩
        intro left hleft right hright heq
        simp only [List.map_cons, List.map_nil, List.mem_singleton] at hright
        exact get?_eq_none_iff.1 h (hright ▸ heq ▸ hleft) }
  else dictionary.modify name fun _ => { token }

/-- Removes a name. -/
def erase (name : Name) (dictionary : Dictionary) : Dictionary where
  entries := dictionary.entries.filter fun entry => entry.1 != name
  names_nodup := dictionary.names_nodup.sublist ((List.filter_sublist).map Prod.fst)

/-- Marks the entry of a name as read. -/
def touch (name : Name) (dictionary : Dictionary) : Dictionary :=
  dictionary.modify name Slot.markRead

/-- Marks every entry as not read. -/
def forgetReads (dictionary : Dictionary) : Dictionary :=
  dictionary.mapSlots fun _ slot => slot.markUnread

/-- The entries sorted by name for a table. -/
def sortedEntries (dictionary : Dictionary) : List (Name × Slot) :=
  dictionary.entries.mergeSort fun left right => left.1.precedes right.1

@[simp]
theorem names_mapSlots (f : Name → Slot → Slot) (dictionary : Dictionary) :
    (dictionary.mapSlots f).names = dictionary.names := by
  simp [names, mapSlots, Function.comp_def]

@[simp]
theorem names_modify (name : Name) (f : Slot → Slot) (dictionary : Dictionary) :
    (dictionary.modify name f).names = dictionary.names := by
  simp [modify]

@[simp]
theorem names_touch (name : Name) (dictionary : Dictionary) :
    (dictionary.touch name).names = dictionary.names := by
  simp [touch]

@[simp]
theorem names_forgetReads (dictionary : Dictionary) :
    dictionary.forgetReads.names = dictionary.names := by
  simp [forgetReads]

end Dictionary

end StackLang
