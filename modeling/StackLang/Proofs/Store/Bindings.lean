import Mathlib
import StackLang.Proofs.Control.Agreement
import StackLang.Proofs.Store.RoundTrip

/-!
# What names are bound to

Reading an entry marks it, so two dictionaries with the same bindings may still differ in
their marks.  A write binds one name in one dictionary.  As long as nothing is written
over a read-only binding and only one dictionary is written at all, everything else stays
bound as it was.
-/

namespace StackLang

namespace Dictionary

variable {dictionary : Dictionary} {name other : Name}

/-- The names and what they are bound to, in order, whether they were read or not. -/
def bindings (dictionary : Dictionary) : List (Name × Token) :=
  dictionary.entries.map fun entry => (entry.1, entry.2.token)

theorem peek?_eq_lookup : dictionary.peek? name = dictionary.bindings.lookup name := by
  simp only [peek?, get?, bindings]
  induction dictionary.entries with
  | nil => rfl
  | cons entry rest ih =>
    obtain ⟨other, slot⟩ := entry
    rw [List.map_cons, List.lookup_cons, List.lookup_cons]
    cases name == other with
    | true => rfl
    | false => exact ih

@[simp]
theorem bindings_touch : (dictionary.touch name).bindings = dictionary.bindings := by
  simp only [touch, modify, mapSlots, bindings, List.map_map]
  refine List.map_congr_left fun entry _ => ?_
  by_cases h : entry.1 = name <;> simp [h, Slot.markRead]

theorem get?_modify_ne (f : Slot → Slot) (hne : other ≠ name) :
    (dictionary.modify name f).get? other = dictionary.get? other := by
  simp only [get?, modify, mapSlots]
  induction dictionary.entries with
  | nil => rfl
  | cons entry rest ih =>
    obtain ⟨known, slot⟩ := entry
    rw [List.map_cons, List.lookup_cons, List.lookup_cons]
    cases hknown : other == known with
    | true =>
      obtain rfl := eq_of_beq hknown
      simp [hne]
    | false => exact ih

theorem peek?_insert_ne (token : Token) (hne : other ≠ name) :
    (dictionary.insert name token).peek? other = dictionary.peek? other := by
  unfold peek? insert
  split
  case isTrue =>
    have hlast : List.lookup other [(name, ({ token } : Slot))] = none := by
      rw [List.lookup_cons, beq_false_of_ne hne]
      rfl
    rw [get?, List.lookup_append, hlast, Option.or_none, get?]
  case isFalse => rw [get?_modify_ne _ hne]

end Dictionary

namespace Store

variable {store next last : Store} {top id : DictId} {name : Name} {token : Token}

/-- The overload tables are the same, and so are the bindings of all dictionaries but one;
of that one at least those that are read-only. -/
structure Spares (top : DictId) (store next : Store) : Prop where
  tables : next.tables = store.tables
  others : ∀ id ≠ top, (next.dictionary id).bindings = (store.dictionary id).bindings
  readOnly : ∀ id name bound, (store.dictionary id).peek? name = some bound →
    bound.isReadOnly → (next.dictionary id).peek? name = some bound

theorem Spares.refl (top : DictId) (store : Store) : Spares top store store :=
  ⟨rfl, fun _ _ => rfl, fun _ _ _ hbound _ => hbound⟩

theorem Spares.trans (hnext : Spares top store next) (hlast : Spares top next last) :
    Spares top store last where
  tables := hlast.tables.trans hnext.tables
  others := fun id hid => (hlast.others id hid).trans (hnext.others id hid)
  readOnly := fun id name bound hbound hread =>
    hlast.readOnly id name bound (hnext.readOnly id name bound hbound hread) hread

theorem spares_of_bindings (htables : next.tables = store.tables)
    (hbindings : ∀ id, (next.dictionary id).bindings = (store.dictionary id).bindings) :
    Spares top store next where
  tables := htables
  others := fun id _ => hbindings id
  readOnly := fun id name bound hbound _ => by
    rw [Dictionary.peek?_eq_lookup] at hbound ⊢
    rwa [hbindings]

theorem spares_of_quiet (hquiet : next.quiet = store.quiet) : Spares top store next := by
  have htables : next.quiet.tables = store.quiet.tables := by rw [hquiet]
  have hdictionary : ∀ id, next.quiet.dictionary id = store.quiet.dictionary id := by
    intro id
    rw [hquiet]
  exact spares_of_bindings htables fun id => congrArg Dictionary.bindings (hdictionary id)

theorem spares_touch : Spares top store (store.touch id name) := by
  refine spares_of_bindings rfl fun other => ?_
  by_cases hother : other = id
  · subst hother
    by_cases hlt : other.index < store.dictionaries.size
    · rw [touch, dictionary_modifyDictionary_self _ hlt, Dictionary.bindings_touch]
    · simp [touch, dictionary, modifyDictionary, Nat.le_of_not_lt hlt]
  · rw [touch, dictionary_modifyDictionary_ne _ hother]

/-- A write that does not hit a read-only binding spares them all. -/
theorem spares_insert
    (hwriteable : ∀ bound, (store.dictionary top).peek? name = some bound → ¬ bound.isReadOnly) :
    Spares top store (store.insert top name token) where
  tables := tables_insert
  others := fun id hid => by rw [dictionary_insert_ne hid]
  readOnly := fun id other bound hbound hread => by
    by_cases hid : id = top
    · subst hid
      have hname : other ≠ name := by
        rintro rfl
        exact hwriteable bound hbound hread
      by_cases hlt : id.index < store.dictionaries.size
      · rw [dictionary_insert_self hlt, Dictionary.peek?_insert_ne _ hname, hbound]
      · rw [dictionary_eq_empty (by simpa using hlt)] at hbound
        simp [Dictionary.empty, Dictionary.peek?, Dictionary.get?] at hbound
    · rw [dictionary_insert_ne hid, hbound]

end Store

end StackLang
