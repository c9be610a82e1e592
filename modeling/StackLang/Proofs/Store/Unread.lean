import StackLang.Proofs.Store.Following

/-!
# The report on unread names

The report looks at the flags of the slots.  What it says depends only on what was done with
the dictionary, operation by operation: the unread names are those that are there and were
not read since their token was stored and since the reads were last forgotten.
-/

namespace StackLang

open Usage (ReadSince present)

namespace Store

variable {store : Store} {id : DictId} {history : List Usage}

/-- In a dictionary without dictionaries in it, the unread names are those whose slots are
not marked. -/
theorem names_collectUnread {depth : Nat} {missed : Missed}
    (hnone : (store.dictionary id).OwnsNothing) (hnew : id ∉ missed.visited) :
    (store.collectUnread (depth + 1) "" id missed).names = missed.names ++
      ((store.dictionary id).entries.filter fun entry => !entry.2.accessed).map
        fun entry => entry.1.text := by
  rw [collectUnread, if_neg (by simpa using hnew)]
  rw [Dictionary.OwnsNothing] at hnone
  generalize (store.dictionary id).entries = entries at hnone
  generalize id :: missed.visited = visited
  generalize missed.names = names
  induction entries generalizing names with
  | nil => simp
  | cons entry rest ih =>
    have hrest := ih fun later hlater => hnone later (by simp [hlater])
    rw [List.foldl_cons, List.filter_cons]
    split
    · rw [hrest]
      simp
    · rw [hnone entry (by simp)]
      exact hrest names

theorem Follows.unread_eq (hfollows : store.Follows id history) :
    store.unread id =
      ((present history).filter fun name => ¬ ReadSince history name).map Name.text := by
  have hmarks : ∀ entry ∈ (store.dictionary id).entries,
      (!entry.2.accessed) = decide (¬ ReadSince history entry.1) := by
    intro entry hentry
    simp [← hfollows.dictionary.marks entry hentry]
  rw [unread, names_collectUnread hfollows.dictionary.ownsNothing (by simp),
    List.filter_congr hmarks, ← hfollows.dictionary.names, Dictionary.names, List.filter_map,
    List.map_map]
  rfl

end Store

/-! ## Using a dictionary -/

/-- What somebody does with a dictionary, or meanwhile with others. -/
inductive DictionaryUse where
  | insert (name : Name) (token : Token)
  | newArray (name : Name)
  /-- Opens a slot and does not write through it. -/
  | openSlot (name : Name)
  /-- Opens a slot and puts another token there. -/
  | writeSlot (name : Name) (token : Token)
  /-- Opens a slot and changes what is in the token there. -/
  | editSlot (name : Name) (token : Token)
  | fetch (name : Name)
  /-- Fetches an entry and puts another token there. -/
  | replace (name : Name) (token : Token)
  /-- Fetches an entry and changes what is in the token there. -/
  | edit (name : Name) (token : Token)
  | read (name : Name)
  | readAs (alive : DictId → Bool) (kind : Kind) (name : Name)
  | update (alive : DictId → Bool) (kind : Kind) (name : Name) (value : kind.Carrier)
  | append (name : Name) (token : Token)
  | accumulate (name : Name) (values : List Float)
  | remove (name : Name)
  | mergeFrom (source : DictId)
  | mergeInto (target : DictId)
  | forgetReads
  /-- Only looks: whether a name is known, what it is bound to, which entries there are, how
  the dictionary is rendered.  All of this is computed from the store and leaves it as it
  is. -/
  | look
  /-- Anything else that leaves this dictionary as it is. -/
  | elsewhere (change : Store → Store)

namespace DictionaryUse

/-- What a use does to the store, whether it succeeds or fails. -/
def apply (id : DictId) : DictionaryUse → Store → Store
  | insert name token, store => store.insert id name token
  | newArray name, store => store.initializeArray id name
  | openSlot name, store => (store.slotToken id name).2
  | writeSlot name token, store => (store.slotToken id name).2.writeSlot id name token
  | editSlot name token, store => (store.slotToken id name).2.setToken id name token
  | fetch name, store => (Store.read? id name).after store
  | replace name token, store => (Store.readAndReplace id name token).after store
  | edit name token, store => ((Store.read? id name).after store).setToken id name token
  | read name, store => (Store.read id name).after store
  | readAs alive kind name, store => (Store.readAs alive kind id name).after store
  | update alive kind name value, store => (Store.updateWith alive kind id name value store).2.2
  | append name token, store => (Store.appendToArray id name token).after store
  | accumulate name values, store => (Store.accumulate id name values).after store
  | remove name, store => store.remove id name
  | mergeFrom source, store => (store.merge source id).toOption.getD store
  | mergeInto target, store => (store.merge id target).toOption.getD store
  | forgetReads, store => store.forgetReads id
  | look, store => store
  | elsewhere change, store => change store

/-- What a use means for the history of the dictionary. -/
def usage (id : DictId) : DictionaryUse → Store → List Usage
  | insert name _, _ => [.stored name]
  | newArray name, store => store.openUsage id name
  | openSlot name, store => store.openUsage id name
  | writeSlot name _, store => store.openUsage id name ++ [.stored name]
  | editSlot name _, store => store.openUsage id name
  | fetch name, store => store.readUsage id name
  | replace name _, store => store.replaceUsage id name
  | edit name _, store => store.readUsage id name
  | read name, store => store.readUsage id name
  | readAs _ _ name, store => store.readUsage id name
  | update _ _ name _, store => store.updateUsage id name
  | append name _, store => store.readUsage id name
  | accumulate name _, store => store.readUsage id name
  | remove name, _ => [.removed name]
  | mergeFrom source, store => store.mergeUsage source id
  | mergeInto _, _ => []
  | forgetReads, _ => [.forgotten]
  | look, _ => []
  | elsewhere _, _ => []

/-- No use brings a dictionary into this one, and what happens elsewhere does not touch it. -/
def Permitted (id : DictId) : DictionaryUse → Store → Prop
  | insert _ token, _ | writeSlot _ token, _ | editSlot _ token, _ | replace _ token, _
  | edit _ token, _ => token.ownedDictionary? = none
  | mergeFrom source, store => (store.dictionary source).OwnsNothing
  | elsewhere change, store =>
    (change store).dictionary id = store.dictionary id ∧
      id.index < (change store).dictionaries.size
  | newArray _, _ | openSlot _, _ | fetch _, _ | read _, _ | readAs .., _ | update .., _
  | append .., _ | accumulate .., _ | remove _, _ | mergeInto _, _ | forgetReads, _ | look, _ =>
    True

/-- What uses do one after the other. -/
def applyAll (id : DictId) (uses : List DictionaryUse) (store : Store) : Store :=
  uses.foldl (fun store use => use.apply id store) store

/-- The history that uses make. -/
def history (id : DictId) : List DictionaryUse → Store → List Usage
  | [], _ => []
  | use :: rest, store => use.usage id store ++ history id rest (use.apply id store)

/-- Every use is permitted where it comes. -/
def AllPermitted (id : DictId) : List DictionaryUse → Store → Prop
  | [], _ => True
  | use :: rest, store => use.Permitted id store ∧ AllPermitted id rest (use.apply id store)

variable {store : Store} {id : DictId} {use : DictionaryUse} {uses : List DictionaryUse}
  {events : List Usage}

theorem follows_apply (hfollows : store.Follows id events) (hpermitted : use.Permitted id store) :
    (use.apply id store).Follows id (events ++ use.usage id store) := by
  cases use with
  | insert name token => exact hfollows.insert hpermitted
  | newArray name => exact hfollows.initializeArray
  | openSlot name => exact hfollows.openSlot
  | writeSlot name token =>
    have hopened : (store.openSlot id name).Follows id (events ++ store.openUsage id name) :=
      hfollows.openSlot
    have hwritten := hopened.writeSlot (Store.knows_openSlot hfollows.lt) hpermitted
    rw [List.append_assoc] at hwritten
    exact hwritten
  | editSlot name token => exact hfollows.openSlot.setToken hpermitted
  | fetch name => exact hfollows.fetch
  | replace name token => exact hfollows.replace hpermitted
  | edit name token => exact hfollows.fetch.setToken hpermitted
  | read name => exact hfollows.read
  | readAs alive kind name => exact hfollows.readAs
  | update alive kind name value => exact hfollows.updateWith
  | append name token => exact hfollows.appendToArray
  | accumulate name values => exact hfollows.accumulate
  | remove name => exact hfollows.remove
  | mergeFrom source => exact hfollows.mergeFrom hpermitted
  | mergeInto target => exact (List.append_nil events).symm ▸ hfollows.mergeInto
  | forgetReads => exact hfollows.forgetReads
  | look => exact (List.append_nil events).symm ▸ hfollows
  | elsewhere change =>
    have hsame := hfollows.of_dictionary_eq hpermitted.2 hpermitted.1
    exact (List.append_nil events).symm ▸ hsame

theorem follows_applyAll (hfollows : store.Follows id events)
    (hpermitted : AllPermitted id uses store) :
    (applyAll id uses store).Follows id (events ++ history id uses store) := by
  induction uses generalizing store events with
  | nil => exact (List.append_nil events).symm ▸ hfollows
  | cons use rest ih =>
    have hrest := ih (follows_apply hfollows hpermitted.1) hpermitted.2
    rw [List.append_assoc] at hrest
    exact hrest

/-- Whatever is done with a new dictionary, as long as no dictionary comes into it, the
history determines its names and which of them are reported as unread. -/
theorem unread_applyAll (id : DictId) (uses : List DictionaryUse) (store : Store)
    (hlt : id.index < store.dictionaries.size) (hempty : store.dictionary id = .empty)
    (hpermitted : AllPermitted id uses store) :
    let events := history id uses store
    let later := applyAll id uses store
    (later.dictionary id).names = present events ∧
      later.unread id =
        ((present events).filter fun name => ¬ ReadSince events name).map Name.text := by
  have hnew : store.Follows id [] := ⟨hlt, hempty ▸ Dictionary.follows_empty⟩
  have hfollows := follows_applyAll hnew hpermitted
  exact ⟨hfollows.dictionary.names, hfollows.unread_eq⟩

/-- A reading that fails counts, one of a void entry by an update does not, and what is
stored or merged in later is unread again. -/
theorem unread_applyAll_mixed :
    (applyAll ⟨0⟩
      [.insert "a" (.integer 1), .insert "b" (.integer 2), .openSlot "c", .mergeFrom ⟨1⟩,
        .readAs (fun _ => true) .string "a", .update (fun _ => true) .integer "c" 0, .fetch "b",
        .fetch "d", .insert "b" (.integer 3), .look]
      { dictionaries := #[.empty, Dictionary.empty.insert "d" (.integer 4)] }).unread ⟨0⟩ =
      ["b", "c"] := by
  refine (unread_applyAll ⟨0⟩ _ _ (by decide) rfl ?_).2.trans (by decide)
  refine ⟨rfl, rfl, trivial, ?_, trivial, trivial, trivial, trivial, rfl, trivial, trivial⟩
  intro entry hentry
  obtain rfl := List.mem_singleton.1 hentry
  rfl

end DictionaryUse

end StackLang
