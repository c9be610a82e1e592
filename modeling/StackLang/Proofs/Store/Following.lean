import StackLang.Proofs.Store.Bindings
import StackLang.Store.Usage

/-!
# Dictionaries and their histories

A history tells under which names tokens were stored in a dictionary, which of them were
read or removed, and when all reads were forgotten.  It determines the names that are there
and which of them count as read.

A dictionary follows a history if its names and the flags of its slots say the same.  Each
operation on the dictionary adds to the history what it did, in whatever state it found the
flags, and has one law here.
-/

namespace StackLang

/-! ## Histories -/

/-- An event in the life of a dictionary. -/
inductive Usage where
  | stored (name : Name)
  | read (name : Name)
  | removed (name : Name)
  | forgotten
  deriving DecidableEq, Repr

namespace Usage

variable {history : List Usage} {event : Usage} {name : Name}

/-- The names that are there after an event.  A name that comes goes to the end, and one
that is stored again keeps its place. -/
def namesAfter (names : List Name) : Usage → List Name
  | stored name => if name ∈ names then names else names ++ [name]
  | removed name => names.filter (· != name)
  | read _ | forgotten => names

/-- The names that are there after a history, in the order in which they came. -/
def present (history : List Usage) : List Name :=
  history.foldl namesAfter []

/-- A name was read, and since then neither was a token stored under it nor were the reads
forgotten. -/
def ReadSince (history : List Usage) (name : Name) : Prop :=
  ∃ before after, history = before ++ read name :: after ∧ stored name ∉ after ∧
    forgotten ∉ after

/-- Whether a name counts as read after an event, given whether it did before. -/
def readAfter (name : Name) (seen : Bool) : Usage → Bool
  | stored other => seen && other != name
  | read other => seen || other == name
  | removed _ => seen
  | forgotten => false

theorem present_concat : present (history ++ [event]) = namesAfter (present history) event := by
  rw [present, List.foldl_append, List.foldl_cons, List.foldl_nil, present]

theorem readSince_concat :
    ReadSince (history ++ [event]) name ↔
      event = read name ∨ ReadSince history name ∧ event ≠ stored name ∧ event ≠ forgotten := by
  constructor
  · rintro ⟨before, after, heq, hstored, hforgotten⟩
    obtain rfl | ⟨rest, last, rfl⟩ := List.eq_nil_or_concat' after
    · exact .inl (List.singleton_inj.1 (List.append_inj' heq rfl).2)
    · have hsplit : history ++ [event] = (before ++ read name :: rest) ++ [last] := by
        rw [heq]
        simp
      obtain ⟨rfl, hlast⟩ := List.append_inj' hsplit rfl
      obtain rfl := List.singleton_inj.1 hlast
      simp only [List.mem_append, List.mem_singleton, not_or] at hstored hforgotten
      exact .inr ⟨⟨before, rest, rfl, hstored.1, hforgotten.1⟩, Ne.symm hstored.2,
        Ne.symm hforgotten.2⟩
  · rintro (rfl | ⟨⟨before, after, rfl, hstored, hforgotten⟩, hother, hkept⟩)
    · exact ⟨history, [], rfl, by simp, by simp⟩
    · exact ⟨before, after ++ [event], by simp, by simp [hstored, Ne.symm hother],
        by simp [hforgotten, Ne.symm hkept]⟩

theorem readSince_iff : ReadSince history name ↔ history.foldl (readAfter name) false = true := by
  induction history using List.reverseRecOn with
  | nil => simp [ReadSince]
  | append_singleton history event ih =>
    rw [readSince_concat, ih, List.foldl_append, List.foldl_cons, List.foldl_nil]
    cases event <;> simp [readAfter, or_comm]

instance : Decidable (ReadSince history name) :=
  decidable_of_iff _ readSince_iff.symm

end Usage

open Usage (ReadSince present)

/-! ## Dictionaries that follow a history -/

namespace Dictionary

variable {dictionary : Dictionary} {history later : List Usage} {name : Name} {token : Token}

/-- No entry is a handle of a dictionary. -/
def OwnsNothing (dictionary : Dictionary) : Prop :=
  ∀ entry ∈ dictionary.entries, entry.2.token.ownedDictionary? = none

/-- The names of a dictionary without dictionaries in it are those that a history leaves,
and the flags of its slots tell what has been read. -/
structure Follows (dictionary : Dictionary) (history : List Usage) : Prop where
  names : dictionary.names = present history
  marks : ∀ entry ∈ dictionary.entries,
    (entry.2.accessed = true ↔ ReadSince history entry.1)
  ownsNothing : dictionary.OwnsNothing

theorem follows_empty : empty.Follows [] where
  names := rfl
  marks := by simp [empty]
  ownsNothing := by simp [OwnsNothing, empty]

/-- Changing slots keeps a dictionary in step with a history that goes on without names
coming or going. -/
theorem Follows.mapSlots {f : Name → Slot → Slot} (hfollows : dictionary.Follows history)
    (hpresent : present later = present history)
    (hmarks : ∀ entry ∈ dictionary.entries,
      ((f entry.1 entry.2).accessed = true ↔ ReadSince later entry.1))
    (hnone : ∀ entry ∈ dictionary.entries,
      (f entry.1 entry.2).token.ownedDictionary? = none) :
    (dictionary.mapSlots f).Follows later where
  names := by rw [names_mapSlots, hfollows.names, hpresent]
  marks := by
    intro entry hentry
    obtain ⟨old, hold, rfl⟩ := List.mem_map.1 hentry
    exact hmarks old hold
  ownsNothing := by
    intro entry hentry
    obtain ⟨old, hold, rfl⟩ := List.mem_map.1 hentry
    exact hnone old hold

theorem knows_iff : dictionary.knows name = true ↔ name ∈ dictionary.names := by
  rw [knows, Option.isSome_iff_ne_none, ne_eq, get?_eq_none_iff, not_not]

theorem Follows.touch (hfollows : dictionary.Follows history) :
    (dictionary.touch name).Follows (history ++ [.read name]) := by
  rw [Dictionary.touch, modify]
  refine hfollows.mapSlots Usage.present_concat (fun entry hentry => ?_) fun entry hentry => ?_
  · rw [Usage.readSince_concat, ← hfollows.marks entry hentry]
    by_cases hname : entry.1 = name
    · simp [hname, Slot.markRead]
    · simp [hname, Ne.symm hname]
  · have hnone := hfollows.ownsNothing entry hentry
    split
    · exact hnone
    · exact hnone

theorem Follows.forgetReads (hfollows : dictionary.Follows history) :
    dictionary.forgetReads.Follows (history ++ [.forgotten]) := by
  refine hfollows.mapSlots Usage.present_concat (fun entry hentry => ?_) hfollows.ownsNothing
  simp [Usage.readSince_concat, Slot.markUnread]

/-- Changing what is in a slot through a reference leaves the flag alone. -/
theorem Follows.withToken (hfollows : dictionary.Follows history)
    (hnone : token.ownedDictionary? = none) :
    (dictionary.modify name fun slot => slot.withToken token).Follows history := by
  refine hfollows.mapSlots rfl (fun entry hentry => ?_) fun entry hentry => ?_
  · rw [← hfollows.marks entry hentry]
    split <;> rfl
  · split
    · exact hnone
    · exact hfollows.ownsNothing entry hentry

/-- What is put into the slot of a known name is stored there. -/
theorem Follows.write (hfollows : dictionary.Follows history)
    (hknown : dictionary.knows name = true) (hnone : token.ownedDictionary? = none) :
    (dictionary.modify name fun _ => { token }).Follows (history ++ [.stored name]) := by
  have hpresent : name ∈ present history := hfollows.names ▸ knows_iff.1 hknown
  refine hfollows.mapSlots ?_ (fun entry hentry => ?_) fun entry hentry => ?_
  · rw [Usage.present_concat, Usage.namesAfter, if_pos hpresent]
  · rw [Usage.readSince_concat, ← hfollows.marks entry hentry]
    by_cases hname : entry.1 = name
    · simp [hname]
    · simp [hname, Ne.symm hname]
  · split
    · exact hnone
    · exact hfollows.ownsNothing entry hentry

theorem Follows.insert (hfollows : dictionary.Follows history)
    (hnone : token.ownedDictionary? = none) :
    (dictionary.insert name token).Follows (history ++ [.stored name]) := by
  unfold Dictionary.insert
  split
  case isFalse hknown =>
    exact hfollows.write (Option.isSome_iff_ne_none.2 hknown) hnone
  case isTrue hnew =>
    have habsent : name ∉ dictionary.names := get?_eq_none_iff.1 hnew
    refine ⟨?_, fun entry hentry => ?_, fun entry hentry => ?_⟩
    · rw [Usage.present_concat, Usage.namesAfter, if_neg (hfollows.names ▸ habsent),
        ← hfollows.names]
      simp [Dictionary.names]
    · obtain hold | hnew := List.mem_append.1 hentry
      · have hother : entry.1 ≠ name := fun heq => habsent (heq ▸ List.mem_map_of_mem hold)
        rw [Usage.readSince_concat, ← hfollows.marks entry hold]
        simp [Ne.symm hother]
      · obtain rfl := List.mem_singleton.1 hnew
        simp [Usage.readSince_concat]
    · obtain hold | hnew := List.mem_append.1 hentry
      · exact hfollows.ownsNothing entry hold
      · obtain rfl := List.mem_singleton.1 hnew
        exact hnone

theorem Follows.erase (hfollows : dictionary.Follows history) :
    (dictionary.erase name).Follows (history ++ [.removed name]) where
  names := by
    rw [Usage.present_concat, Usage.namesAfter, ← hfollows.names]
    simp [Dictionary.names, Dictionary.erase, List.filter_map, Function.comp_def]
  marks := by
    intro entry hentry
    rw [Usage.readSince_concat, ← hfollows.marks entry (List.mem_filter.1 hentry).1]
    simp
  ownsNothing := fun entry hentry => hfollows.ownsNothing entry (List.mem_filter.1 hentry).1

end Dictionary

/-! ## What each operation does to the history -/

/-- The store that an action leaves, whether it succeeds or fails. -/
def StoreAction.after {α : Type} (action : StoreAction α) (store : Store) : Store :=
  match action.run store with
  | .ok _ store => store
  | .error _ store => store

namespace Store

variable {store next : Store} {id : DictId} {history : List Usage} {name : Name} {token : Token}

/-- A dictionary of the store follows a history. -/
structure Follows (store : Store) (id : DictId) (history : List Usage) : Prop where
  lt : id.index < store.dictionaries.size
  dictionary : (store.dictionary id).Follows history

/-- Reading counts only where there is something to read. -/
def readUsage (store : Store) (id : DictId) (name : Name) : List Usage :=
  if (store.dictionary id).knows name then [.read name] else []

/-- What is put in the place of an entry that is read is stored if there was one. -/
def replaceUsage (store : Store) (id : DictId) (name : Name) : List Usage :=
  if (store.dictionary id).knows name then [.read name, .stored name] else []

/-- An update reads an entry that is there and not void. -/
def updateUsage (store : Store) (id : DictId) (name : Name) : List Usage :=
  match (store.dictionary id).peek? name with
  | some (.datum _ _) => [.read name]
  | _ => []

/-- Opening a slot stores something only where there was none. -/
def openUsage (store : Store) (id : DictId) (name : Name) : List Usage :=
  if (store.dictionary id).knows name then [] else [.stored name]

theorem Follows.of_dictionary_eq (hfollows : store.Follows id history)
    (hsize : id.index < next.dictionaries.size)
    (hsame : next.dictionary id = store.dictionary id) : next.Follows id history :=
  ⟨hsize, hsame ▸ hfollows.dictionary⟩

theorem Follows.modifyDictionary {f : Dictionary → Dictionary} {later : List Usage}
    (hfollows : store.Follows id history) (hf : (f (store.dictionary id)).Follows later) :
    (store.modifyDictionary id f).Follows id later where
  lt := by simpa [Store.modifyDictionary] using hfollows.lt
  dictionary := by rwa [dictionary_modifyDictionary_self f hfollows.lt]

theorem Follows.touch (hfollows : store.Follows id history) :
    (store.touch id name).Follows id (history ++ [.read name]) :=
  hfollows.modifyDictionary hfollows.dictionary.touch

theorem Follows.insert (hfollows : store.Follows id history)
    (hnone : token.ownedDictionary? = none) :
    (store.insert id name token).Follows id (history ++ [.stored name]) where
  lt := by simpa using hfollows.lt
  dictionary := by
    rw [dictionary_insert_self hfollows.lt, accepted_of_no_handle hnone]
    exact hfollows.dictionary.insert hnone

theorem Follows.initializeArray (hfollows : store.Follows id history) :
    (store.initializeArray id name).Follows id (history ++ store.openUsage id name) := by
  unfold Store.initializeArray openUsage
  split
  · simpa using hfollows
  · exact hfollows.insert rfl

theorem Follows.openSlot (hfollows : store.Follows id history) :
    (store.openSlot id name).Follows id (history ++ store.openUsage id name) := by
  unfold Store.openSlot openUsage
  split
  · simpa using hfollows
  · exact hfollows.modifyDictionary (hfollows.dictionary.insert rfl)

theorem knows_openSlot (hlt : id.index < store.dictionaries.size) :
    ((store.openSlot id name).dictionary id).knows name = true := by
  unfold Store.openSlot
  split
  case isTrue hknown => exact hknown
  case isFalse =>
    rw [dictionary_modifyDictionary_self _ hlt, Dictionary.knows, Dictionary.get?_insert_self]
    rfl

theorem Follows.writeSlot (hfollows : store.Follows id history)
    (hknown : (store.dictionary id).knows name = true) (hnone : token.ownedDictionary? = none) :
    (store.writeSlot id name token).Follows id (history ++ [.stored name]) :=
  hfollows.modifyDictionary (hfollows.dictionary.write hknown hnone)

theorem Follows.setToken (hfollows : store.Follows id history)
    (hnone : token.ownedDictionary? = none) :
    (store.setToken id name token).Follows id history :=
  hfollows.modifyDictionary (hfollows.dictionary.withToken hnone)

theorem Follows.remove (hfollows : store.Follows id history) :
    (store.remove id name).Follows id (history ++ [.removed name]) :=
  hfollows.modifyDictionary hfollows.dictionary.erase

/-- Where nothing is owned, forgetting the reads of a dictionary concerns it alone. -/
theorem Follows.forgetReads (hfollows : store.Follows id history) :
    (store.forgetReads id).Follows id (history ++ [.forgotten]) := by
  have hclosed : store.Closed [id] := by
    intro owner howner inner howns
    obtain rfl := List.mem_singleton.1 howner
    obtain ⟨entry, hentry, hinner⟩ := directlyOwns_iff_entry.1 howns
    simp [hfollows.dictionary.ownsNothing entry hentry] at hinner
  rw [Store.forgetReads, reachable, closeUnder_of_closed hclosed]
  exact hfollows.modifyDictionary hfollows.dictionary.forgetReads

/-! ### Merging -/

section Copying

variable {target : DictId} {copied : List (Name × Slot)}

theorem dictionary_foldl_insert_ne (hne : id ≠ target) :
    (copied.foldl (fun store entry => store.insert target entry.1 entry.2.token)
      store).dictionary id = store.dictionary id := by
  induction copied generalizing store with
  | nil => rfl
  | cons entry rest ih => rw [List.foldl_cons, ih, dictionary_insert_ne hne]

theorem size_foldl_insert :
    (copied.foldl (fun store entry => store.insert target entry.1 entry.2.token)
      store).dictionaries.size = store.dictionaries.size := by
  induction copied generalizing store with
  | nil => rfl
  | cons entry rest ih => rw [List.foldl_cons, ih, size_insert]

end Copying

theorem Follows.copyEntries {source : DictId} (hfollows : store.Follows id history)
    (hnone : (store.dictionary source).OwnsNothing) :
    (store.copyEntries source id).Follows id
      (history ++ (store.dictionary source).names.map .stored) := by
  rw [Store.copyEntries, Dictionary.names]
  rw [Dictionary.OwnsNothing] at hnone
  generalize (store.dictionary source).entries = entries at hnone
  induction entries generalizing store history with
  | nil => simpa using hfollows
  | cons entry rest ih =>
    have hnext : (store.insert id entry.1 entry.2.token).Follows id
        (history ++ [.stored entry.1]) := hfollows.insert (hnone entry (by simp))
    have hrest := ih hnext fun later hlater => hnone later (by simp [hlater])
    simpa using hrest

/-- What a merge stores in its target: all names of the source, or none if one of them is
known there. -/
def mergeUsage (store : Store) (source target : DictId) : List Usage :=
  if (store.dictionary source).names.any (store.dictionary target).knows then []
  else (store.dictionary source).names.map .stored

theorem merge_toOption {source target : DictId} :
    (store.merge source target).toOption =
      if (store.dictionary source).names.any (store.dictionary target).knows then none
      else some (store.copyEntries source target) := by
  unfold merge firstCollision?
  split
  case h_1 name hfound =>
    have hany : (store.dictionary source).names.any (store.dictionary target).knows = true :=
      List.any_eq_true.2 ⟨name, List.mem_of_find?_eq_some hfound, List.find?_some hfound⟩
    rw [if_pos hany]
    rfl
  case h_2 hnone =>
    have hany : ¬ (store.dictionary source).names.any (store.dictionary target).knows = true := by
      simpa using List.find?_eq_none.1 hnone
    rw [if_neg hany]
    rfl

theorem Follows.mergeFrom {source : DictId} (hfollows : store.Follows id history)
    (hnone : (store.dictionary source).OwnsNothing) :
    ((store.merge source id).toOption.getD store).Follows id
      (history ++ store.mergeUsage source id) := by
  rw [merge_toOption, mergeUsage]
  split
  · simpa using hfollows
  · exact hfollows.copyEntries hnone

/-- A dictionary can be merged into itself only while it is empty. -/
theorem Follows.mergeInto {target : DictId} (hfollows : store.Follows id history) :
    ((store.merge id target).toOption.getD store).Follows id history := by
  rw [merge_toOption]
  split
  case isTrue => exact hfollows
  case isFalse hdisjoint =>
    rw [Option.getD_some]
    refine hfollows.of_dictionary_eq (hfollows.lt.trans_eq size_foldl_insert.symm) ?_
    by_cases hne : id = target
    · subst hne
      have hentries : (store.dictionary id).entries = [] := by
        rw [List.eq_nil_iff_forall_not_mem]
        intro entry hentry
        have hname : entry.1 ∈ (store.dictionary id).names := List.mem_map_of_mem hentry
        exact hdisjoint (List.any_eq_true.2 ⟨entry.1, hname, Dictionary.knows_iff.2 hname⟩)
      rw [Store.copyEntries, hentries, List.foldl_nil]
    · exact dictionary_foldl_insert_ne hne

/-! ### Reading -/

theorem after_bind {α β : Type} (action : StoreAction α) (rest : α → StoreAction β) :
    (action >>= rest).after store = match action.run store with
      | .ok value next => (rest value).after next
      | .error _ next => next := by
  simp only [StoreAction.after, EStateM.run, bind, EStateM.bind]
  cases action store <;> rfl

theorem run_read? : (read? id name).run store = match store.slot? id name with
    | none => .ok none store
    | some slot => .ok (some slot.token) (store.touch id name) := by
  simp only [read?, EStateM.run, bind, EStateM.bind, get, getThe, MonadStateOf.get, EStateM.get]
  cases store.slot? id name <;> rfl

theorem run_read : (read id name).run store = match store.slot? id name with
    | none => .error (.undefinedName name.text) store
    | some slot => .ok slot.token (store.touch id name) := by
  have hread? : read? id name store = _ := run_read?
  simp only [read, EStateM.run, bind, EStateM.bind, hread?]
  cases store.slot? id name <;> rfl

/-- Whatever is done with an entry once it was read, it was read only if it was there. -/
theorem Follows.then_read {α : Type} {rest : Token → StoreAction α}
    (hfollows : store.Follows id history)
    (hrest : ∀ token next, next.Follows id (history ++ [.read name]) →
      ((rest token).after next).Follows id (history ++ [.read name])) :
    ((read id name >>= rest).after store).Follows id (history ++ store.readUsage id name) := by
  rw [after_bind, run_read, readUsage, Dictionary.knows, ← slot?]
  cases store.slot? id name with
  | none => simpa using hfollows
  | some slot => exact hrest slot.token _ hfollows.touch

theorem Follows.fetch (hfollows : store.Follows id history) :
    ((read? id name).after store).Follows id (history ++ store.readUsage id name) := by
  rw [StoreAction.after, run_read?, readUsage, Dictionary.knows, ← slot?]
  cases store.slot? id name with
  | none => simpa using hfollows
  | some slot => exact hfollows.touch

theorem after_read : (Store.read id name).after store = (read? id name).after store := by
  rw [StoreAction.after, StoreAction.after, run_read, run_read?]
  cases store.slot? id name <;> rfl

theorem Follows.read (hfollows : store.Follows id history) :
    ((Store.read id name).after store).Follows id (history ++ store.readUsage id name) := by
  rw [after_read]
  exact hfollows.fetch

theorem Follows.readAs {alive : DictId → Bool} {kind : Kind} (hfollows : store.Follows id history) :
    ((Store.readAs alive kind id name).after store).Follows id
      (history ++ store.readUsage id name) := by
  refine hfollows.then_read fun token next hnext => ?_
  cases kind.ofToken alive token with
  | ok value => exact hnext
  | error reason => exact hnext.of_dictionary_eq hnext.lt rfl

theorem Follows.replace (hfollows : store.Follows id history)
    (hnone : token.ownedDictionary? = none) :
    ((readAndReplace id name token).after store).Follows id
      (history ++ store.replaceUsage id name) := by
  rw [readAndReplace, after_bind, run_read?, replaceUsage, Dictionary.knows, ← slot?]
  cases hslot : store.slot? id name with
  | none => exact (List.append_nil history).symm ▸ hfollows
  | some slot =>
    have htouched : (store.touch id name).Follows id (history ++ [.read name]) := hfollows.touch
    have hknown : ((store.touch id name).dictionary id).knows name = true := by
      rw [Dictionary.knows_iff, Store.touch, dictionary_modifyDictionary_self _ hfollows.lt,
        Dictionary.names_touch, ← Dictionary.knows_iff, Dictionary.knows, ← slot?, hslot]
      rfl
    have hwritten := htouched.writeSlot hknown hnone
    rw [List.append_assoc] at hwritten
    exact hwritten

theorem Follows.appendToArray (hfollows : store.Follows id history) :
    ((Store.appendToArray id name token).after store).Follows id
      (history ++ store.readUsage id name) := by
  refine hfollows.then_read fun found next hnext => ?_
  split
  · exact hnext.setToken rfl
  · exact hnext

theorem Follows.accumulate {values : List Float} (hfollows : store.Follows id history) :
    ((Store.accumulate id name values).after store).Follows id
      (history ++ store.readUsage id name) := by
  refine hfollows.then_read fun found next hnext => ?_
  split
  case h_1 => exact hnext.setToken rfl
  case h_2 items attributes _ =>
    obtain ⟨sums, error⟩ := addUpTo items values
    dsimp only
    split
    · exact hnext
    · cases error <;> exact hnext.setToken rfl
  case h_3 => exact hnext

/-- The store after an update is the one after the reading that it may do. -/
theorem updateWith_store {alive : DictId → Bool} {kind : Kind} {value : kind.Carrier} :
    (Store.updateWith alive kind id name value store).2.2 =
      (readIfSet alive kind id name).after store := by
  rw [Store.updateWith, StoreAction.after]
  cases (readIfSet alive kind id name).run store with
  | ok found next => cases found <;> rfl
  | error error next => rfl

theorem after_readIfSet {alive : DictId → Bool} {kind : Kind} :
    (readIfSet alive kind id name).after store = match store.slot? id name with
      | some ⟨.datum _ _, _⟩ => (Store.readAs alive kind id name).after store
      | _ => store := by
  have hget : (get : StoreAction Store).run store = .ok store store := rfl
  rw [readIfSet, after_bind, hget]
  dsimp only
  rcases store.slot? id name with - | ⟨- | ⟨value, attributes⟩, accessed⟩
  · rfl
  · rfl
  · dsimp only
    rw [after_bind, StoreAction.after]
    cases (Store.readAs alive kind id name).run store <;> rfl

theorem Follows.updateWith {alive : DictId → Bool} {kind : Kind} {value : kind.Carrier}
    (hfollows : store.Follows id history) :
    (Store.updateWith alive kind id name value store).2.2.Follows id
      (history ++ store.updateUsage id name) := by
  have hread : ((Store.readAs alive kind id name).after store).Follows id
      (history ++ store.readUsage id name) := hfollows.readAs
  rw [updateWith_store, after_readIfSet, updateUsage, Dictionary.peek?, ← slot?]
  rw [readUsage, Dictionary.knows, ← slot?] at hread
  rcases hslot : store.slot? id name with - | ⟨- | ⟨value, attributes⟩, accessed⟩
  · simpa using hfollows
  · simpa using hfollows
  · simpa [hslot] using hread

end Store

end StackLang
