import StackLang.Proofs.Ownership.Clearing
import StackLang.Proofs.Ownership.DepthFirst
import StackLang.Store.Usage

/-!
# What was read below a dictionary

Two traversals look at the flags of entries.  One collects the names of entries that were not
read and goes on below those that were; the other takes the flags away and goes on below
every entry.  Both look at a dictionary only once, whatever owns it, and where they go is a
walk through the graph of ownership.  A walk that has ended has been at exactly what paths of
entries lead to.

The first traversal may stop short of that, but only below an entry that it reports.  So it
reports nothing exactly if everything that can be reached was read.
-/

namespace StackLang

open Relation

/-! ## Walks -/

/-- A walk through the dictionaries that are pending and what they own.  One that was visited
before is passed over; what was visited is handed on. -/
inductive Visits (owned : DictId → List DictId) :
    List DictId → List DictId → List DictId → Prop where
  | done {seen : List DictId} : Visits owned [] seen seen
  | passed {id : DictId} {rest seen last : List DictId} (hseen : id ∈ seen)
    (hrest : Visits owned rest seen last) : Visits owned (id :: rest) seen last
  | nested {id : DictId} {rest seen mid last : List DictId} (hnew : id ∉ seen)
    (hinner : Visits owned (owned id) (id :: seen) mid) (hrest : Visits owned rest mid last) :
    Visits owned (id :: rest) seen last

namespace Visits

variable {owned : DictId → List DictId} {pending seen last : List DictId} {id other : DictId}

theorem subset (hvisits : Visits owned pending seen last) : seen ⊆ last := by
  induction hvisits with
  | done => exact List.Subset.refl _
  | passed _ _ ih => exact ih
  | nested _ _ _ ihInner ihRest =>
    have hinner := List.Subset.trans (List.subset_cons_self _ _) ihInner
    exact List.Subset.trans hinner ihRest

theorem pending_subset (hvisits : Visits owned pending seen last) : pending ⊆ last := by
  induction hvisits with
  | done => exact List.nil_subset _
  | passed hseen hrest ih => exact List.cons_subset.2 ⟨hrest.subset hseen, ih⟩
  | nested _ hinner hrest _ ih =>
    exact List.cons_subset.2 ⟨hrest.subset (hinner.subset List.mem_cons_self), ih⟩

/-- What a dictionary owns that was not visited before has been visited in the end. -/
theorem closed (hvisits : Visits owned pending seen last) (hother : other ∈ last)
    (hnew : other ∉ seen) : owned other ⊆ last := by
  induction hvisits with
  | done => exact absurd hother hnew
  | passed _ _ ih => exact ih hother hnew
  | @nested id rest seen mid last _ hinner hrest ihInner ihRest =>
    by_cases hmid : other ∈ mid
    · apply List.Subset.trans _ hrest.subset
      by_cases hid : other = id
      · exact hid ▸ hinner.pending_subset
      · exact ihInner hmid (by simp [hid, hnew])
    · exact ihRest hother hmid

/-- A walk only comes to what is below the dictionaries that were pending. -/
theorem reached (hvisits : Visits owned pending seen last) (hother : other ∈ last)
    (hnew : other ∉ seen) :
    ∃ id ∈ pending, ReflTransGen (fun owner inner => inner ∈ owned owner) id other := by
  induction hvisits with
  | done => exact absurd hother hnew
  | passed _ _ ih =>
    exact (ih hother hnew).imp fun _ hfound => hfound.imp_left (List.mem_cons_of_mem _)
  | @nested id rest seen mid last _ _ _ ihInner ihRest =>
    by_cases hmid : other ∈ mid
    · refine ⟨id, List.mem_cons_self, ?_⟩
      by_cases hid : other = id
      · exact hid ▸ .refl
      · obtain ⟨inner, hinner, hpath⟩ := ihInner hmid (by simp [hid, hnew])
        exact hpath.head hinner
    · exact (ihRest hother hmid).imp fun _ hfound => hfound.imp_left (List.mem_cons_of_mem _)

/-- A walk from one dictionary comes to exactly what is below it. -/
theorem mem_iff (hvisits : Visits owned (owned id) [id] last) :
    other ∈ last ↔ ReflTransGen (fun owner inner => inner ∈ owned owner) id other := by
  constructor
  · intro hother
    by_cases hid : other = id
    · exact hid ▸ .refl
    · obtain ⟨inner, hinner, hpath⟩ := hvisits.reached hother (by simpa using hid)
      exact hpath.head hinner
  · intro hpath
    induction hpath with
    | refl => exact hvisits.subset List.mem_cons_self
    | @tail owner inner _ hinner ih =>
      by_cases hid : owner = id
      · exact hvisits.pending_subset (hid ▸ hinner)
      · exact hvisits.closed ih (by simpa using hid) hinner

end Visits

/-- The dictionaries that entries are handles of. -/
def ownedByEntries (entries : List (Name × Slot)) : List DictId :=
  entries.filterMap fun entry => entry.2.token.ownedDictionary?

section

variable {entry : Name × Slot} {rest : List (Name × Slot)} {inner : DictId}

theorem ownedByEntries_cons_none (hplain : entry.2.token.ownedDictionary? = none) :
    ownedByEntries (entry :: rest) = ownedByEntries rest := by
  simp [ownedByEntries, hplain]

theorem ownedByEntries_cons_some (howned : entry.2.token.ownedDictionary? = some inner) :
    ownedByEntries (entry :: rest) = inner :: ownedByEntries rest := by
  simp [ownedByEntries, howned]

end

namespace Store

variable {store next : Store} {id inner other : DictId} {entries : List (Name × Slot)}
  {seen last : List DictId}

theorem ownedByEntries_entries (store : Store) (id : DictId) :
    ownedByEntries (store.dictionary id).entries = store.directlyOwned id := by
  simp [ownedByEntries, directlyOwned, Dictionary.tokens, List.filterMap_map]

theorem unseen_cons_lt (hnew : id ∉ seen) (hlt : id.index < store.dictionaries.size) :
    store.unseen (id :: seen) < store.unseen seen := by
  have hsame : store.unseen (id :: seen) = store.unseen (seen ++ [id]) := by
    simp [unseen, or_comm]
  rw [hsame]
  exact unseen_append_lt (List.mem_singleton_self id) hnew hlt

/-! ## Collecting the names not read -/

/-- How the unread names are collected entry by entry.  A dictionary is entered below an entry
that was read, unless it was visited before. -/
inductive Collects (store : Store) :
    String → List (Name × Slot) → Missed → Missed → Prop where
  | done {qualifier : String} {missed : Missed} : Collects store qualifier [] missed missed
  | unread {qualifier : String} {entry : Name × Slot} {rest : List (Name × Slot)}
    {missed last : Missed} (hunread : entry.2.accessed = false)
    (hrest : Collects store qualifier rest
      { missed with names := missed.names ++ [qualifier ++ entry.1.text] } last) :
    Collects store qualifier (entry :: rest) missed last
  | plain {qualifier : String} {entry : Name × Slot} {rest : List (Name × Slot)}
    {missed last : Missed} (hread : entry.2.accessed = true)
    (hplain : entry.2.token.ownedDictionary? = none)
    (hrest : Collects store qualifier rest missed last) :
    Collects store qualifier (entry :: rest) missed last
  | passed {qualifier : String} {entry : Name × Slot} {rest : List (Name × Slot)}
    {missed last : Missed} {inner : DictId} (hread : entry.2.accessed = true)
    (howned : entry.2.token.ownedDictionary? = some inner) (hseen : inner ∈ missed.visited)
    (hrest : Collects store qualifier rest missed last) :
    Collects store qualifier (entry :: rest) missed last
  | nested {qualifier : String} {entry : Name × Slot} {rest : List (Name × Slot)}
    {missed mid last : Missed} {inner : DictId} (hread : entry.2.accessed = true)
    (howned : entry.2.token.ownedDictionary? = some inner) (hnew : inner ∉ missed.visited)
    (hinner : Collects store (qualifier ++ entry.1.text ++ "::")
      (store.dictionary inner).entries
      { missed with visited := inner :: missed.visited } mid)
    (hrest : Collects store qualifier rest mid last) :
    Collects store qualifier (entry :: rest) missed last

namespace Collects

variable {qualifier : String} {missed final : Missed}

theorem visited_subset (hcollects : store.Collects qualifier entries missed final) :
    missed.visited ⊆ final.visited := by
  induction hcollects with
  | done => exact List.Subset.refl _
  | unread _ _ ih => exact ih
  | plain _ _ _ ih => exact ih
  | passed _ _ _ _ ih => exact ih
  | nested _ _ _ _ _ ihInner ihRest =>
    have hinner := List.Subset.trans (List.subset_cons_self _ _) ihInner
    exact List.Subset.trans hinner ihRest

/-- Names are only added. -/
theorem names_prefix (hcollects : store.Collects qualifier entries missed final) :
    missed.names <+: final.names := by
  induction hcollects with
  | done => exact List.prefix_refl _
  | unread _ _ ih => exact (List.prefix_append _ _).trans ih
  | plain _ _ _ ih => exact ih
  | passed _ _ _ _ ih => exact ih
  | nested _ _ _ _ _ ihInner ihRest => exact ihInner.trans ihRest


theorem names_eq_of_unread (hcollects : store.Collects qualifier entries missed final)
    (hunread : ∀ entry ∈ entries, entry.2.accessed = false) :
    final.names = missed.names ++ entries.map fun entry => qualifier ++ entry.1.text := by
  induction hcollects with
  | done => simp
  | unread _ _ ih =>
    rw [ih fun entry hentry => hunread entry (List.mem_cons_of_mem _ hentry)]
    simp
  | plain hread => exact absurd hread (by simp [hunread _ List.mem_cons_self])
  | passed hread => exact absurd hread (by simp [hunread _ List.mem_cons_self])
  | nested hread => exact absurd hread (by simp [hunread _ List.mem_cons_self])

/-- As long as nothing unread is met, this is a walk through everything that is owned, and
whatever dictionary it enters has been read. -/
theorem visits (hcollects : store.Collects qualifier entries missed final)
    (hnames : final.names = missed.names) :
    Visits store.directlyOwned (ownedByEntries entries) missed.visited final.visited ∧
      (∀ entry ∈ entries, entry.2.accessed = true) ∧
      ∀ id ∈ final.visited, id ∉ missed.visited →
        ∀ entry ∈ (store.dictionary id).entries, entry.2.accessed = true := by
  induction hcollects with
  | done => exact ⟨.done, by simp, fun id hid hnew => absurd hid hnew⟩
  | unread _ hrest =>
    have hlonger := hrest.names_prefix.length_le
    rw [hnames] at hlonger
    simp at hlonger
  | plain hread hplain _ ih =>
    obtain ⟨hvisits, hentries, hbelow⟩ := ih hnames
    refine ⟨?_, List.forall_mem_cons.2 ⟨hread, hentries⟩, hbelow⟩
    rwa [ownedByEntries_cons_none hplain]
  | passed hread howned hseen _ ih =>
    obtain ⟨hvisits, hentries, hbelow⟩ := ih hnames
    refine ⟨?_, List.forall_mem_cons.2 ⟨hread, hentries⟩, hbelow⟩
    rw [ownedByEntries_cons_some howned]
    exact .passed hseen hvisits
  | @nested _ _ _ missed mid final inner hread howned hnew hinner hrest ihInner ihRest =>
    -- names are only added, so neither part adds any
    have hmid : mid.names = missed.names := by
      apply (hinner.names_prefix.eq_of_length_le _).symm
      exact hnames ▸ hrest.names_prefix.length_le
    obtain ⟨hvisitsInner, hinnerEntries, hinnerBelow⟩ := ihInner hmid
    obtain ⟨hvisits, hentries, hbelow⟩ := ihRest (hnames.trans hmid.symm)
    refine ⟨?_, List.forall_mem_cons.2 ⟨hread, hentries⟩, fun id hid hidNew => ?_⟩
    · rw [ownedByEntries_cons_some howned]
      exact .nested hnew (store.ownedByEntries_entries inner ▸ hvisitsInner) hvisits
    · by_cases hidMid : id ∈ mid.visited
      · by_cases hself : id = inner
        · exact hself ▸ hinnerEntries
        · exact hinnerBelow id hidMid (by simp [hself, hidNew])
      · exact hbelow id hid hidMid

end Collects

/-- Every entry of a dictionary and of those that paths of entries lead to was read. -/
def ReadBelow (store : Store) (id : DictId) : Prop :=
  ∀ other, ReflTransGen store.DirectlyOwns id other →
    ∀ entry ∈ (store.dictionary other).entries, entry.2.accessed = true

theorem ReadBelow.of_entry (hread : store.ReadBelow id) {entry : Name × Slot}
    (hentry : entry ∈ (store.dictionary id).entries)
    (howned : entry.2.token.ownedDictionary? = some inner) : store.ReadBelow inner :=
  fun other hpath => hread other (hpath.head (directlyOwns_iff_entry.2 ⟨entry, hentry, howned⟩))

namespace Collects

variable {qualifier : String} {missed final : Missed}

/-- Where everything was read, nothing is reported. -/
theorem names_eq_of_read (hcollects : store.Collects qualifier entries missed final)
    (hread : ∀ entry ∈ entries, entry.2.accessed = true)
    (hbelow : ∀ entry ∈ entries, ∀ inner, entry.2.token.ownedDictionary? = some inner →
      store.ReadBelow inner) : final.names = missed.names := by
  induction hcollects with
  | done => rfl
  | unread hunread => simp [hread _ List.mem_cons_self] at hunread
  | plain _ _ _ ih =>
    rw [List.forall_mem_cons] at hread hbelow
    exact ih hread.2 hbelow.2
  | passed _ _ _ _ ih =>
    rw [List.forall_mem_cons] at hread hbelow
    exact ih hread.2 hbelow.2
  | nested _ howned _ _ _ ihInner ihRest =>
    rw [List.forall_mem_cons] at hread hbelow
    have hinner := hbelow.1 _ howned
    rw [ihRest hread.2 hbelow.2]
    exact ihInner (hinner _ .refl) fun entry hentry _ => hinner.of_entry hentry

end Collects

/-- The bound on the depth is never reached: every dictionary that is entered is visited from
then on. -/
theorem collects_collectUnread {depth : Nat} {qualifier : String} (missed : Missed)
    (hdepth : store.unseen missed.visited < depth) (hnew : id ∉ missed.visited) :
    store.Collects qualifier (store.dictionary id).entries
      { missed with visited := id :: missed.visited }
      (store.collectUnread depth qualifier id missed) := by
  induction depth generalizing id qualifier missed with
  | zero => exact absurd hdepth (Nat.not_lt_zero _)
  | succ depth ih =>
    rw [collectUnread, if_neg fun hseen => hnew (List.contains_iff_mem.1 hseen)]
    -- The entries are gone through with whatever has been visited by then: that only grows, so
    -- the bound holds for each of them.
    generalize hreached : ({ missed with visited := id :: missed.visited } : Missed) = reached
    have hbelow : ∀ entry ∈ (store.dictionary id).entries,
        store.unseen reached.visited < depth := by
      intro entry hentry
      have hfewer := unseen_cons_lt hnew (lt_of_entry_mem hentry)
      rw [← hreached]
      exact Nat.lt_of_lt_of_le hfewer (Nat.le_of_lt_succ hdepth)
    clear hreached
    generalize (store.dictionary id).entries = entries at hbelow ⊢
    change store.Collects qualifier entries reached (entries.foldl _ reached)
    induction entries generalizing reached with
    | nil => exact .done
    | cons entry rest ihRest =>
      obtain ⟨hfirst, hlater⟩ := List.forall_mem_cons.1 hbelow
      rw [List.foldl_cons]
      cases hread : entry.2.accessed with
      | false => exact .unread hread (ihRest _ hlater)
      | true =>
        cases howned : entry.2.token.ownedDictionary? with
        | none => exact .plain hread howned (ihRest _ hlater)
        | some inner =>
          by_cases hseen : inner ∈ reached.visited
          · have hpassed : ∀ later, store.collectUnread depth later inner reached = reached := by
              intro later
              cases depth with
              | zero => rfl
              | succ depth => rw [collectUnread, if_pos (List.contains_iff_mem.2 hseen)]
            simp only [Bool.not_true, Bool.false_eq_true, if_false, hpassed]
            exact .passed hread howned hseen (ihRest _ hlater)
          · have hinner : store.Collects (qualifier ++ entry.1.text ++ "::")
                (store.dictionary inner).entries _ _ := ih reached hfirst hseen
            have hgrown := List.Subset.trans (List.subset_cons_self _ _) hinner.visited_subset
            apply Collects.nested hread howned hseen hinner
            exact ihRest _ fun later hmem =>
              Nat.lt_of_le_of_lt (unseen_le_of_subset hgrown) (hlater later hmem)

/-- Collecting the unread names runs the unbounded traversal to its end. -/
theorem collects_unread (store : Store) (id : DictId) :
    ∃ final, store.Collects "" (store.dictionary id).entries { visited := [id] } final ∧
      final.names = store.unread id := by
  have hdepth : store.unseen [] < store.dictionaries.size + 1 :=
    Nat.lt_succ_of_le (store.unseen_le _)
  exact ⟨_, collects_collectUnread {} hdepth List.not_mem_nil, rfl⟩

theorem allRead_iff_readBelow : store.allRead id = true ↔ store.ReadBelow id := by
  obtain ⟨final, hcollects, hnames⟩ := store.collects_unread id
  rw [allRead, ← hnames, List.isEmpty_iff]
  constructor
  · intro hnone other hpath
    obtain ⟨hvisits, hentries, hbelow⟩ := hcollects.visits hnone
    rw [ownedByEntries_entries] at hvisits
    by_cases hid : other = id
    · exact hid ▸ hentries
    · exact hbelow other (hvisits.mem_iff.2 hpath) (by simpa using hid)
  · intro hread
    exact hcollects.names_eq_of_read (hread id .refl) fun entry hentry _ => hread.of_entry hentry

theorem unread_eq_names (hunread : ∀ entry ∈ (store.dictionary id).entries,
    entry.2.accessed = false) : store.unread id = (store.dictionary id).names.map Name.text := by
  obtain ⟨final, hcollects, hnames⟩ := store.collects_unread id
  rw [← hnames, hcollects.names_eq_of_unread hunread]
  simp [Dictionary.names]

end Store

/-! ## Taking the flags away -/

namespace Dictionary

/-- Marks the entries of some names as not read. -/
def forget (names : List Name) (dictionary : Dictionary) : Dictionary :=
  dictionary.mapSlots fun name slot => if name ∈ names then slot.markUnread else slot

variable {dictionary : Dictionary} {name : Name} {names : List Name}

@[simp]
theorem forget_nil : dictionary.forget [] = dictionary :=
  Dictionary.ext (by simp [forget, mapSlots])

theorem forget_cons :
    (dictionary.forget [name]).forget names = dictionary.forget (name :: names) := by
  apply Dictionary.ext
  simp only [forget, mapSlots, List.map_map]
  apply List.map_congr_left
  intro entry _
  by_cases hname : entry.1 = name <;> by_cases hnames : entry.1 ∈ names <;>
    simp [hname, hnames, Slot.markUnread]

theorem tokens_mapSlots {f : Name → Slot → Slot}
    (hf : ∀ name slot, (f name slot).token = slot.token) :
    (dictionary.mapSlots f).tokens = dictionary.tokens := by
  simp [tokens, mapSlots, hf, Function.comp_def]

theorem tokens_forget : (dictionary.forget names).tokens = dictionary.tokens := by
  apply tokens_mapSlots
  intro name slot
  split <;> rfl

@[simp]
theorem forgetReads_forgetReads : dictionary.forgetReads.forgetReads = dictionary.forgetReads :=
  Dictionary.ext (by simp [forgetReads, mapSlots, Slot.markUnread])

theorem forget_names : dictionary.forget dictionary.names = dictionary.forgetReads := by
  apply Dictionary.ext
  apply List.map_congr_left
  intro entry hentry
  have hname : entry.1 ∈ dictionary.names := List.mem_map_of_mem hentry
  simp [hname]

end Dictionary

namespace Store

variable {store next : Store} {id inner other : DictId} {entries : List (Name × Slot)}
  {seen last : List DictId} {names : List Name}

/-- Marks entries of one dictionary as not read. -/
def forget (id : DictId) (names : List Name) (store : Store) : Store :=
  store.modifyDictionary id (Dictionary.forget names)

/-- A change that leaves an empty dictionary empty can be looked up everywhere, also under a
number that was never given out. -/
theorem dictionary_modifyDictionary_of_empty {f : Dictionary → Dictionary}
    (hf : f .empty = .empty) :
    (store.modifyDictionary id f).dictionary id = f (store.dictionary id) := by
  by_cases hlt : id.index < store.dictionaries.size
  · exact dictionary_modifyDictionary_self f hlt
  · have hsize : (store.modifyDictionary id f).dictionaries.size ≤ id.index := by
      simpa [modifyDictionary] using hlt
    rw [dictionary_eq_empty hsize, dictionary_eq_empty (Nat.le_of_not_lt hlt), hf]

theorem dictionary_forget_self :
    (store.forget id names).dictionary id = (store.dictionary id).forget names :=
  dictionary_modifyDictionary_of_empty rfl

theorem dictionary_forget_ne (hne : other ≠ id) :
    (store.forget id names).dictionary other = store.dictionary other :=
  dictionary_modifyDictionary_ne _ hne

/-- The two stores differ in flags of entries at most. -/
structure SameButFlags (next store : Store) : Prop where
  tokens : ∀ id, (next.dictionary id).tokens = (store.dictionary id).tokens
  size : next.dictionaries.size = store.dictionaries.size
  rest : { next with dictionaries := store.dictionaries } = store

theorem SameButFlags.refl (store : Store) : store.SameButFlags store :=
  ⟨fun _ => rfl, rfl, rfl⟩

theorem SameButFlags.trans {mid : Store} (hnext : next.SameButFlags mid)
    (hmid : mid.SameButFlags store) : next.SameButFlags store where
  tokens := fun id => (hnext.tokens id).trans (hmid.tokens id)
  size := hnext.size.trans hmid.size
  rest := by
    rw [← hmid.rest, ← hnext.rest]

theorem SameButFlags.symm (hsame : next.SameButFlags store) : store.SameButFlags next where
  tokens := fun id => (hsame.tokens id).symm
  size := hsame.size.symm
  rest := by
    rw [← hsame.rest]

theorem SameButFlags.directlyOwned (hsame : next.SameButFlags store) :
    next.directlyOwned = store.directlyOwned := by
  funext id
  rw [Store.directlyOwned, hsame.tokens, Store.directlyOwned]

theorem SameButFlags.unseen (hsame : next.SameButFlags store) :
    next.unseen seen = store.unseen seen := by
  rw [Store.unseen, hsame.size, Store.unseen]

theorem sameButFlags_modifyDictionary {f : Dictionary → Dictionary}
    (hf : (f (store.dictionary id)).tokens = (store.dictionary id).tokens) :
    (store.modifyDictionary id f).SameButFlags store where
  tokens := by
    intro other
    by_cases hother : other = id
    · subst hother
      by_cases hlt : other.index < store.dictionaries.size
      · rw [dictionary_modifyDictionary_self f hlt, hf]
      · have hsize : (store.modifyDictionary other f).dictionaries.size ≤ other.index := by
          simpa [modifyDictionary] using hlt
        rw [dictionary_eq_empty hsize, dictionary_eq_empty (Nat.le_of_not_lt hlt)]
    · rw [dictionary_modifyDictionary_ne f hother]
  size := by simp [modifyDictionary]
  rest := rfl

theorem sameButFlags_forget : (store.forget id names).SameButFlags store :=
  sameButFlags_modifyDictionary Dictionary.tokens_forget

/-- How the flags are taken away entry by entry.  The dictionary that an entry owns is entered
right after that, unless it was visited before. -/
inductive Forgetting : DictId → List (Name × Slot) → Store → List DictId → Store →
    List DictId → Prop where
  | done {id : DictId} {store : Store} {seen : List DictId} :
    Forgetting id [] store seen store seen
  | plain {id : DictId} {entry : Name × Slot} {rest : List (Name × Slot)} {store next : Store}
    {seen last : List DictId} (hplain : entry.2.token.ownedDictionary? = none)
    (hrest : Forgetting id rest (store.forget id [entry.1]) seen next last) :
    Forgetting id (entry :: rest) store seen next last
  | passed {id inner : DictId} {entry : Name × Slot} {rest : List (Name × Slot)}
    {store next : Store} {seen last : List DictId}
    (howned : entry.2.token.ownedDictionary? = some inner) (hseen : inner ∈ seen)
    (hrest : Forgetting id rest (store.forget id [entry.1]) seen next last) :
    Forgetting id (entry :: rest) store seen next last
  | nested {id inner : DictId} {entry : Name × Slot} {rest : List (Name × Slot)}
    {store mid next : Store} {seen reached last : List DictId}
    (howned : entry.2.token.ownedDictionary? = some inner) (hnew : inner ∉ seen)
    (hinner : Forgetting inner ((store.forget id [entry.1]).dictionary inner).entries
      (store.forget id [entry.1]) (inner :: seen) mid reached)
    (hrest : Forgetting id rest mid reached next last) :
    Forgetting id (entry :: rest) store seen next last

/-- The flags are gone of everything visited since, and of some entries of one dictionary;
nothing else has changed in any dictionary. -/
structure Unflagged (id : DictId) (names : List Name) (seen last : List DictId)
    (store next : Store) : Prop where
  itself : next.dictionary id = (store.dictionary id).forget names
  visited : ∀ other ∈ last, other ∉ seen →
    next.dictionary other = (store.dictionary other).forgetReads
  others : ∀ other, other ≠ id → (other ∈ last → other ∈ seen) →
    next.dictionary other = store.dictionary other

namespace Unflagged

theorem done : Unflagged id [] seen seen store store where
  itself := Dictionary.forget_nil.symm
  visited := fun _ hother hnew => absurd hother hnew
  others := fun _ _ _ => rfl

theorem forget {name : Name}
    (hunflagged : Unflagged id names seen last (store.forget id [name]) next) (hid : id ∈ seen) :
    Unflagged id (name :: names) seen last store next where
  itself := by rw [hunflagged.itself, dictionary_forget_self, Dictionary.forget_cons]
  visited := by
    intro other hother hnew
    have hne : other ≠ id := fun heq => hnew (heq ▸ hid)
    rw [hunflagged.visited other hother hnew, dictionary_forget_ne hne]
  others := by
    intro other hne hseen
    rw [hunflagged.others other hne hseen, dictionary_forget_ne hne]

theorem nested {mid : Store} {reached : List DictId}
    (hinner : Unflagged inner (store.dictionary inner).names (inner :: seen) reached store mid)
    (hrest : Unflagged id names reached last mid next) (hid : id ∈ seen) (hnew : inner ∉ seen)
    (hbelow : inner :: seen ⊆ reached) (hlast : reached ⊆ last) :
    Unflagged id names seen last store next where
  itself := by
    have hne : id ≠ inner := fun heq => hnew (heq ▸ hid)
    rw [hrest.itself, hinner.others id hne fun _ => List.mem_cons_of_mem _ hid]
  visited := by
    intro other hother hotherNew
    have hne : other ≠ id := fun heq => hotherNew (heq ▸ hid)
    by_cases hreached : other ∈ reached
    · rw [hrest.others other hne fun _ => hreached]
      by_cases hself : other = inner
      · rw [hself, hinner.itself, Dictionary.forget_names]
      · exact hinner.visited other hreached (by simp [hself, hotherNew])
    · have hself : other ≠ inner := fun heq => hreached (heq ▸ hbelow List.mem_cons_self)
      rw [hrest.visited other hother hreached,
        hinner.others other hself fun hmem => absurd hmem hreached]
  others := by
    intro other hne hseen
    have hself : other ≠ inner := fun heq =>
      hnew (heq ▸ hseen (heq ▸ hlast (hbelow List.mem_cons_self)))
    rw [hrest.others other hne fun hmem => hbelow (List.mem_cons_of_mem _ (hseen hmem)),
      hinner.others other hself fun hmem => List.mem_cons_of_mem _ (hseen (hlast hmem))]

end Unflagged

namespace Forgetting

theorem sameButFlags (hforgetting : Forgetting id entries store seen next last) :
    next.SameButFlags store := by
  induction hforgetting with
  | done => exact .refl _
  | plain _ _ ih => exact ih.trans sameButFlags_forget
  | passed _ _ _ ih => exact ih.trans sameButFlags_forget
  | nested _ _ _ _ ihInner ihRest => exact (ihRest.trans ihInner).trans sameButFlags_forget

/-- The traversal is a walk through what the entries own. -/
theorem visits (hforgetting : Forgetting id entries store seen next last) :
    Visits store.directlyOwned (ownedByEntries entries) seen last := by
  induction hforgetting with
  | done => exact .done
  | plain hplain _ ih =>
    rwa [ownedByEntries_cons_none hplain, ← sameButFlags_forget.directlyOwned]
  | passed howned hseen _ ih =>
    rw [ownedByEntries_cons_some howned, ← sameButFlags_forget.directlyOwned]
    exact .passed hseen ih
  | nested howned hnew hinner _ ihInner ihRest =>
    rw [ownedByEntries_cons_some howned, ← sameButFlags_forget.directlyOwned]
    rw [hinner.sameButFlags.directlyOwned] at ihRest
    exact .nested hnew (ownedByEntries_entries _ _ ▸ ihInner) ihRest

/-- Everything visited since is unflagged, and of the dictionary that is being gone through
the entries that were left. -/
theorem unflagged (hforgetting : Forgetting id entries store seen next last) (hid : id ∈ seen) :
    Unflagged id (entries.map Prod.fst) seen last store next := by
  induction hforgetting with
  | done => exact .done
  | plain _ _ ih => exact (ih hid).forget hid
  | passed _ _ _ ih => exact (ih hid).forget hid
  | nested _ hnew hinner hrest ihInner ihRest =>
    have hbelow := hinner.visits.subset
    have hreached := hbelow (List.mem_cons_of_mem _ hid)
    have hinto := ihInner List.mem_cons_self
    exact (hinto.nested (ihRest hreached) hid hnew hbelow hrest.visits.subset).forget hid

end Forgetting

/-- Going through the flags ends, since every dictionary that is entered is visited from then
on. -/
theorem exists_forgetting {bound : Nat} (hbound : store.unseen seen < bound) :
    ∃ next last, Forgetting id entries store seen next last := by
  induction bound generalizing id entries store seen with
  | zero => exact absurd hbound (Nat.not_lt_zero _)
  | succ bound ih =>
    -- Only a dictionary that is entered takes one off the bound, an entry does not.
    induction entries generalizing store seen with
    | nil => exact ⟨store, seen, .done⟩
    | cons entry rest ihRest =>
      have hsame : (store.forget id [entry.1]).SameButFlags store := sameButFlags_forget
      rw [← hsame.unseen] at hbound
      cases howned : entry.2.token.ownedDictionary? with
      | none =>
        obtain ⟨next, last, hrest⟩ := ihRest hbound
        exact ⟨next, last, .plain howned hrest⟩
      | some inner =>
        by_cases hseen : inner ∈ seen
        · obtain ⟨next, last, hrest⟩ := ihRest hbound
          exact ⟨next, last, .passed howned hseen hrest⟩
        have hinner : ∃ mid reached, Forgetting inner
            ((store.forget id [entry.1]).dictionary inner).entries (store.forget id [entry.1])
            (inner :: seen) mid reached := by
          by_cases hlt : inner.index < (store.forget id [entry.1]).dictionaries.size
          · have hfewer := unseen_cons_lt hseen hlt
            exact ih (by omega)
          · rw [dictionary_eq_empty (Nat.le_of_not_lt hlt)]
            exact ⟨_, _, .done⟩
        obtain ⟨mid, reached, hinner⟩ := hinner
        have hgrown : seen ⊆ reached :=
          List.Subset.trans (List.subset_cons_self _ _) hinner.visits.subset
        have hreached : mid.unseen reached < bound + 1 := by
          rw [hinner.sameButFlags.unseen]
          exact Nat.lt_of_le_of_lt (unseen_le_of_subset hgrown) hbound
        obtain ⟨next, last, hrest⟩ := ihRest hreached
        exact ⟨next, last, .nested howned hseen hinner hrest⟩

/-! ## What is left of the flags -/

theorem mem_reachable_iff :
    other ∈ store.reachable id ↔ ReflTransGen store.DirectlyOwns id other := by
  rw [← reaches_iff, reaches, List.contains_iff_mem]

theorem sameButFlags_forgetReads : (store.forgetReads id).SameButFlags store := by
  rw [forgetReads]
  generalize store.reachable id = ids
  induction ids generalizing store with
  | nil => exact .refl store
  | cons first rest ih =>
    exact ih.trans (sameButFlags_modifyDictionary (Dictionary.tokens_mapSlots fun _ _ => rfl))

theorem dictionary_forgetReads : (store.forgetReads id).dictionary other =
    if other ∈ store.reachable id then (store.dictionary other).forgetReads
    else store.dictionary other := by
  rw [forgetReads]
  generalize store.reachable id = ids
  induction ids generalizing store with
  | nil => simp
  | cons first rest ih =>
    rw [List.foldl_cons, ih]
    by_cases hfirst : other = first
    · subst hfirst
      rw [dictionary_modifyDictionary_of_empty rfl]
      simp
    · simp [dictionary_modifyDictionary_ne _ hfirst, hfirst]

theorem dictionary_forgetReads_reached (hpath : ReflTransGen store.DirectlyOwns id other) :
    (store.forgetReads id).dictionary other = (store.dictionary other).forgetReads := by
  rw [dictionary_forgetReads, if_pos (mem_reachable_iff.2 hpath)]

theorem dictionary_forgetReads_far (hfar : ¬ ReflTransGen store.DirectlyOwns id other) :
    (store.forgetReads id).dictionary other = store.dictionary other := by
  rw [dictionary_forgetReads, if_neg fun hmem => hfar (mem_reachable_iff.1 hmem)]

/-- Two stores are the same if they agree on every dictionary and on everything else. -/
theorem SameButFlags.eq (hsame : next.SameButFlags store)
    (hdictionaries : ∀ id, next.dictionary id = store.dictionary id) : next = store := by
  have hall : next.dictionaries = store.dictionaries := by
    apply Array.ext hsame.size
    intro index hnext hstore
    simpa [dictionary, hnext, hstore] using hdictionaries ⟨index⟩
  rw [← hsame.rest, ← hall]

/-- The traversal entry by entry leaves what marking all reachable dictionaries leaves. -/
theorem Forgetting.eq_forgetReads
    (hforgetting : Forgetting id (store.dictionary id).entries store [id] next last) :
    next = store.forgetReads id := by
  have hvisits := hforgetting.visits
  rw [ownedByEntries_entries] at hvisits
  have hunflagged := hforgetting.unflagged List.mem_cons_self
  have hsame : next.SameButFlags (store.forgetReads id) :=
    hforgetting.sameButFlags.trans sameButFlags_forgetReads.symm
  apply hsame.eq
  intro other
  by_cases hother : other ∈ last
  · rw [dictionary_forgetReads_reached (hvisits.mem_iff.1 hother)]
    by_cases hid : other = id
    · rw [hid]
      exact hunflagged.itself.trans Dictionary.forget_names
    · exact hunflagged.visited other hother (by simpa using hid)
  · have hid : other ≠ id := fun heq => hother (heq ▸ hvisits.subset List.mem_cons_self)
    rw [dictionary_forgetReads_far fun hpath => hother (hvisits.mem_iff.2 hpath)]
    exact hunflagged.others other hid fun hmem => absurd hmem hother

/-- Both traversals run to their end, whatever owns what.  Everything counts as read exactly if
every entry that paths of entries lead to was read; forgetting the reads takes the flags of
exactly these entries away and changes nothing else, and what is unread then is the names of
the dictionary itself. -/
theorem allRead_and_forgetReads (store : Store) (id : DictId) :
    (∃ final, store.Collects "" (store.dictionary id).entries { visited := [id] } final ∧
        final.names = store.unread id) ∧
      (store.allRead id = true ↔ ∀ other, ReflTransGen store.DirectlyOwns id other →
        ∀ entry ∈ (store.dictionary other).entries, entry.2.accessed = true) ∧
      (∃ last, Forgetting id (store.dictionary id).entries store [id]
        (store.forgetReads id) last) ∧
      (∀ other, ReflTransGen store.DirectlyOwns id other →
        ((store.forgetReads id).dictionary other).entries =
          (store.dictionary other).entries.map fun entry =>
            (entry.1, { entry.2 with accessed := false })) ∧
      (∀ other, ¬ ReflTransGen store.DirectlyOwns id other →
        (store.forgetReads id).dictionary other = store.dictionary other) ∧
      (store.forgetReads id).dictionaries.size = store.dictionaries.size ∧
      { store.forgetReads id with dictionaries := store.dictionaries } = store ∧
      (store.forgetReads id).unread id = (store.dictionary id).names.map Name.text := by
  have hsame : (store.forgetReads id).SameButFlags store := sameButFlags_forgetReads
  have hends : ∃ next last, Forgetting id (store.dictionary id).entries store [id] next last :=
    exists_forgetting (Nat.lt_succ_self _)
  obtain ⟨next, last, hforgetting⟩ := hends
  obtain rfl := hforgetting.eq_forgetReads
  have hitself : (store.forgetReads id).dictionary id = (store.dictionary id).forgetReads :=
    dictionary_forgetReads_reached .refl
  refine ⟨store.collects_unread id, allRead_iff_readBelow, ⟨last, hforgetting⟩, ?_,
    fun other => dictionary_forgetReads_far, hsame.size, hsame.rest, ?_⟩
  · intro other hpath
    rw [dictionary_forgetReads_reached hpath]
    rfl
  · have hunread : ∀ entry ∈ ((store.forgetReads id).dictionary id).entries,
        entry.2.accessed = false := by
      rw [hitself]
      intro entry hentry
      obtain ⟨old, -, rfl⟩ := List.mem_map.1 hentry
      rfl
    rw [unread_eq_names hunread, hitself, Dictionary.names_forgetReads]

end Store

end StackLang
