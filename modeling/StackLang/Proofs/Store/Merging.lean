import StackLang.Proofs.Store.Following
import StackLang.Proofs.Store.RoundTrip

/-!
# Merging dictionaries and taking them apart again

A merge looks for a name that both dictionaries know before it writes anything, so it
copies all entries or none.  Every copy goes to the end of the target, and none of them
makes a difference to whether another one is stored as an alias: paths of entries that
lead to the target do not lead through it.  Removing the names of the source therefore
takes back exactly what was copied.
-/

namespace StackLang

open Relation

theorem Dictionary.knows_eq_false_iff {dictionary : Dictionary} {name : Name} :
    dictionary.knows name = false ↔ name ∉ dictionary.names := by
  rw [← Bool.not_eq_true, Dictionary.knows_iff]

theorem Dictionary.entries_insert {dictionary : Dictionary} {name : Name} (token : Token)
    (hnew : name ∉ dictionary.names) :
    (dictionary.insert name token).entries =
      dictionary.entries ++ [(name, { token, accessed := false })] := by
  rw [Dictionary.insert, dif_pos (Dictionary.get?_eq_none_iff.2 hnew)]

namespace Store

variable {store next : Store} {id source target : DictId} {name : Name} {token : Token}

/-! ## What is stored for an entry -/

/-- Entries of the target itself do not help to get there. -/
theorem reflTransGen_congr
    (hothers : ∀ other, other ≠ target → next.dictionary other = store.dictionary other)
    (hpath : ReflTransGen store.DirectlyOwns id target) :
    ReflTransGen next.DirectlyOwns id target := by
  induction hpath using ReflTransGen.head_induction_on with
  | refl => exact .refl
  | @head owner inner howns _ ih =>
    by_cases howner : owner = target
    · rw [howner]
    · exact ih.head ((directlyOwns_congr (hothers owner howner)).2 howns)

/-- Two stores that differ in the target only agree on what is stored there as an alias. -/
theorem accepted_congr
    (hothers : ∀ other, other ≠ target → next.dictionary other = store.dictionary other) :
    next.accepted target token = store.accepted target token := by
  cases howned : token.ownedDictionary? with
  | none => rw [accepted_of_no_handle howned, accepted_of_no_handle howned]
  | some id =>
    by_cases hback : ReflTransGen store.DirectlyOwns id target
    · rw [accepted_of_reaches howned hback,
        accepted_of_reaches howned (reflTransGen_congr hothers hback)]
    · have hfree : ¬ ReflTransGen next.DirectlyOwns id target := fun hpath =>
        hback (reflTransGen_congr (fun other hne => (hothers other hne).symm) hpath)
      rw [accepted_of_not_reaches howned hback, accepted_of_not_reaches howned hfree]

/-- The second entry is a copy of the first that nobody has read, as it is stored in the
target: a dictionary with a path of entries back to the target becomes an alias of the
same dictionary, and everything else stays what it is. -/
inductive Copied (store : Store) (target : DictId) : Name × Slot → Name × Slot → Prop where
  | aliased {name : Name} {slot : Slot} {id : DictId}
    (howned : slot.token.ownedDictionary? = some id)
    (hback : ReflTransGen store.DirectlyOwns id target) :
    Copied store target (name, slot)
      (name, { token := slot.token.mapValue fun _ => .dictionary (.aliased id)
               accessed := false })
  | same {name : Name} {slot : Slot}
    (hfree : ∀ id, slot.token.ownedDictionary? = some id →
      ¬ ReflTransGen store.DirectlyOwns id target) :
    Copied store target (name, slot) (name, { token := slot.token, accessed := false })

theorem Copied.of_path {entry copied : Name × Slot} (hcopied : store.Copied target entry copied)
    (howned : entry.2.token.ownedDictionary? = some id)
    (hback : ReflTransGen store.DirectlyOwns id target) :
    copied = (entry.1, { token := entry.2.token.mapValue fun _ => .dictionary (.aliased id) }) := by
  cases hcopied with
  | aliased hother =>
    obtain rfl := Option.some.inj (hother.symm.trans howned)
    rfl
  | same hfree => exact absurd hback (hfree id howned)

/-- An entry as it is stored in the target. -/
def copy (store : Store) (target : DictId) (entry : Name × Slot) : Name × Slot :=
  (entry.1, { token := store.accepted target entry.2.token })

theorem copied_copy (store : Store) (target : DictId) (entry : Name × Slot) :
    store.Copied target entry (store.copy target entry) := by
  rw [copy]
  cases howned : entry.2.token.ownedDictionary? with
  | none =>
    rw [accepted_of_no_handle howned]
    apply Copied.same
    intro id hid
    cases howned.symm.trans hid
  | some id =>
    by_cases hback : ReflTransGen store.DirectlyOwns id target
    · rw [accepted_of_reaches howned hback]
      exact .aliased howned hback
    · rw [accepted_of_not_reaches howned hback]
      apply Copied.same
      intro other hother
      obtain rfl := Option.some.inj (howned.symm.trans hother)
      exact hback

/-! ## Copying entries -/

/-- Entries with names that are new to the target are copied to its end. -/
theorem entries_foldl_insert {entries : List (Name × Slot)}
    (hlt : target.index < store.dictionaries.size)
    (hnodup : (entries.map Prod.fst).Nodup)
    (hnew : ∀ name ∈ entries.map Prod.fst, name ∉ (store.dictionary target).names) :
    ((entries.foldl (fun store entry => store.insert target entry.1 entry.2.token)
        store).dictionary target).entries =
      (store.dictionary target).entries ++ entries.map (store.copy target) := by
  induction entries generalizing store with
  | nil => simp
  | cons entry rest ih =>
    obtain ⟨hfresh, hrest⟩ := List.nodup_cons.1 hnodup
    have hentry : ((store.insert target entry.1 entry.2.token).dictionary target).entries =
        (store.dictionary target).entries ++ [store.copy target entry] := by
      rw [dictionary_insert_self hlt, Dictionary.entries_insert _ (hnew entry.1 (by simp))]
      rfl
    have hnames : ((store.insert target entry.1 entry.2.token).dictionary target).names =
        (store.dictionary target).names ++ [entry.1] := by
      rw [Dictionary.names, hentry, List.map_append]
      rfl
    have hcopy : (store.insert target entry.1 entry.2.token).copy target = store.copy target := by
      funext later
      rw [copy, copy, accepted_congr fun other hne => dictionary_insert_ne hne]
    rw [List.foldl_cons, ih (by rwa [size_insert]) hrest ?_, hentry, hcopy, List.append_assoc]
    · rfl
    · intro name hname hknown
      rw [hnames] at hknown
      obtain hold | hself := List.mem_append.1 hknown
      · exact hnew name (by simp [hname]) hold
      · exact hfresh (List.mem_singleton.1 hself ▸ hname)

/-! ## Removing names -/

/-- Removing the names of a dictionary keeps the entries with other names. -/
theorem entries_unmerge_self (hlt : target.index < store.dictionaries.size) :
    ((store.unmerge source target).dictionary target).entries =
      (store.dictionary target).entries.filter fun entry =>
        !(store.dictionary source).names.contains entry.1 := by
  rw [unmerge]
  generalize (store.dictionary source).names = names
  induction names generalizing store with
  | nil => simp
  | cons name rest ih =>
    have hremove : ((store.remove target name).dictionary target).entries =
        (store.dictionary target).entries.filter fun entry => entry.1 != name := by
      rw [remove, dictionary_modifyDictionary_self _ hlt]
      rfl
    rw [List.foldl_cons, ih (by simpa [remove, modifyDictionary] using hlt), hremove,
      List.filter_filter]
    apply List.filter_congr
    intro entry _
    rw [List.contains_cons, Bool.not_or, Bool.and_comm]
    rfl

theorem dictionary_unmerge_ne (hne : id ≠ target) :
    (store.unmerge source target).dictionary id = store.dictionary id := by
  rw [unmerge]
  generalize (store.dictionary source).names = names
  induction names generalizing store with
  | nil => rfl
  | cons name rest ih => rw [List.foldl_cons, ih, remove, dictionary_modifyDictionary_ne _ hne]

/-- A dictionary without the names of its own is empty. -/
theorem dictionary_unmerge_itself : (store.unmerge target target).dictionary target = .empty := by
  by_cases hlt : target.index < store.dictionaries.size
  · apply Dictionary.ext
    rw [entries_unmerge_self hlt, List.filter_eq_nil_iff.2]
    · rfl
    · intro entry hentry
      have hname : entry.1 ∈ (store.dictionary target).names := List.mem_map_of_mem hentry
      simpa using hname
  · have hsize : (store.unmerge target target).dictionaries.size = store.dictionaries.size :=
      within_unmerge.size
    exact dictionary_eq_empty (by omega)

/-! ## What a merge does -/

/-- Copies of some entries of the source follow what the target had, in their order.  Nothing
else has changed, and removing the names of the source takes the copies back. -/
structure WithCopies (store : Store) (source target : DictId) (copied : List (Name × Slot))
    (next : Store) : Prop where
  entries : ∃ copies, List.Forall₂ (store.Copied target) copied copies ∧
    (next.dictionary target).entries = (store.dictionary target).entries ++ copies
  others : ∀ other, other ≠ target → next.dictionary other = store.dictionary other
  undone : ∀ other, (next.unmerge source target).dictionary other = store.dictionary other

/-- What comes of merging a dictionary into another one.  It is refused for the first name
that both know.  If there is none, all entries are copied. -/
inductive Merges (store : Store) (source target : DictId) : Except Error Store → Prop where
  | refused {before after : List Name} {name : Name}
    (hnames : (store.dictionary source).names = before ++ name :: after)
    (hbefore : ∀ earlier ∈ before, (store.dictionary target).knows earlier = false)
    (hknown : (store.dictionary target).knows name = true) :
    Merges store source target (.error (.undefinedName name.text))
  | merged {next : Store}
    (hdisjoint : ∀ name ∈ (store.dictionary source).names,
      (store.dictionary target).knows name = false)
    (hcopied : store.WithCopies source target (store.dictionary source).entries next) :
    Merges store source target (.ok next)

/-- The store that a merge leaves which stops on its way: nothing has been copied, or the
first entries of the source have, although not all of them. -/
inductive Halfway (store : Store) (source target : DictId) : Store → Prop where
  | untouched : Halfway store source target store
  | copied {copied left : List (Name × Slot)} {entry : Name × Slot} {next : Store}
    (hentries : (store.dictionary source).entries = copied ++ entry :: left)
    (hcopied : store.WithCopies source target copied next) :
    Halfway store source target next

theorem Merges.withCopies (hmerges : store.Merges source target (.ok next)) :
    store.WithCopies source target (store.dictionary source).entries next := by
  cases hmerges with
  | merged _ hcopied => exact hcopied

section Copying

variable {copied left : List (Name × Slot)}

/-- If the dictionaries share no name, any number of entries may have been copied. -/
theorem withCopies_foldl_insert (hne : source ≠ target)
    (hlt : target.index < store.dictionaries.size)
    (hnew : ∀ name ∈ (store.dictionary source).names, name ∉ (store.dictionary target).names)
    (hsplit : (store.dictionary source).entries = copied ++ left) :
    store.WithCopies source target copied
      (copied.foldl (fun store entry => store.insert target entry.1 entry.2.token) store) := by
  have hnames : (store.dictionary source).names = copied.map Prod.fst ++ left.map Prod.fst := by
    rw [Dictionary.names, hsplit, List.map_append]
  have hnodup : (copied.map Prod.fst ++ left.map Prod.fst).Nodup :=
    hnames ▸ (store.dictionary source).names_nodup
  have hentries := entries_foldl_insert hlt (List.Nodup.of_append_left hnodup)
    fun name hname => hnew name (hnames ▸ List.mem_append_left _ hname)
  constructor
  · refine ⟨copied.map (store.copy target), ?_, hentries⟩
    rw [List.forall₂_map_right_iff, List.forall₂_same]
    exact fun entry _ => store.copied_copy target entry
  · exact fun other hother => dictionary_foldl_insert_ne hother
  · intro other
    by_cases hother : other = target
    · subst hother
      apply Dictionary.ext
      have hkept : (store.dictionary other).entries.filter
          (fun entry => !(store.dictionary source).names.contains entry.1) =
            (store.dictionary other).entries := by
        rw [List.filter_eq_self]
        intro entry hentry
        have hname : entry.1 ∉ (store.dictionary source).names :=
          fun hname => hnew _ hname (List.mem_map_of_mem hentry)
        simpa using hname
      have hremoved : (copied.map (store.copy other)).filter
          (fun entry => !(store.dictionary source).names.contains entry.1) = [] := by
        rw [List.filter_eq_nil_iff]
        intro entry hentry
        obtain ⟨original, horiginal, rfl⟩ := List.mem_map.1 hentry
        have hname : original.1 ∈ (store.dictionary source).names :=
          hnames ▸ List.mem_append_left _ (List.mem_map_of_mem horiginal)
        simpa [copy] using hname
      rw [entries_unmerge_self (by rwa [size_foldl_insert]), dictionary_foldl_insert_ne hne,
        hentries, List.filter_append, hkept, hremoved, List.append_nil]
    · rw [dictionary_unmerge_ne hother, dictionary_foldl_insert_ne hother]

end Copying

theorem disjoint_of_firstCollision? (hfound : store.firstCollision? source target = none) :
    ∀ name ∈ (store.dictionary source).names,
      (store.dictionary target).knows name = false := by
  simpa [firstCollision?] using hfound

theorem merges_merge (hne : source ≠ target) (hlt : target.index < store.dictionaries.size) :
    store.Merges source target (store.merge source target) := by
  rw [merge]
  cases hfound : store.firstCollision? source target with
  | some name =>
    obtain ⟨hknown, before, after, hnames, hbefore⟩ := List.find?_eq_some_iff_append.1 hfound
    exact .refused hnames (fun earlier hmem => by simpa using hbefore earlier hmem) hknown
  | none =>
    have hdisjoint := disjoint_of_firstCollision? hfound
    exact .merged hdisjoint (withCopies_foldl_insert hne hlt
      (fun name hname => Dictionary.knows_eq_false_iff.1 (hdisjoint name hname))
      (List.append_nil _).symm)

/-- A merge that finds no shared name may stop at each entry. -/
theorem halfway_foldl_insert {copied left : List (Name × Slot)} {entry : Name × Slot}
    (hlt : target.index < store.dictionaries.size)
    (hfound : store.firstCollision? source target = none)
    (hsplit : (store.dictionary source).entries = copied ++ entry :: left) :
    store.Halfway source target
      (copied.foldl (fun store entry => store.insert target entry.1 entry.2.token) store) := by
  have hdisjoint := disjoint_of_firstCollision? hfound
  refine .copied hsplit (withCopies_foldl_insert ?_ hlt
    (fun name hname => Dictionary.knows_eq_false_iff.1 (hdisjoint name hname)) hsplit)
  -- A dictionary with entries collides with itself.
  rintro rfl
  have hname : entry.1 ∈ (store.dictionary source).names :=
    List.mem_map_of_mem (by simp [hsplit])
  exact Bool.false_ne_true ((hdisjoint _ hname).symm.trans (Dictionary.knows_iff.2 hname))

/-- A dictionary that is merged into itself collides with its first name. -/
theorem merge_itself (store : Store) (id : DictId) :
    store.merge id id = match (store.dictionary id).names with
      | [] => .ok store
      | name :: _ => .error (.undefinedName name.text) := by
  rw [merge, firstCollision?]
  cases hnames : (store.dictionary id).names with
  | nil =>
    have hentries : (store.dictionary id).entries = [] := List.map_eq_nil_iff.1 hnames
    rw [List.find?_nil, copyEntries, hentries]
    rfl
  | cons name rest =>
    have hknown : (store.dictionary id).knows name = true :=
      Dictionary.knows_iff.2 (by simp [hnames])
    rw [List.find?_cons_of_pos hknown]

end Store

end StackLang
