import StackLang.Proofs.Ownership.Circles

/-!
# Clearing a dictionary and what it owns

Clearing empties a dictionary before it goes on to the dictionaries that were its entries.
It keeps no list of those that are done: it ends on circles because whatever it comes back
to is empty by then, and it leaves out a dictionary on the path to the present one because
that one is empty already and the rest of its former entries is still to come.

What the recursion does is spelled out without a bound on its depth.  The bound of
`Store.clearWithin` is never reached, since a path that repeats no dictionary is no longer
than there are dictionaries.
-/

namespace StackLang.Store

open Relation

variable {store next : Store} {path : List DictId} {id inner other : DictId}
  {entries : List (Name × Slot)}

/-- The store in which a dictionary has no entries any more. -/
def emptied (store : Store) (id : DictId) : Store :=
  store.modifyDictionary id fun _ => .empty

@[simp]
theorem dictionary_emptied_self : (store.emptied id).dictionary id = .empty := by
  by_cases hlt : id.index < store.dictionaries.size
  · exact dictionary_modifyDictionary_self _ hlt
  · apply dictionary_eq_empty
    simpa [emptied, modifyDictionary] using hlt

theorem dictionary_emptied_ne (hne : other ≠ id) :
    (store.emptied id).dictionary other = store.dictionary other :=
  dictionary_modifyDictionary_ne _ hne

theorem within_emptied : (store.emptied id).Within store :=
  .modifyDictionary (List.nil_subset _)

/-- The dictionaries have no entries. -/
def AllEmpty (store : Store) (ids : List DictId) : Prop :=
  ∀ id ∈ ids, store.dictionary id = .empty

theorem AllEmpty.emptied {ids : List DictId} (hempty : store.AllEmpty ids) (id : DictId) :
    (store.emptied id).AllEmpty (id :: ids) := by
  intro other hother
  by_cases hid : other = id
  · rw [hid, dictionary_emptied_self]
  · rw [dictionary_emptied_ne hid]
    exact hempty other ((List.mem_cons.1 hother).resolve_left hid)

/-- How clearing goes through the entries that a dictionary had.  A handle of another
dictionary is followed, unless that one is on the path that leads here. -/
inductive Clearing : List DictId → DictId → List (Name × Slot) → Store → Store → Prop where
  | done {path : List DictId} {id : DictId} {store : Store} : Clearing path id [] store store
  | plain {path : List DictId} {id : DictId} {entry : Name × Slot} {rest : List (Name × Slot)}
    {store next : Store} (hplain : entry.2.token.ownedDictionary? = none)
    (hrest : Clearing path id rest store next) : Clearing path id (entry :: rest) store next
  | itself {path : List DictId} {id : DictId} {entry : Name × Slot} {rest : List (Name × Slot)}
    {store next : Store} (howned : entry.2.token.ownedDictionary? = some id)
    (hrest : Clearing path id rest store next) : Clearing path id (entry :: rest) store next
  | inUse {path : List DictId} {id inner : DictId} {entry : Name × Slot}
    {rest : List (Name × Slot)} {store next : Store}
    (howned : entry.2.token.ownedDictionary? = some inner) (hne : inner ≠ id)
    (hpath : inner ∈ path)
    (hrest : Clearing path id rest (store.report (.notClearedInUse entry.1)) next) :
    Clearing path id (entry :: rest) store next
  | nested {path : List DictId} {id inner : DictId} {entry : Name × Slot}
    {rest : List (Name × Slot)} {store mid next : Store}
    (howned : entry.2.token.ownedDictionary? = some inner) (hne : inner ≠ id)
    (hpath : inner ∉ path)
    (hinner : Clearing (id :: path) inner (store.dictionary inner).entries
      (store.emptied inner) mid)
    (hrest : Clearing path id rest mid next) : Clearing path id (entry :: rest) store next

/-! ## Clearing ends -/

/-- Dictionaries that are not repeated are no more than there are. -/
theorem length_le_of_nodup (hnodup : path.Nodup)
    (hlt : ∀ id ∈ path, id.index < store.dictionaries.size) :
    path.length ≤ store.dictionaries.size := by
  have hinjective : (path.map DictId.index).Nodup :=
    hnodup.map fun left right heq => by cases left; cases right; simp_all
  calc
    path.length = (path.map DictId.index).length := (List.length_map _).symm
    _ ≤ (List.range store.dictionaries.size).length := by
      apply (List.subperm_of_subset hinjective ?_).length_le
      intro index hindex
      obtain ⟨id, hid, rfl⟩ := List.mem_map.1 hindex
      exact List.mem_range.2 (hlt id hid)
    _ = store.dictionaries.size := List.length_range

theorem lt_of_entry_mem {entry : Name × Slot} (hmem : entry ∈ (store.dictionary id).entries) :
    id.index < store.dictionaries.size := by
  by_contra hlarge
  rw [dictionary_eq_empty (Nat.le_of_not_lt hlarge)] at hmem
  cases hmem

/-- The bound on the depth is reached by no path. -/
theorem clearing_clearWithin {depth : Nat} (hnodup : (id :: path).Nodup)
    (hlt : ∀ owner ∈ path, owner.index < store.dictionaries.size)
    (hdepth : store.dictionaries.size < path.length + depth) :
    Clearing path id (store.dictionary id).entries (store.emptied id)
      (store.clearWithin depth path id) := by
  induction depth generalizing store path id with
  | zero =>
    -- the path would be longer than there are dictionaries
    have hlength := length_le_of_nodup hnodup.of_cons hlt
    omega
  | succ depth ih =>
    have hid : ∀ entry ∈ (store.dictionary id).entries, id.index < store.dictionaries.size :=
      fun _ hentry => lt_of_entry_mem hentry
    have hsize : (store.emptied id).dictionaries.size = store.dictionaries.size :=
      within_emptied.size
    rw [clearWithin]
    -- The entries are not in the store any more while they are gone through, so the inner
    -- induction knows nothing of the store but how many dictionaries there are.
    generalize (store.dictionary id).entries = entries at hid
    change Clearing path id entries (store.emptied id) (entries.foldl _ (store.emptied id))
    generalize store.emptied id = cleared at hsize
    induction entries generalizing cleared with
    | nil => exact .done
    | cons entry rest ihRest =>
      have hlast : ∀ later ∈ rest, id.index < store.dictionaries.size :=
        fun later hlater => hid later (List.mem_cons_of_mem _ hlater)
      rw [List.foldl_cons]
      cases howned : entry.2.token.ownedDictionary? with
      | none => exact .plain howned (ihRest hlast cleared hsize)
      | some inner =>
        dsimp only
        by_cases hitself : inner = id
        · subst hitself
          rw [if_pos rfl]
          exact .itself howned (ihRest hlast cleared hsize)
        rw [if_neg hitself]
        by_cases hpath : inner ∈ path
        · rw [if_pos (List.contains_iff_mem.2 hpath)]
          exact .inUse howned hitself hpath (ihRest hlast _ hsize)
        rw [if_neg fun hcontains => hpath (List.contains_iff_mem.1 hcontains)]
        have hnodupInner : (inner :: id :: path).Nodup := by
          simp [hitself, hpath, hnodup]
        have hltInner : ∀ owner ∈ id :: path, owner.index < cleared.dictionaries.size := by
          rw [hsize, List.forall_mem_cons]
          exact ⟨hid entry List.mem_cons_self, hlt⟩
        have hclearing := ih hnodupInner hltInner (by rw [hsize, List.length_cons]; omega)
        apply Clearing.nested howned hitself hpath hclearing
        exact ihRest hlast _ (within_clearWithin.size.trans hsize)

/-- Clearing a dictionary runs the unbounded recursion to its end. -/
theorem clearing_clear (store : Store) (id : DictId) :
    Clearing [] id (store.dictionary id).entries (store.emptied id) (store.clear id) :=
  clearing_clearWithin (List.nodup_singleton id) (by simp) (by simp)

/-! ## What clearing leaves -/

namespace Clearing

/-- Every dictionary is left as it is or emptied. -/
theorem kept_or_empty (hclearing : Clearing path id entries store next) (other : DictId) :
    next.dictionary other = store.dictionary other ∨ next.dictionary other = .empty := by
  induction hclearing with
  | done => exact .inl rfl
  | plain _ _ ih => exact ih
  | itself _ _ ih => exact ih
  | inUse _ _ _ _ ih => exact ih
  | @nested path id inner entry rest store mid next _ _ _ _ _ ihInner ihRest =>
    obtain hrest | hrest := ihRest
    · rw [hrest]
      by_cases hother : other = inner
      · subst hother
        rw [dictionary_emptied_self] at ihInner
        exact .inr (or_self_iff.1 ihInner)
      · rwa [dictionary_emptied_ne hother] at ihInner
    · exact .inr hrest

theorem stays_empty (hclearing : Clearing path id entries store next)
    (hempty : store.dictionary other = .empty) : next.dictionary other = .empty := by
  obtain hkept | hcleared := hclearing.kept_or_empty other
  · exact hkept.trans hempty
  · exact hcleared

theorem allEmpty (hclearing : Clearing path id entries store next) {ids : List DictId}
    (hempty : store.AllEmpty ids) : next.AllEmpty ids :=
  fun other hother => hclearing.stays_empty (hempty other hother)

theorem directlyOwns (hclearing : Clearing path id entries store next)
    (howns : next.DirectlyOwns other inner) : store.DirectlyOwns other inner := by
  obtain hkept | hcleared := hclearing.kept_or_empty other
  · exact (directlyOwns_congr hkept).1 howns
  · exact absurd hcleared howns.owner_ne_empty

/-- The dictionaries that the entries were handles of are empty, also those that were left
to somebody further up the path. -/
theorem owned_empty (hclearing : Clearing path id entries store next)
    (hempty : store.AllEmpty (id :: path)) {entry : Name × Slot} (hentry : entry ∈ entries)
    (howned : entry.2.token.ownedDictionary? = some inner) : next.dictionary inner = .empty := by
  induction hclearing with
  | done => cases hentry
  | plain hplain _ ih =>
    obtain rfl | hlater := List.mem_cons.1 hentry
    · cases hplain.symm.trans howned
    · exact ih hempty hlater
  | itself hitself hrest ih =>
    obtain rfl | hlater := List.mem_cons.1 hentry
    · obtain rfl := Option.some.inj (hitself.symm.trans howned)
      exact hrest.stays_empty (hempty _ List.mem_cons_self)
    · exact ih hempty hlater
  | inUse hused _ hpath hrest ih =>
    obtain rfl | hlater := List.mem_cons.1 hentry
    · obtain rfl := Option.some.inj (hused.symm.trans howned)
      exact hrest.stays_empty (hempty _ (List.mem_cons_of_mem _ hpath))
    · exact ih hempty hlater
  | nested hnested _ _ hinner hrest _ ih =>
    obtain rfl | hlater := List.mem_cons.1 hentry
    · obtain rfl := Option.some.inj (hnested.symm.trans howned)
      exact hrest.stays_empty (hinner.stays_empty dictionary_emptied_self)
    · have hleft := hinner.allEmpty (hempty.emptied _)
      exact ih (fun owner howner => hleft owner (List.mem_cons_of_mem _ howner)) hlater

/-- Whatever a dictionary owned that was emptied on the way is empty in the end. -/
theorem closed (hclearing : Clearing path id entries store next)
    (hempty : store.AllEmpty (id :: path))
    (hchanged : next.dictionary other ≠ store.dictionary other)
    (howns : store.DirectlyOwns other inner) : next.dictionary inner = .empty := by
  induction hclearing with
  | done => exact absurd rfl hchanged
  | plain _ _ ih => exact ih hempty hchanged howns
  | itself _ _ ih => exact ih hempty hchanged howns
  | inUse _ _ _ _ ih => exact ih hempty hchanged howns
  | @nested path id nested entry rest store mid next _ _ _ hinner hrest ihInner ihRest =>
    have hleft := hinner.allEmpty (hempty.emptied nested)
    -- either the rest of the entries has led to it, or the nested dictionary has
    by_cases hmid : mid.dictionary other = store.dictionary other
    · apply ihRest fun owner howner => hleft owner (List.mem_cons_of_mem _ howner)
      · rwa [hmid]
      · exact (directlyOwns_congr hmid).2 howns
    · apply hrest.stays_empty
      by_cases hother : other = nested
      · subst hother
        obtain ⟨owning, howning, howned⟩ := directlyOwns_iff_entry.1 howns
        exact hinner.owned_empty (hempty.emptied other) howning howned
      · apply ihInner (hempty.emptied nested)
        · rwa [dictionary_emptied_ne hother]
        · exact (directlyOwns_congr (dictionary_emptied_ne hother)).2 howns

/-- Only what the entries lead to is emptied. -/
theorem reached (hclearing : Clearing path id entries store next)
    (hchanged : next.dictionary other ≠ store.dictionary other) :
    ∃ entry ∈ entries, ∃ inner, entry.2.token.ownedDictionary? = some inner ∧
      ReflTransGen store.DirectlyOwns inner other := by
  induction hclearing with
  | done => exact absurd rfl hchanged
  | plain _ _ ih =>
    exact (ih hchanged).imp fun _ hfound => hfound.imp_left (List.mem_cons_of_mem _)
  | itself _ _ ih =>
    exact (ih hchanged).imp fun _ hfound => hfound.imp_left (List.mem_cons_of_mem _)
  | inUse _ _ _ _ ih =>
    exact (ih hchanged).imp fun _ hfound => hfound.imp_left (List.mem_cons_of_mem _)
  | @nested path id nested entry rest store mid next howned _ _ hinner _ ihInner ihRest =>
    by_cases hmid : mid.dictionary other = store.dictionary other
    · obtain ⟨later, hlater, inner, hinnerOwned, hpath⟩ := ihRest (by rwa [hmid])
      refine ⟨later, List.mem_cons_of_mem _ hlater, inner, hinnerOwned, ?_⟩
      have hmono : ∀ owner owned, mid.DirectlyOwns owner owned →
          store.DirectlyOwns owner owned := fun _ _ howns =>
        within_emptied.directlyOwns (hinner.directlyOwns howns)
      exact ReflTransGen.mono hmono _ _ hpath
    · refine ⟨entry, List.mem_cons_self, nested, howned, ?_⟩
      by_cases hother : other = nested
      · rw [hother]
      · obtain ⟨owning, howning, inner, hinnerOwned, hpath⟩ :=
          ihInner (by rwa [dictionary_emptied_ne hother])
        have hstep : store.DirectlyOwns nested inner :=
          directlyOwns_iff_entry.2 ⟨owning, howning, hinnerOwned⟩
        exact (ReflTransGen.mono (fun _ _ => within_emptied.directlyOwns) _ _ hpath).head hstep

end Clearing

/-- Clearing a dictionary runs to its end, whatever owns what.  Afterwards every dictionary
that a path of entries led to is empty, and all others are as they were. -/
theorem clear_empties_reached (store : Store) (id : DictId) :
    Clearing [] id (store.dictionary id).entries (store.emptied id) (store.clear id) ∧
      (∀ other, ReflTransGen store.DirectlyOwns id other →
        (store.clear id).dictionary other = .empty) ∧
      ∀ other, ¬ ReflTransGen store.DirectlyOwns id other →
        (store.clear id).dictionary other = store.dictionary other := by
  have hclearing := clearing_clear store id
  have hempty : (store.emptied id).AllEmpty [id] := by
    simp [AllEmpty]
  refine ⟨hclearing, fun other hpath => ?_, fun other hfar => ?_⟩
  · induction hpath with
    | refl => exact hclearing.stays_empty dictionary_emptied_self
    | @tail owner inner _ howns ih =>
      by_cases howner : owner = id
      · subst howner
        obtain ⟨entry, hentry, howned⟩ := directlyOwns_iff_entry.1 howns
        exact hclearing.owned_empty hempty hentry howned
      · have hkept : (store.emptied id).dictionary owner = store.dictionary owner :=
          dictionary_emptied_ne howner
        apply hclearing.closed hempty
        · rw [ih, hkept]
          exact howns.owner_ne_empty.symm
        · exact (directlyOwns_congr hkept).2 howns
  · have hne : other ≠ id := fun heq => hfar (heq ▸ .refl)
    by_contra hchanged
    obtain ⟨entry, hentry, inner, howned, hpath⟩ :=
      hclearing.reached (by rwa [dictionary_emptied_ne hne])
    have hstep : store.DirectlyOwns id inner := directlyOwns_iff_entry.2 ⟨entry, hentry, howned⟩
    have hrest : ReflTransGen store.DirectlyOwns inner other :=
      ReflTransGen.mono (fun _ _ => within_emptied.directlyOwns) _ _ hpath
    exact hfar (hrest.head hstep)

end StackLang.Store
