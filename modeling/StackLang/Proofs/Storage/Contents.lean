import Mathlib.Algebra.BigOperators.Group.Finset.Basic
import StackLang.Proofs.Ownership.Liveness
import StackLang.Proofs.Ownership.Writes
import StackLang.Proofs.Storage.Assets

/-!
# What a write does to the assets of the store

A write binds one name, so what the store has to give back changes by what the name was
bound to and what it is bound to now.  An added overload adds its function, and a shared
object that is new has no contents.
-/

namespace StackLang

namespace Dictionary

variable {dictionary : Dictionary} {name : Name} {token : Token}

/-- The token that a name is bound to, void if it is not known. -/
def bound (dictionary : Dictionary) (name : Name) : Token :=
  (dictionary.peek? name).getD .void

theorem erase_of_not_mem (habsent : name ∉ dictionary.names) :
    (dictionary.erase name).entries = dictionary.entries := by
  refine List.filter_eq_self.2 fun entry hmem => bne_iff_ne.2 fun heq => habsent ?_
  exact heq ▸ List.mem_map_of_mem hmem

theorem assets_erase (dictionary : Dictionary) (name : Name) :
    Token.assetsOfAll (dictionary.erase name).tokens + (dictionary.bound name).assets =
      Token.assetsOfAll dictionary.tokens := by
  obtain ⟨entries, hnodup⟩ := dictionary
  simp only [tokens, erase, bound, peek?, get?]
  induction entries with
  | nil => simp
  | cons entry rest ih =>
    obtain ⟨known, slot⟩ := entry
    obtain ⟨habsent, hrest⟩ := List.nodup_cons.1 hnodup
    by_cases heq : known = name
    · subst heq
      have hsame : (rest.filter fun entry => entry.1 != known) = rest :=
        @erase_of_not_mem ⟨rest, hrest⟩ known habsent
      simp [hsame, add_comm]
    · have hne : (name == known) = false := beq_false_of_ne (Ne.symm heq)
      rw [List.filter_cons_of_pos (by simpa using heq), List.lookup_cons, hne]
      simp only [List.map_cons, Token.assetsOfAll_cons, add_assoc, ih hrest]

theorem assets_insert_eq_erase (dictionary : Dictionary) (name : Name) (token : Token) :
    Token.assetsOfAll (dictionary.insert name token).tokens =
      Token.assetsOfAll (dictionary.erase name).tokens + token.assets := by
  unfold insert
  split
  case isTrue hnew =>
    simp [tokens, erase_of_not_mem (get?_eq_none_iff.1 hnew)]
  case isFalse hknown =>
    obtain ⟨entries, hnodup⟩ := dictionary
    rw [get?_eq_none_iff, not_not] at hknown
    simp only [tokens, modify, mapSlots, erase, names] at hknown ⊢
    induction entries with
    | nil => cases hknown
    | cons entry rest ih =>
      obtain ⟨habsent, hrest⟩ := List.nodup_cons.1 hnodup
      by_cases heq : entry.1 = name
      · have hsame : (rest.filter fun entry => entry.1 != name) = rest :=
          @erase_of_not_mem ⟨rest, hrest⟩ name (heq ▸ habsent)
        have hmap : rest.map (fun entry => (if entry.1 = name then ({ token } : Slot)
            else entry.2).token) = rest.map fun entry => entry.2.token := by
          refine List.map_congr_left fun other hmem => ?_
          rw [if_neg]
          rintro rfl
          exact habsent (heq ▸ List.mem_map_of_mem hmem)
        simp [heq, hsame, hmap, Function.comp_def, add_comm]
      · have hmem : name ∈ rest.map Prod.fst :=
          (List.mem_cons.1 hknown).resolve_left (Ne.symm heq)
        have ih := ih hrest hmem
        rw [List.filter_cons_of_pos (by simpa using heq)]
        simp only [List.map_cons, Token.assetsOfAll_cons, add_assoc, if_neg heq]
        rw [ih]

/-- A write takes in a token and gives up what the name was bound to. -/
theorem assets_insert (dictionary : Dictionary) (name : Name) (token : Token) :
    Token.assetsOfAll (dictionary.insert name token).tokens + (dictionary.bound name).assets =
      Token.assetsOfAll dictionary.tokens + token.assets := by
  rw [assets_insert_eq_erase, ← dictionary.assets_erase name]
  ac_rfl

end Dictionary

namespace Store

variable {store next : Store} {object : SharedObject} {target : DictId} {name : Name}
  {token : Token}

/-- The tokens inside all shared objects. -/
def tokens (store : Store) : List Token :=
  store.objects.flatMap store.contents

/-- What the shared objects have to give back. -/
def assets (store : Store) : Multiset Asset :=
  Token.assetsOfAll store.tokens

theorem nodup_objects (store : Store) : store.objects.Nodup := by
  refine List.nodup_append.2 ⟨List.nodup_range.map fun i j heq => ?_,
    List.nodup_range.map fun i j heq => ?_, ?_⟩
  · exact congrArg DictId.index (SharedObject.dictionary.inj heq)
  · exact congrArg TableId.index (SharedObject.table.inj heq)
  · simp

theorem contents_of_not_mem (habsent : object ∉ store.objects) : store.contents object = [] := by
  cases object with
  | dictionary id =>
    rw [dictionary_mem_objects, Nat.not_lt] at habsent
    simp [contents, dictionary_eq_empty habsent, Dictionary.empty, Dictionary.tokens]
  | table id =>
    rw [table_mem_objects, Nat.not_lt] at habsent
    simp [contents, table, Array.getElem?_eq_none habsent, OverloadTree.functions]

/-- If one object gets other contents, the assets change by those of its contents. -/
theorem assets_change (hobjects : next.objects = store.objects)
    (hothers : ∀ other, other ≠ object → next.contents other = store.contents other) :
    next.assets + Token.assetsOfAll (store.contents object) =
      store.assets + Token.assetsOfAll (next.contents object) := by
  by_cases hmem : object ∈ store.objects
  · have hrest : (store.objects.erase object).map (fun other =>
        Token.assetsOfAll (next.contents other)) =
          (store.objects.erase object).map fun other =>
            Token.assetsOfAll (store.contents other) := by
      refine List.map_congr_left fun other hother => ?_
      rw [hothers other (store.nodup_objects.mem_erase_iff.1 hother).1]
    rw [assets, tokens, assets, tokens, Token.assetsOfAll_flatMap, Token.assetsOfAll_flatMap,
      hobjects, ← List.sum_map_erase _ hmem, ← List.sum_map_erase _ hmem, hrest]
    ac_rfl
  · have hsame : next.contents = store.contents := by
      funext other
      by_cases hother : other = object
      · rw [hother, contents_of_not_mem hmem, contents_of_not_mem (hobjects ▸ hmem)]
      · exact hothers other hother
    rw [assets, tokens, hobjects, hsame]
    rfl

theorem contents_dictionary (store : Store) (id : DictId) :
    store.contents (.dictionary id) = (store.dictionary id).tokens := rfl

theorem contents_table (store : Store) (id : TableId) :
    store.contents (.table id) = (store.table id).functions := rfl

theorem objects_congr (hdictionaries : next.dictionaries.size = store.dictionaries.size)
    (htables : next.tables.size = store.tables.size) : next.objects = store.objects := by
  rw [objects, objects, hdictionaries, htables]

/-! ## Dictionaries -/

theorem objects_insert : (store.insert target name token).objects = store.objects :=
  objects_congr size_insert (by rw [tables_insert])

theorem bodies_insert : (store.insert target name token).bodies = store.bodies := by
  unfold insert
  split <;> rfl

theorem contents_insert_ne (hne : object ≠ .dictionary target) :
    (store.insert target name token).contents object = store.contents object := by
  cases object with
  | dictionary id =>
    rw [contents_dictionary, contents_dictionary, dictionary_insert_ne fun heq => hne (by rw [heq])]
  | table id => simp [contents, table]

/-- What one object takes in and gives up, the store takes in and gives up. -/
theorem assets_exchange {given taken : Multiset Asset}
    (hobjects : next.objects = store.objects)
    (hothers : ∀ other, other ≠ object → next.contents other = store.contents other)
    (hchange : Token.assetsOfAll (next.contents object) + given =
      Token.assetsOfAll (store.contents object) + taken) :
    next.assets + given = store.assets + taken := by
  refine add_right_cancel (b := Token.assetsOfAll (store.contents object)) ?_
  calc next.assets + given + Token.assetsOfAll (store.contents object)
    _ = store.assets + Token.assetsOfAll (next.contents object) + given := by
      rw [← assets_change hobjects hothers]
      ac_rfl
    _ = store.assets + taken + Token.assetsOfAll (store.contents object) := by
      rw [add_assoc, hchange]
      ac_rfl

/-- A write takes in the token that it stores and gives up what the name was bound to. -/
theorem assets_insert (htarget : .dictionary target ∈ store.objects) (name : Name)
    (token : Token) :
    (store.insert target name token).assets + ((store.dictionary target).bound name).assets =
      store.assets + (store.accepted target token).assets := by
  refine assets_exchange objects_insert (fun other => contents_insert_ne) ?_
  rw [contents_dictionary, contents_dictionary,
    dictionary_insert_self (dictionary_mem_objects.1 htarget)]
  exact Dictionary.assets_insert _ name _

theorem objects_remove : (store.remove target name).objects = store.objects :=
  objects_congr (by simp [remove, modifyDictionary]) rfl

theorem contents_modifyDictionary_ne (f : Dictionary → Dictionary)
    (hne : object ≠ .dictionary target) :
    (store.modifyDictionary target f).contents object = store.contents object := by
  cases object with
  | dictionary id =>
    have hid : id ≠ target := fun heq => hne (by rw [heq])
    rw [contents_dictionary, contents_dictionary, dictionary_modifyDictionary_ne f hid]
  | table id => rfl

/-- Removing a name gives up what it was bound to. -/
theorem assets_remove (htarget : .dictionary target ∈ store.objects) (name : Name) :
    (store.remove target name).assets + ((store.dictionary target).bound name).assets =
      store.assets := by
  have herase : Token.assetsOfAll ((store.remove target name).contents (.dictionary target)) +
      ((store.dictionary target).bound name).assets =
        Token.assetsOfAll (store.contents (.dictionary target)) + 0 := by
    rw [contents_dictionary, contents_dictionary, add_zero, remove,
      dictionary_modifyDictionary_self _ (dictionary_mem_objects.1 htarget)]
    exact Dictionary.assets_erase _ name
  rw [assets_exchange objects_remove (fun other => contents_modifyDictionary_ne _) herase, add_zero]

/-! ## Tables -/

theorem objects_setTable (store : Store) (id : TableId) (tree : OverloadTree) :
    (store.setTable id tree).objects = store.objects :=
  objects_congr rfl (by simp [setTable])

theorem contents_setTable_ne {id : TableId} (tree : OverloadTree) (hne : object ≠ .table id) :
    (store.setTable id tree).contents object = store.contents object := by
  cases object with
  | dictionary other => rfl
  | table other =>
    have hother : other ≠ id := fun heq => hne (by rw [heq])
    rw [contents_table, contents_table, table_setTable_ne tree hother]

/-- An overload is added or refused; a refusal leaves the functions as they are. -/
theorem addOverload_ok {id : TableId} {signature : Signature} {function : Token}
    {accepted : Bool} (hlt : id.index < store.tables.size)
    (hadd : store.addOverload id signature function = .ok (accepted, next)) :
    next.objects = store.objects ∧ next.bodies = store.bodies ∧
      (∀ other, other ≠ .table id → next.contents other = store.contents other) ∧
      (next.contents (.table id)).Perm
        (if accepted then function :: store.contents (.table id)
          else store.contents (.table id)) := by
  obtain ⟨tree, events, hinsert, rfl⟩ := addOverload_eq_ok hadd
  have hcontents : ∀ object, ((store.setTable id tree).reportAll events).contents object =
      (store.setTable id tree).contents object := by
    intro object
    rw [reportAll_eq]
    cases object <;> rfl
  refine ⟨?_, by rw [reportAll_eq]; rfl, fun other hne => ?_, ?_⟩
  · rw [reportAll_eq]
    exact store.objects_setTable id tree
  · rw [hcontents, contents_setTable_ne tree hne]
  · rw [hcontents, contents_table, contents_table, table_setTable_self tree hlt]
    obtain ⟨-, ⟨hadded, rfl, -⟩ | ⟨refusal, -, rfl, rfl, -⟩⟩ := OverloadTree.insert_cases hinsert
    · exact (OverloadTree.adds_of_add hadded).functions_perm
    · exact .refl _

/-! ## New objects -/

theorem contents_newDictionary (object : SharedObject) :
    store.newDictionary.2.contents object = store.contents object := by
  cases object with
  | dictionary id =>
    rw [contents_dictionary, contents_dictionary, dictionary_newDictionary]
  | table id => rfl

theorem contents_newTable (object : SharedObject) :
    store.newTable.2.contents object = store.contents object := by
  cases object with
  | dictionary id => rfl
  | table id =>
    rw [contents_table, contents_table, table_newTable]

/-- Objects without contents add nothing. -/
theorem assets_of_contents (hobjects : store.objects ⊆ next.objects)
    (hcontents : ∀ object, next.contents object = store.contents object) :
    next.assets = store.assets := by
  rw [assets, tokens, assets, tokens, Token.assetsOfAll_flatMap, Token.assetsOfAll_flatMap,
    ← List.sum_toFinset _ next.nodup_objects, ← List.sum_toFinset _ store.nodup_objects]
  simp only [hcontents]
  refine (Finset.sum_subset (fun object => by simpa using @hobjects object) ?_).symm
  intro object _ habsent
  rw [contents_of_not_mem (by simpa using habsent), Token.assetsOfAll_nil]

theorem objects_newDictionary : store.objects ⊆ store.newDictionary.2.objects := by
  intro object hmem
  cases object with
  | dictionary id =>
    simp only [dictionary_mem_objects, newDictionary, Array.size_push] at hmem ⊢
    omega
  | table id => simpa [newDictionary] using hmem

theorem objects_newTable : store.objects ⊆ store.newTable.2.objects := by
  intro object hmem
  cases object with
  | dictionary id => simpa [newTable] using hmem
  | table id =>
    simp only [table_mem_objects, newTable, Array.size_push] at hmem ⊢
    omega

end Store

end StackLang
