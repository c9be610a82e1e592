import StackLang.Proofs.Ownership.Reachability
import StackLang.Proofs.Plain

/-!
# Writing dictionaries

All writes come down to two: a token is stored, as it is or as an alias, or tokens are
taken away.  A property that these two keep is kept by any sequence of writes.
-/

namespace StackLang

open Relation

/-- A write of dictionaries. -/
inductive DictionaryWrite where
  | insert (target : DictId) (name : Name) (token : Token)
  | remove (target : DictId) (name : Name)
  | merge (source target : DictId)
  | unmerge (source target : DictId)
  | clear (target : DictId)

namespace DictionaryWrite

/-- What a write does; a merge that is refused changes nothing. -/
def apply : DictionaryWrite → Store → Store
  | insert target name token, store => store.insert target name token
  | remove target name, store => store.remove target name
  | merge source target, store => (store.merge source target).toOption.getD store
  | unmerge source target, store => store.unmerge source target
  | clear target, store => store.clear target

/-- What writes do one after the other. -/
def applyAll (writes : List DictionaryWrite) (store : Store) : Store :=
  writes.foldl (fun store write => write.apply store) store

/-- The tokens that a write brings in. -/
def tokens : DictionaryWrite → List Token
  | insert _ _ token => [token]
  | remove .. | merge .. | unmerge .. | clear _ => []

end DictionaryWrite

namespace Store

variable {store next : Store} {id target source : DictId} {name : Name} {token : Token}

/-- No dictionary has a token that it did not have before, and there are no other
dictionaries and tables than before. -/
structure Within (next store : Store) : Prop where
  tokens : ∀ id, (next.dictionary id).tokens ⊆ (store.dictionary id).tokens
  size : next.dictionaries.size = store.dictionaries.size
  tables : next.tables = store.tables

theorem Within.refl (store : Store) : store.Within store :=
  ⟨fun _ => List.Subset.refl _, rfl, rfl⟩

theorem Within.trans {last : Store} (hlast : last.Within next) (hnext : next.Within store) :
    last.Within store where
  tokens := fun id => List.Subset.trans (hlast.tokens id) (hnext.tokens id)
  size := hlast.size.trans hnext.size
  tables := hlast.tables.trans hnext.tables

theorem Within.foldl {α : Type} {f : Store → α → Store} {items : List α}
    (hstep : ∀ store item, (f store item).Within store) : (items.foldl f store).Within store := by
  induction items generalizing store with
  | nil => exact .refl store
  | cons item rest ih => exact ih.trans (hstep store item)

theorem Within.modifyDictionary {f : Dictionary → Dictionary}
    (hf : (f (store.dictionary target)).tokens ⊆ (store.dictionary target).tokens) :
    (store.modifyDictionary target f).Within store := by
  refine ⟨fun other token hmem => ?_, by simp [Store.modifyDictionary], rfl⟩
  by_cases hother : other = target
  · subst hother
    exact (mem_tokens_of_modifyDictionary hmem).elim id fun hnew => hf hnew
  · rwa [dictionary_modifyDictionary_ne f hother] at hmem

theorem within_report {event : Event} : (store.report event).Within store :=
  ⟨fun _ => List.Subset.refl _, rfl, rfl⟩

theorem within_remove : (store.remove target name).Within store := by
  refine .modifyDictionary fun token hmem => ?_
  simp only [Dictionary.erase, Dictionary.tokens, List.mem_map, List.mem_filter] at hmem ⊢
  obtain ⟨entry, ⟨hentry, -⟩, rfl⟩ := hmem
  exact ⟨entry, hentry, rfl⟩

theorem within_unmerge : (store.unmerge source target).Within store :=
  .foldl fun _ _ => within_remove

theorem within_clearWithin {depth : Nat} {path : List DictId} :
    (store.clearWithin depth path id).Within store := by
  induction depth generalizing store path id with
  | zero => exact .refl store
  | succ depth ih =>
    refine .trans (.foldl fun store entry => ?_) (.modifyDictionary (List.nil_subset _))
    split
    · exact .refl store
    · split
      · exact .refl store
      · split
        · exact within_report
        · exact ih

/-- The token that a write stores for another one. -/
def accepted (store : Store) (target : DictId) (token : Token) : Token :=
  match store.cycleThrough? target token with
  | none => token
  | some id => token.mapValue fun _ => .dictionary (.aliased id)

theorem accepted_of_no_handle (hnone : token.ownedDictionary? = none) :
    store.accepted target token = token := by
  simp [accepted, cycleThrough?, hnone]

theorem accepted_of_not_reaches (howned : token.ownedDictionary? = some id)
    (hback : ¬ ReflTransGen store.DirectlyOwns id target) :
    store.accepted target token = token := by
  rw [← reaches_iff] at hback
  have hnone : store.cycleThrough? target token = none := by
    simp [cycleThrough?, howned, Option.filter, hback]
  rw [accepted, hnone]

theorem accepted_of_reaches (howned : token.ownedDictionary? = some id)
    (hback : ReflTransGen store.DirectlyOwns id target) :
    store.accepted target token = token.mapValue fun _ => .dictionary (.aliased id) := by
  rw [← reaches_iff] at hback
  have hcycle : store.cycleThrough? target token = some id := by
    simp [cycleThrough?, howned, Option.filter, hback]
  rw [accepted, hcycle]

theorem dictionary_insert_ne (hne : id ≠ target) :
    (store.insert target name token).dictionary id = store.dictionary id := by
  unfold insert
  split <;> simp [hne]

theorem dictionary_insert_self (hlt : target.index < store.dictionaries.size) :
    (store.insert target name token).dictionary target =
      (store.dictionary target).insert name (store.accepted target token) := by
  unfold insert accepted
  cases store.cycleThrough? target token <;> exact dictionary_modifyDictionary_self _ hlt

@[simp]
theorem size_insert :
    (store.insert target name token).dictionaries.size = store.dictionaries.size := by
  unfold insert
  split <;> simp [modifyDictionary]

@[simp]
theorem tables_insert : (store.insert target name token).tables = store.tables := by
  unfold insert
  split <;> rfl

/-- A write brings in one token, in the dictionary that it writes. -/
theorem mem_tokens_of_insert {bound : Token}
    (hmem : bound ∈ ((store.insert target name token).dictionary id).tokens) :
    bound ∈ (store.dictionary id).tokens ∨ id = target ∧ bound = store.accepted target token := by
  by_cases hid : id = target
  · subst hid
    by_cases hlt : id.index < store.dictionaries.size
    · rw [dictionary_insert_self hlt] at hmem
      exact (Dictionary.mem_tokens_of_insert hmem).symm.imp_right fun heq => ⟨rfl, heq⟩
    · rw [dictionary_eq_empty (by simpa using hlt)] at hmem
      simp [Dictionary.empty, Dictionary.tokens] at hmem
  · rw [dictionary_insert_ne hid] at hmem
    exact .inl hmem

/-- A handle that is stored as it is does not lead back. -/
theorem not_reaches_of_accepted
    (howned : (store.accepted target token).ownedDictionary? = some id) :
    ¬ ReflTransGen store.DirectlyOwns id target := by
  rw [← reaches_iff]
  intro hreaches
  unfold accepted at howned
  split at howned
  case h_1 hnone => simp [cycleThrough?, howned, hreaches] at hnone
  case h_2 => cases token <;> simp [Token.mapValue, Token.ownedDictionary?] at howned

/-! ## What all writes keep -/

/-- A property of stores with tokens of a kind, which writing such a token and taking
tokens away keep. -/
structure Stable (good : Token → Prop) (property : Store → Prop) : Prop where
  tokens : ∀ {store id token}, property store → token ∈ (store.dictionary id).tokens → good token
  insert : ∀ {store token}, property store → good token →
    ∀ target name, property (store.insert target name token)
  within : ∀ {store next}, property store → next.Within store → property next

variable {good : Token → Prop} {property : Store → Prop}

theorem Stable.copyEntries (hstable : Stable good property) (hstore : property store)
    (source target : DictId) : property (store.copyEntries source target) := by
  have hentries : ∀ entry ∈ (store.dictionary source).entries, good entry.2.token :=
    fun entry hentry => hstable.tokens hstore (List.mem_map_of_mem hentry)
  rw [Store.copyEntries]
  generalize (store.dictionary source).entries = entries at hentries
  induction entries generalizing store with
  | nil => exact hstore
  | cons entry rest ih =>
    have hnext := hstable.insert hstore (hentries entry (by simp)) target entry.1
    exact ih hnext fun later hlater => hentries later (by simp [hlater])

theorem Stable.apply (hstable : Stable good property) {write : DictionaryWrite}
    (hgood : ∀ token ∈ write.tokens, good token) (hstore : property store) :
    property (write.apply store) := by
  cases write with
  | insert target name token =>
    exact hstable.insert hstore (hgood token (List.mem_singleton_self token)) target name
  | remove target name => exact hstable.within hstore within_remove
  | unmerge source target => exact hstable.within hstore within_unmerge
  | clear target => exact hstable.within hstore within_clearWithin
  | merge source target =>
    rw [DictionaryWrite.apply, merge]
    split
    · exact hstore
    · exact hstable.copyEntries hstore source target

theorem Stable.applyAll (hstable : Stable good property) {writes : List DictionaryWrite}
    (hgood : ∀ write ∈ writes, ∀ token ∈ write.tokens, good token) (hstore : property store) :
    property (DictionaryWrite.applyAll writes store) := by
  induction writes generalizing store with
  | nil => exact hstore
  | cons write rest ih =>
    have hnext := hstable.apply (hgood write (by simp)) hstore
    exact ih (fun later hlater => hgood later (by simp [hlater])) hnext

theorem stable_shape (size : Nat) (tables : Array OverloadTree) :
    Stable (fun _ => True) fun store => store.dictionaries.size = size ∧ store.tables = tables where
  tokens := fun _ _ => trivial
  insert := fun hshape _ target name => by simpa using hshape
  within := fun hshape hwithin => ⟨hwithin.size.trans hshape.1, hwithin.tables.trans hshape.2⟩

end Store

end StackLang
