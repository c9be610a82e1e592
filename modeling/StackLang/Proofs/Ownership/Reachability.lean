import Mathlib.Data.Finset.Card
import Mathlib.Logic.Relation
import StackLang.Store.Ownership

/-!
# Paths of entries between dictionaries

A write looks for a path of entries from one dictionary to another by adding owned
dictionaries round by round.  The number of rounds is bounded, and this module shows
that the bound never cuts the search short: it finds a path exactly if there is one.

Every round but the last two finds a dictionary of the store that is new.  A handle
may also lead to a number that was never given out; such a dictionary has no entries,
so a round that finds nothing else is followed by none.
-/

namespace StackLang.Store

open Relation

variable {store : Store} {found : List DictId} {owner id source target : DictId}

/-- An entry of the first dictionary is a handle of the second. -/
def DirectlyOwns (store : Store) (owner id : DictId) : Prop :=
  id ∈ store.directlyOwned owner

theorem directlyOwns_iff :
    store.DirectlyOwns owner id ↔
      ∃ token ∈ (store.dictionary owner).tokens, token.ownedDictionary? = some id := by
  simp only [DirectlyOwns, directlyOwned, List.mem_filterMap]

theorem directlyOwns_iff_entry :
    store.DirectlyOwns owner id ↔
      ∃ entry ∈ (store.dictionary owner).entries, entry.2.token.ownedDictionary? = some id := by
  simp only [directlyOwns_iff, Dictionary.tokens, List.mem_map, exists_exists_and_eq_and]

theorem directlyOwns_congr {next : Store}
    (hsame : next.dictionary owner = store.dictionary owner) :
    next.DirectlyOwns owner id ↔ store.DirectlyOwns owner id := by
  rw [DirectlyOwns, directlyOwned, hsame, DirectlyOwns, directlyOwned]

theorem dictionary_eq_empty (hlarge : store.dictionaries.size ≤ id.index) :
    store.dictionary id = .empty := by
  simp [dictionary, Array.getElem?_eq_none hlarge]

theorem DirectlyOwns.owner_ne_empty (howns : store.DirectlyOwns owner id) :
    store.dictionary owner ≠ .empty := by
  obtain ⟨entry, hentry, -⟩ := directlyOwns_iff_entry.1 howns
  intro hempty
  rw [hempty] at hentry
  cases hentry

theorem DirectlyOwns.owner_lt (howns : store.DirectlyOwns owner id) :
    owner.index < store.dictionaries.size := by
  by_contra hlarge
  exact howns.owner_ne_empty (dictionary_eq_empty (Nat.le_of_not_lt hlarge))

/-- Whatever a dictionary among them owns is among them. -/
def Closed (store : Store) (found : List DictId) : Prop :=
  ∀ owner ∈ found, ∀ id, store.DirectlyOwns owner id → id ∈ found

theorem mem_frontier :
    id ∈ store.frontier found ↔ (∃ owner ∈ found, store.DirectlyOwns owner id) ∧ id ∉ found := by
  simp [frontier, DirectlyOwns]

theorem frontier_eq_nil_iff : store.frontier found = [] ↔ store.Closed found := by
  simp only [List.eq_nil_iff_forall_not_mem, mem_frontier, not_and, not_not, Closed]
  constructor
  · intro hnone owner hmem id howns
    exact hnone id ⟨owner, hmem, howns⟩
  · rintro hclosed id ⟨owner, hmem, howns⟩
    exact hclosed owner hmem id howns

theorem subset_closeUnder (store : Store) (rounds : Nat) (found : List DictId) :
    found ⊆ store.closeUnder rounds found := by
  induction rounds generalizing found with
  | zero => exact List.Subset.refl found
  | succ rounds ih =>
    rw [closeUnder]
    split
    · exact List.Subset.refl found
    · exact List.Subset.trans (List.subset_append_left _ _) (ih _)

theorem closeUnder_of_closed (hclosed : store.Closed found) (rounds : Nat) :
    store.closeUnder rounds found = found := by
  cases rounds with
  | zero => rfl
  | succ rounds => rw [closeUnder, frontier_eq_nil_iff.2 hclosed]

/-- The search finds only what a path leads to. -/
theorem reflTransGen_of_mem_closeUnder {rounds : Nat}
    (hfound : ∀ id ∈ found, ReflTransGen store.DirectlyOwns source id) :
    ∀ id ∈ store.closeUnder rounds found, ReflTransGen store.DirectlyOwns source id := by
  induction rounds generalizing found with
  | zero => exact hfound
  | succ rounds ih =>
    rw [closeUnder]
    split
    · exact hfound
    · refine ih fun id hmem => (List.mem_append.1 hmem).elim (hfound id) fun hnew => ?_
      obtain ⟨⟨owner, howner, howns⟩, -⟩ := mem_frontier.1 hnew
      exact (hfound owner howner).tail howns

/-- How many dictionaries of the store are not among those found. -/
def unseen (store : Store) (found : List DictId) : Nat :=
  {i ∈ Finset.range store.dictionaries.size | (⟨i⟩ : DictId) ∉ found}.card

theorem unseen_append_lt {more : List DictId} (hmem : id ∈ more) (hnew : id ∉ found)
    (hlt : id.index < store.dictionaries.size) :
    store.unseen (found ++ more) < store.unseen found := by
  refine Finset.card_lt_card (Finset.ssubset_iff_of_subset ?_ |>.2 ⟨id.index, ?_, ?_⟩)
  · intro i hi
    simp only [Finset.mem_filter, List.mem_append, not_or] at hi ⊢
    exact ⟨hi.1, hi.2.1⟩
  · simpa using ⟨hlt, hnew⟩
  · simp [hmem]

/-- Dictionaries that were never made own nothing, so they add nothing. -/
theorem closed_append_frontier
    (hforeign : ∀ id ∈ store.frontier found, store.dictionaries.size ≤ id.index) :
    store.Closed (found ++ store.frontier found) := by
  intro owner howner id howns
  obtain hseen | hnew := List.mem_append.1 howner
  · by_cases hid : id ∈ found
    · exact List.mem_append_left _ hid
    · exact List.mem_append_right _ (mem_frontier.2 ⟨⟨owner, hseen, howns⟩, hid⟩)
  · exact absurd howns.owner_lt (Nat.not_lt.2 (hforeign owner hnew))

theorem closed_closeUnder {rounds : Nat} (hrounds : store.unseen found < rounds) :
    store.Closed (store.closeUnder rounds found) := by
  induction rounds generalizing found with
  | zero => exact absurd hrounds (Nat.not_lt_zero _)
  | succ rounds ih =>
    rw [closeUnder]
    split
    case h_1 hnone => exact frontier_eq_nil_iff.1 hnone
    case h_2 =>
      by_cases hforeign : ∀ id ∈ store.frontier found, store.dictionaries.size ≤ id.index
      · have hclosed := closed_append_frontier hforeign
        rwa [closeUnder_of_closed hclosed]
      · push Not at hforeign
        obtain ⟨id, hmem, hlt⟩ := hforeign
        have hfewer := unseen_append_lt hmem (mem_frontier.1 hmem).2 hlt
        exact ih (by omega)

theorem Closed.mem_of_reflTransGen (hclosed : store.Closed found) (hmem : source ∈ found)
    (hpath : ReflTransGen store.DirectlyOwns source target) : target ∈ found := by
  induction hpath with
  | refl => exact hmem
  | tail _ howns ih => exact hclosed _ ih _ howns

theorem unseen_le (store : Store) (found : List DictId) :
    store.unseen found ≤ store.dictionaries.size := by
  simpa [unseen] using Finset.card_filter_le (Finset.range store.dictionaries.size) _

/-- The search for a path finds one exactly if there is one. -/
theorem reaches_iff :
    store.reaches source target = true ↔ ReflTransGen store.DirectlyOwns source target := by
  rw [reaches, List.contains_iff_mem, reachable]
  constructor
  · refine reflTransGen_of_mem_closeUnder ?_ target
    simp [ReflTransGen.refl]
  · have hclosed : store.Closed (store.closeUnder (store.dictionaries.size + 1) [source]) :=
      closed_closeUnder (Nat.lt_succ_of_le (store.unseen_le _))
    exact hclosed.mem_of_reflTransGen (store.subset_closeUnder _ _ (by simp))

end StackLang.Store
