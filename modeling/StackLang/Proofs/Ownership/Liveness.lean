import Mathlib.Data.Fintype.Card
import Mathlib.Data.Set.Finite.List
import Mathlib.Order.WellFounded
import StackLang.Proofs.Ownership.Reachability

/-!
# Which shared objects stay alive

An object dies when its last handle goes, and its own handles go with it.  What is
left in the end is what somebody outside the store can come to, and what hangs on a
circle of objects that own each other.  There is nothing else.
-/

namespace StackLang.Store

open Relation

variable {store : Store} {roots : List Token} {objects : List SharedObject}
  {owner object : SharedObject}

/-- A handle of the second object is somewhere inside the first. -/
def Owns (store : Store) (owner object : SharedObject) : Prop :=
  object ∈ Token.ownedByAll (store.contents owner)

@[simp]
theorem dictionary_mem_objects {id : DictId} :
    .dictionary id ∈ store.objects ↔ id.index < store.dictionaries.size := by
  constructor
  · simp only [Store.objects, List.mem_append, List.mem_map, List.mem_range]
    rintro (⟨i, hlt, heq⟩ | ⟨i, -, heq⟩) <;> cases heq
    exact hlt
  · intro hlt
    exact List.mem_append_left _ (List.mem_map.2 ⟨id.index, List.mem_range.2 hlt, rfl⟩)

@[simp]
theorem table_mem_objects {id : TableId} :
    .table id ∈ store.objects ↔ id.index < store.tables.size := by
  constructor
  · simp only [Store.objects, List.mem_append, List.mem_map, List.mem_range]
    rintro (⟨i, -, heq⟩ | ⟨i, hlt, heq⟩) <;> cases heq
    exact hlt
  · intro hlt
    exact List.mem_append_right _ (List.mem_map.2 ⟨id.index, List.mem_range.2 hlt, rfl⟩)

theorem Owns.mem_objects (howns : store.Owns owner object) : owner ∈ store.objects := by
  by_contra habsent
  cases owner with
  | dictionary id =>
    have hlarge := Nat.le_of_not_lt fun hlt => habsent (dictionary_mem_objects.2 hlt)
    simp [Owns, contents, dictionary_eq_empty hlarge, Dictionary.empty, Dictionary.tokens,
      Token.ownedByAll] at howns
  | table id =>
    have hlarge := Nat.le_of_not_lt fun hlt => habsent (table_mem_objects.2 hlt)
    simp [Owns, contents, table, Array.getElem?_eq_none hlarge, OverloadTree.functions,
      Token.ownedByAll] at howns

theorem DirectlyOwns.owns {outer inner : DictId} (howns : store.DirectlyOwns outer inner) :
    store.Owns (.dictionary outer) (.dictionary inner) := by
  obtain ⟨token, hmem, howned⟩ := directlyOwns_iff.1 howns
  refine Token.mem_ownedByAll.2 ⟨token, hmem, ?_⟩
  unfold Token.ownedDictionary? at howned
  split at howned
  · obtain rfl := Option.some.inj howned
    simp [Token.owned, Value.owned]
  · cases howned

theorem mem_supported :
    object ∈ store.supported roots objects ↔ object ∈ objects ∧
      (object ∈ Token.ownedByAll roots ∨ ∃ owner ∈ objects, store.Owns owner object) := by
  simp [supported, Owns]

theorem supported_sublist : (store.supported roots objects).Sublist objects :=
  List.filter_sublist

/-- Objects that support each other are never dropped. -/
theorem mem_prune {kept : SharedObject → Prop} {rounds : Nat}
    (hkept : ∀ object, kept object →
      object ∈ Token.ownedByAll roots ∨ ∃ owner, kept owner ∧ store.Owns owner object)
    (hmem : ∀ object, kept object → object ∈ objects) (hobject : kept object) :
    object ∈ store.prune roots rounds objects := by
  induction rounds generalizing objects with
  | zero => exact hmem object hobject
  | succ rounds ih =>
    rw [prune]
    split
    · exact hmem object hobject
    · refine ih fun object hobject => mem_supported.2 ⟨hmem object hobject, ?_⟩
      exact (hkept object hobject).imp_right fun ⟨owner, howner, howns⟩ =>
        ⟨owner, hmem owner howner, howns⟩

/-- Pruning ends with objects that support each other. -/
theorem supported_prune {rounds : Nat} (hrounds : objects.length ≤ rounds) :
    store.supported roots (store.prune roots rounds objects) =
      store.prune roots rounds objects := by
  induction rounds generalizing objects with
  | zero =>
    obtain rfl := List.length_eq_zero_iff.1 (Nat.le_zero.1 hrounds)
    rfl
  | succ rounds ih =>
    rw [prune]
    split
    case isTrue hsame => exact supported_sublist.eq_of_length hsame
    case isFalse hfewer =>
      have hle : (store.supported roots objects).length ≤ objects.length :=
        supported_sublist.length_le
      exact ih (by omega)

theorem length_objects (store : Store) :
    store.objects.length = store.dictionaries.size + store.tables.size := by
  simp [Store.objects]

theorem prune_subset {rounds : Nat} : store.prune roots rounds objects ⊆ objects := by
  induction rounds generalizing objects with
  | zero => exact List.Subset.refl objects
  | succ rounds ih =>
    rw [prune]
    split
    · exact List.Subset.refl objects
    · exact List.Subset.trans ih supported_sublist.subset

/-- What is alive has a handle outside the store or in something that is alive. -/
theorem supported_of_mem_alive (halive : object ∈ store.alive roots) :
    object ∈ Token.ownedByAll roots ∨ ∃ owner ∈ store.alive roots, store.Owns owner object := by
  have hsupported : store.supported roots (store.alive roots) = store.alive roots :=
    supported_prune (le_of_eq store.length_objects)
  rw [← hsupported] at halive
  exact (mem_supported.1 halive).2

/-- An object owns itself through a chain of handles. -/
def OnCircle (store : Store) (object : SharedObject) : Prop :=
  TransGen store.Owns object object

/-- Following owners backwards from an object that nobody outside can come to does not
end, and there are finitely many objects, so some owner comes up again. -/
theorem exists_onCircle (halive : object ∈ store.alive roots)
    (houtside : ∀ root ∈ Token.ownedByAll roots, ¬ ReflTransGen store.Owns root object) :
    ∃ owner, store.OnCircle owner ∧ ReflTransGen store.Owns owner object := by
  by_contra hnone
  push Not at hnone
  let Behind := {owner // owner ∈ store.alive roots ∧ ReflTransGen store.Owns owner object}
  have hfinite : Finite Behind :=
    (List.finite_toSet (store.alive roots)).subset fun owner howner => howner.1
  let Before (left right : Behind) : Prop := TransGen store.Owns left.1 right.1
  have hirrefl : Std.Irrefl Before :=
    ⟨fun owner hcircle => hnone owner.1 hcircle owner.2.2⟩
  have htrans : IsTrans Behind Before := ⟨fun _ _ _ => TransGen.trans⟩
  obtain ⟨first, -, hfirst⟩ := (Finite.wellFounded_of_trans_of_irrefl Before).has_min Set.univ
    ⟨⟨object, halive, .refl⟩, Set.mem_univ _⟩
  obtain hroot | ⟨owner, howner, howns⟩ := supported_of_mem_alive first.2.1
  · exact houtside first.1 hroot first.2.2
  · exact hfirst ⟨owner, howner, first.2.2.head howns⟩ (Set.mem_univ _) (.single howns)

/-- Somebody outside the store can come to an object, or it hangs on a circle. -/
def Held (store : Store) (roots : List Token) (object : SharedObject) : Prop :=
  (∃ root ∈ Token.ownedByAll roots, ReflTransGen store.Owns root object) ∨
    ∃ owner, store.OnCircle owner ∧ ReflTransGen store.Owns owner object

/-- What is held is held by a handle outside or in something that is held. -/
theorem Held.supported (hheld : store.Held roots object) :
    object ∈ Token.ownedByAll roots ∨
      ∃ owner, (owner ∈ store.objects ∧ store.Held roots owner) ∧ store.Owns owner object := by
  obtain ⟨root, hroot, hpath⟩ | ⟨owner, hcircle, hpath⟩ := hheld
  · obtain rfl | ⟨last, hlast, howns⟩ := hpath.cases_tail
    · exact .inl hroot
    · exact .inr ⟨last, ⟨howns.mem_objects, .inl ⟨root, hroot, hlast⟩⟩, howns⟩
  · have hlong : TransGen store.Owns owner object := hcircle.trans_left hpath
    obtain ⟨last, hlast, howns⟩ := TransGen.tail'_iff.1 hlong
    exact .inr ⟨last, ⟨howns.mem_objects, .inr ⟨owner, hcircle, hlast⟩⟩, howns⟩

/-- An object is alive exactly if somebody outside can come to it or it hangs on a
circle. -/
theorem mem_alive_iff :
    object ∈ store.alive roots ↔ object ∈ store.objects ∧ store.Held roots object := by
  constructor
  · intro halive
    refine ⟨prune_subset halive, or_iff_not_imp_left.2 fun houtside => ?_⟩
    push Not at houtside
    exact exists_onCircle halive houtside
  · intro hheld
    exact mem_prune (fun _ (hkept : _ ∧ _) => hkept.2.supported) (fun _ => And.left) hheld

theorem lt_of_isAlive {id : DictId} (halive : store.isAlive roots id = true) :
    id.index < store.dictionaries.size :=
  dictionary_mem_objects.1 (prune_subset (List.contains_iff_mem.1 halive))

theorem isAlive_iff {id : DictId} (hlt : id.index < store.dictionaries.size) :
    store.isAlive roots id = true ↔ store.Held roots (.dictionary id) := by
  rw [isAlive, List.contains_iff_mem, mem_alive_iff,
    and_iff_right (dictionary_mem_objects.2 hlt)]

end StackLang.Store
