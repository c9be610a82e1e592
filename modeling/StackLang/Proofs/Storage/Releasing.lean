import StackLang.Proofs.Storage.Books

/-!
# Giving back always succeeds

Whoever has the assets of a token in hand can give the token back: no step faults, and
afterwards the assets are gone and nothing else is.  An object that lost its last handle
is emptied, which may take further handles; each time there is one object less that has a
handle, so the depth to which objects are emptied is never reached.
-/

namespace StackLang

namespace Store

variable {store : Store} {object other : SharedObject}

/-- The store without the contents of an object. -/
def forgetting (object : SharedObject) (store : Store) : Store :=
  match object with
  | .dictionary id => store.modifyDictionary id fun _ => .empty
  | .table id => store.setTable id .empty

theorem objects_forgetting : (store.forgetting object).objects = store.objects := by
  cases object with
  | dictionary id => exact objects_congr (by simp [forgetting, modifyDictionary]) rfl
  | table id => exact store.objects_setTable id .empty

theorem contents_forgetting_ne (hne : other ≠ object) :
    (store.forgetting object).contents other = store.contents other := by
  cases object with
  | dictionary id => exact contents_modifyDictionary_ne _ hne
  | table id => exact contents_setTable_ne .empty hne

theorem contents_forgetting_self : (store.forgetting object).contents object = [] := by
  by_cases hmem : object ∈ store.objects
  · cases object with
    | dictionary id =>
      rw [contents_dictionary, forgetting,
        dictionary_modifyDictionary_self _ (dictionary_mem_objects.1 hmem)]
      rfl
    | table id =>
      rw [contents_table, forgetting, table_setTable_self _ (table_mem_objects.1 hmem)]
      rfl
  · exact contents_of_not_mem (by rwa [objects_forgetting])

theorem bodies_forgetting : (store.forgetting object).bodies = store.bodies := by
  cases object <;> rfl

end Store

namespace Workspace

variable {work next : Workspace} {hand : Multiset Asset} {object : SharedObject}

/-- The workspace without the contents of an object. -/
def forgotten (object : SharedObject) (work : Workspace) : Workspace :=
  { work with store := work.store.forgetting object }

/-- Nothing was added: the slots and the installation are the same, there are no new
objects, contents and handles, and an object has its contents or none. -/
structure Shrinks (work next : Workspace) : Prop where
  slots : next.slots = work.slots
  objects : next.store.objects = work.store.objects
  contents : ∀ object, next.store.contents object = work.store.contents object ∨
    next.store.contents object = []
  handles : next.handles ⊆ work.handles
  installation : SameInstallation work next

namespace Shrinks

theorem refl (work : Workspace) : Shrinks work work :=
  ⟨rfl, rfl, fun _ => .inl rfl, List.Subset.refl _, .refl work⟩

theorem trans {mid : Workspace} (hfirst : Shrinks work mid) (hsecond : Shrinks mid next) :
    Shrinks work next where
  slots := hsecond.slots.trans hfirst.slots
  objects := hsecond.objects.trans hfirst.objects
  contents := fun object => (hsecond.contents object).elim
    (fun hsame => hsame ▸ hfirst.contents object) .inr
  handles := List.Subset.trans hsecond.handles hfirst.handles
  installation := hfirst.installation.trans hsecond.installation

theorem of_sameTokens (hsame : SameTokens work next) (hinstallation : SameInstallation work next) :
    Shrinks work next where
  slots := hsame.slots
  objects := by rw [hsame.store]
  contents := fun object => .inl (by rw [hsame.store])
  handles := by rw [hsame.handles]; exact List.Subset.refl _
  installation := hinstallation

theorem withoutHandle (shared : Shared) (work : Workspace) :
    Shrinks work (work.withoutHandle shared) :=
  ⟨rfl, rfl, fun _ => .inl rfl, List.erase_subset, ⟨rfl, rfl⟩⟩

theorem forgotten (object : SharedObject) (work : Workspace) :
    Shrinks work (work.forgotten object) where
  slots := rfl
  objects := Store.objects_forgetting
  contents := by
    intro other
    by_cases heq : other = object
    · exact .inr (heq ▸ Store.contents_forgetting_self)
    · exact .inl (Store.contents_forgetting_ne heq)
  handles := List.Subset.refl _
  installation := ⟨rfl, rfl⟩

end Shrinks

/-- How many objects have a handle. -/
def heldObjects (work : Workspace) : Nat :=
  (work.store.objects.filter fun object => .object object ∈ work.handles).length

theorem Shrinks.held_sublist (hshrinks : Shrinks work next) :
    (next.store.objects.filter fun object => .object object ∈ next.handles).Sublist
      (work.store.objects.filter fun object => .object object ∈ work.handles) := by
  rw [hshrinks.objects]
  refine List.monotone_filter_right _ fun object hmem => ?_
  exact decide_eq_true (hshrinks.handles (of_decide_eq_true hmem))

theorem Shrinks.heldObjects_le (hshrinks : Shrinks work next) :
    next.heldObjects ≤ work.heldObjects :=
  hshrinks.held_sublist.length_le

/-- With the last handle of an object there is one held object less. -/
theorem heldObjects_withoutHandle_lt (hmem : .object object ∈ work.handles)
    (hobject : object ∈ work.store.objects)
    (hlast : .object object ∉ (work.withoutHandle (.object object)).handles) :
    (work.withoutHandle (.object object)).heldObjects < work.heldObjects := by
  have hsublist := (Shrinks.withoutHandle (.object object) work).held_sublist
  refine Nat.lt_of_le_of_ne hsublist.length_le fun heq => hlast ?_
  have hsame := hsublist.eq_of_length heq
  have hheld : object ∈ work.store.objects.filter fun object => .object object ∈ work.handles :=
    List.mem_filter.2 ⟨hobject, decide_eq_true hmem⟩
  rw [← hsame] at hheld
  exact of_decide_eq_true (List.mem_filter.1 hheld).2

theorem heldObjects_le (work : Workspace) : work.heldObjects ≤ work.store.objects.length :=
  List.length_filter_le _ _

namespace Holds

theorem books_withoutHandle (hholds : Holds work (.object object ::ₘ hand)) :
    ∃ bodies, Books (work.withoutHandle (.object object)) (hand + work.assets + inside bodies)
      bodies := by
  obtain ⟨bodies, hbooks⟩ := hholds.books
  rw [Multiset.cons_add, Multiset.cons_add] at hbooks
  exact ⟨bodies, hbooks.dropObject⟩

theorem emptied_withoutHandle (hholds : Holds work hand) {other : SharedObject}
    (hne : other ≠ object)
    (habsent : .object other ∉ (work.withoutHandle (.object object)).handles) :
    work.store.contents other = [] :=
  hholds.emptied other fun hmem => habsent ((List.mem_erase_of_ne (by simpa using hne)).2 hmem)

/-- A handle of an object goes that is not the last one. -/
theorem dropObject (hholds : Holds work (.object object ::ₘ hand))
    (hleft : .object object ∈ (work.withoutHandle (.object object)).handles) :
    Holds (work.withoutHandle (.object object)) hand where
  books := hholds.books_withoutHandle
  emptied := by
    intro other habsent
    by_cases heq : other = object
    · exact absurd (heq ▸ hleft) habsent
    · exact hholds.emptied_withoutHandle heq habsent

/-- With the last handle of an object its contents are in hand. -/
theorem dropLastObject (hholds : Holds work (.object object ::ₘ hand)) :
    Holds ((work.withoutHandle (.object object)).forgotten object)
      (Token.assetsOfAll (work.store.contents object) + hand) where
  books := by
    obtain ⟨bodies, hbooks⟩ := hholds.books_withoutHandle
    refine ⟨bodies, ?_⟩
    have hassets : (work.store.forgetting object).assets +
        Token.assetsOfAll (work.store.contents object) = work.store.assets := by
      have hchange := Store.assets_change Store.objects_forgetting fun other =>
        @Store.contents_forgetting_ne work.store object other
      rwa [Store.contents_forgetting_self, Token.assetsOfAll_nil, add_zero] at hchange
    have howed : Token.assetsOfAll (work.store.contents object) + hand +
        ((work.withoutHandle (.object object)).forgotten object).assets = hand + work.assets := by
      rw [assets_eq, assets_eq, ← hassets]
      change _ + hand + (work.slotAssets + (work.store.forgetting object).assets) = _
      ac_rfl
    rw [howed]
    refine hbooks.congr rfl rfl rfl ?_ (Nat.le_of_eq Store.bodies_forgetting.symm)
    exact fun other hmem => Store.objects_forgetting.symm ▸ hmem
  emptied := by
    intro other habsent
    by_cases heq : other = object
    · exact heq ▸ Store.contents_forgetting_self
    · exact (Store.contents_forgetting_ne heq).trans
        (hholds.emptied_withoutHandle heq habsent)

end Holds

/-! ## Actions that give back -/

/-- An action gives back what is in hand besides `hand`, without a fault. -/
def GivesBack (action : Work Unit) (work : Workspace) (hand : Multiset Asset) : Prop :=
  ∃ next, action work = .ok () next ∧ Holds next hand ∧ Shrinks work next

namespace GivesBack

theorem nothing (hholds : Holds work hand) : GivesBack (pure ()) work hand :=
  ⟨work, rfl, hholds, .refl work⟩

theorem bind {first second : Work Unit} {mid : Multiset Asset}
    (hfirst : GivesBack first work mid)
    (hsecond : ∀ later, Holds later mid → Shrinks work later → GivesBack second later hand) :
    GivesBack (first >>= fun _ => second) work hand := by
  obtain ⟨later, hrun, hholds, hshrinks⟩ := hfirst
  obtain ⟨next, hlast, hnext, hmore⟩ := hsecond later hholds hshrinks
  refine ⟨next, ?_, hnext, hshrinks.trans hmore⟩
  simp only [Bind.bind, EStateM.bind, hrun]
  exact hlast

theorem freeBlock {tag : TypeTag} {home : Home} (hholds : Holds work (.datum tag home ::ₘ hand)) :
    GivesBack (Workspace.freeBlock tag home) work hand := by
  obtain ⟨next, hrun, hsame, hinstallation, hnext⟩ := hholds.freeBlock
  exact ⟨next, hrun, hnext, .of_sameTokens hsame hinstallation⟩

/-- What happens after a handle is dropped, depending on whether it was the last. -/
theorem dropHandle {shared : Shared} {action : Work Unit}
    (hleft : shared ∈ (work.withoutHandle shared).handles →
      Holds (work.withoutHandle shared) hand)
    (hlast : shared ∉ (work.withoutHandle shared).handles →
      GivesBack action (work.withoutHandle shared) hand) :
    GivesBack (do if ← Workspace.dropHandle shared then action) work hand := by
  by_cases hmem : shared ∈ (work.withoutHandle shared).handles
  · refine ⟨work.withoutHandle shared, ?_, hleft hmem, .withoutHandle shared work⟩
    simp only [Bind.bind, EStateM.bind, dropHandle_eq, List.contains_iff_mem.2 hmem]
    rfl
  · obtain ⟨next, hrun, hnext, hshrinks⟩ := hlast hmem
    refine ⟨next, ?_, hnext, (Shrinks.withoutHandle shared work).trans hshrinks⟩
    have hcontains : (work.withoutHandle shared).handles.contains shared = false := by
      simpa using hmem
    simp only [Bind.bind, EStateM.bind, dropHandle_eq, hcontains]
    exact hrun

end GivesBack

/-- The action gives back the contents of an object that has lost its last handle, as long
as fewer than `bound` objects have a handle. -/
def Empties (bound : Nat) (empty : SharedObject → Work Unit) : Prop :=
  ∀ {work : Workspace} {object : SharedObject} {hand : Multiset Asset},
    work.heldObjects < bound →
    Holds (work.forgotten object) (Token.assetsOfAll (work.store.contents object) + hand) →
    GivesBack (empty object) work hand

variable {bound : Nat} {empty : SharedObject → Work Unit}

/-- A handle of an object goes, and with the last one the contents of the object. -/
theorem Empties.dropObject (hempties : Empties bound empty) (hbound : work.heldObjects ≤ bound)
    (hholds : Holds work (.object object ::ₘ hand)) :
    GivesBack (do if ← dropHandle (.object object) then empty object) work hand := by
  refine .dropHandle hholds.dropObject fun hlast => hempties ?_ hholds.dropLastObject
  have hmem := hholds.handles_of_mem (Multiset.mem_cons_self _ _)
  have hfewer := heldObjects_withoutHandle_lt hmem (hholds.mem_objects hmem) hlast
  omega

end Workspace

open Workspace

mutual

theorem Value.release_givesBack {work : Workspace} {hand : Multiset Asset} {bound : Nat}
    {empty : SharedObject → Work Unit} (hempties : Empties bound empty) (value : Value)
    (hbound : work.heldObjects ≤ bound) (hholds : Holds work (value.assets + hand)) :
    GivesBack (value.release empty) work hand := by
  cases value with
  | procedure id body | litProcedure id body =>
    rw [Value.assets, Multiset.singleton_add] at hholds
    have hdrop := hholds.dropBody
    rw [Value.release]
    -- Other tokens may share the body: only with the last one its elements are given back.
    refine .dropHandle (fun hleft => by rwa [if_pos hleft] at hdrop) fun hlast => ?_
    rw [if_neg hlast] at hdrop
    have hfewer := (Shrinks.withoutHandle (.body id) work).heldObjects_le
    exact Token.releaseAll_givesBack hempties body (hfewer.trans hbound) hdrop
  | array items =>
    rw [Value.assets] at hholds
    rw [Value.release]
    exact Token.releaseAll_givesBack hempties items hbound hholds
  | callback action =>
    rw [Value.assets] at hholds
    rw [Value.release]
    exact Token.release_givesBack hempties action hbound hholds
  | dictionary handle =>
    cases handle with
    | owned id =>
      rw [Value.assets, Multiset.singleton_add] at hholds
      rw [Value.release]
      exact hempties.dropObject hbound hholds
    | aliased id =>
      simp only [Value.release]
      exact .nothing (by simpa [Value.assets] using hholds)
  | table name id =>
    rw [Value.assets, Multiset.singleton_add] at hholds
    rw [Value.release]
    exact hempties.dropObject hbound hholds
  | _ =>
    simp only [Value.release]
    exact .nothing (by simpa [Value.assets] using hholds)

/-- A token in hand can be given back. -/
theorem Token.release_givesBack {work : Workspace} {hand : Multiset Asset} {bound : Nat}
    {empty : SharedObject → Work Unit} (hempties : Empties bound empty) (token : Token)
    (hbound : work.heldObjects ≤ bound) (hholds : Holds work (token.assets + hand)) :
    GivesBack (token.release empty) work hand := by
  cases token with
  | void =>
    rw [Token.release]
    exact .nothing (by simpa using hholds)
  | datum value attributes =>
    rw [Token.assets_datum, Multiset.cons_add, ← Multiset.add_cons] at hholds
    rw [Token.release]
    exact (Value.release_givesBack hempties value hbound hholds).bind fun later hlater _ =>
      .freeBlock hlater

theorem Token.releaseAll_givesBack {work : Workspace} {hand : Multiset Asset} {bound : Nat}
    {empty : SharedObject → Work Unit} (hempties : Empties bound empty) (tokens : List Token)
    (hbound : work.heldObjects ≤ bound) (hholds : Holds work (Token.assetsOfAll tokens + hand)) :
    GivesBack (Token.releaseAll empty tokens) work hand := by
  cases tokens with
  | nil =>
    rw [Token.releaseAll]
    exact .nothing (by simpa using hholds)
  | cons token rest =>
    rw [Token.assetsOfAll_cons, add_assoc] at hholds
    rw [Token.releaseAll]
    refine (Token.release_givesBack hempties token hbound hholds).bind
      fun later hlater hshrinks => ?_
    exact Token.releaseAll_givesBack hempties rest (hshrinks.heldObjects_le.trans hbound) hlater

end

namespace Workspace

variable {work : Workspace} {hand : Multiset Asset}

theorem empties_emptyWithin (depth : Nat) : Empties depth (emptyWithin depth) := by
  induction depth with
  | zero => exact fun hbound _ => absurd hbound (Nat.not_lt_zero _)
  | succ depth ih =>
    intro work object hand hbound hholds
    have hshrinks := Shrinks.forgotten object work
    have hfewer := hshrinks.heldObjects_le
    obtain ⟨next, hrun, hnext, hmore⟩ :=
      Token.releaseAll_givesBack ih (work.store.contents object) (by omega) hholds
    exact ⟨next, hrun, hnext, hshrinks.trans hmore⟩

/-- There are never more objects with a handle than objects. -/
theorem empties_empty (bound : Nat) : Empties bound Workspace.empty := by
  intro work object hand _ hholds
  exact empties_emptyWithin (work.store.objects.length + 1)
    (Nat.lt_succ_of_le work.heldObjects_le) hholds

/-- Whoever has a token in hand can give it back. -/
theorem Holds.release {token : Token} (hholds : Holds work (token.assets + hand)) :
    GivesBack (Workspace.release token) work hand :=
  token.release_givesBack (empties_empty _) (Nat.le_refl work.heldObjects) hholds

theorem Holds.releaseValue {value : Value} (hholds : Holds work (value.assets + hand)) :
    GivesBack (value.release Workspace.empty) work hand :=
  value.release_givesBack (empties_empty _) (Nat.le_refl work.heldObjects) hholds

end Workspace

end StackLang
