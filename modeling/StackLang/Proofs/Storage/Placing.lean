import StackLang.Proofs.Storage.Releasing

/-!
# What making and copying bring in hand

Whoever makes a token has its assets in hand afterwards, besides what was in hand before.
If there is no room for a datum on the way, everything made until then is given back, and
what was in hand before is in hand again.
-/

namespace StackLang

namespace Workspace

variable {work next : Workspace} {hand : Multiset Asset} {object : SharedObject}

theorem GivesBack.ends {action : Work Unit} (hgives : GivesBack action work hand) :
    Ends (fun _ next => Shrinks work next ∧ Holds next hand) (fun next => Holds next hand)
      (action work) := by
  obtain ⟨next, hrun, hholds, hshrinks⟩ := hgives
  rw [hrun]
  exact .ok ⟨hshrinks, hholds⟩

theorem GivesBack.cleansUp {action : Work Unit} (hgives : GivesBack action work hand) :
    Ends (fun _ next => Holds next hand) (fun next => Holds next hand) (action work) :=
  hgives.ends.mono (fun _ _ hend => hend.2) fun _ => id

/-! ## Data -/

/-- A value in hand is put into a block. -/
theorem Holds.place {value : Value} (hholds : Holds work (value.assets + hand))
    (writeable : Bool) :
    Ends (fun token next => SameTokens work next ∧ Holds next (token.assets + hand))
      (fun next => Holds next hand) (Workspace.place value writeable work) := by
  refine Ends.bind
    ((hholds.alloc value.tag).onFault fun later hlater => hlater.2.releaseValue.cleansUp) ?_
  rintro block later ⟨hsame, hlater⟩
  refine .get (.ok ⟨hsame, ?_⟩)
  rwa [Token.assets_datum, Multiset.cons_add]

/-! ## Shared objects -/

/-- Two states with the same slots, the second one with at least the objects of the first. -/
structure Extends (work next : Workspace) : Prop where
  slots : next.slots = work.slots
  objects : work.store.objects ⊆ next.store.objects

theorem Extends.refl (work : Workspace) : Extends work work :=
  ⟨rfl, List.Subset.refl _⟩

theorem Extends.trans {mid : Workspace} (hfirst : Extends work mid) (hsecond : Extends mid next) :
    Extends work next :=
  ⟨hsecond.slots.trans hfirst.slots, List.Subset.trans hfirst.objects hsecond.objects⟩

theorem SameTokens.extends (hsame : SameTokens work next) : Extends work next :=
  ⟨hsame.slots, by rw [hsame.store]; exact List.Subset.refl _⟩

theorem Shrinks.extends (hshrinks : Shrinks work next) : Extends work next :=
  ⟨hshrinks.slots, by rw [hshrinks.objects]; exact List.Subset.refl _⟩

/-- A new dictionary is empty, and its only handle is in hand. -/
theorem Holds.newDictionary (hholds : Holds work hand) :
    ∃ next, Workspace.newDictionary work = .ok ⟨work.store.dictionaries.size⟩ next ∧
      Extends work next ∧
      Holds next (.object (.dictionary ⟨work.store.dictionaries.size⟩) ::ₘ hand) := by
  let made : Workspace := { work with store := work.store.newDictionary.2 }
  have hmade : Holds made hand := by
    refine hholds.exchange rfl rfl rfl Store.objects_newDictionary (Nat.le_refl _) ?_ ?_
    · rw [assets_eq, assets_eq, Store.assets_of_contents Store.objects_newDictionary
        Store.contents_newDictionary]
      rfl
    · exact fun object habsent => (Store.contents_newDictionary object).trans
        (hholds.emptied object habsent)
  refine ⟨made.withHandle _, rfl, ⟨rfl, Store.objects_newDictionary⟩, hmade.addObject ?_⟩
  simp [made, Store.newDictionary]

/-- A new overload table is empty, and its only handle is in hand. -/
theorem Holds.newTable (hholds : Holds work hand) :
    ∃ id next, Workspace.newTable work = .ok id next ∧ Extends work next ∧
      Holds next (.object (.table id) ::ₘ hand) := by
  let made : Workspace := { work with store := work.store.newTable.2 }
  have hmade : Holds made hand := by
    refine hholds.exchange rfl rfl rfl Store.objects_newTable (Nat.le_refl _) ?_ ?_
    · rw [assets_eq, assets_eq, Store.assets_of_contents Store.objects_newTable
        Store.contents_newTable]
      rfl
    · exact fun object habsent => (Store.contents_newTable object).trans
        (hholds.emptied object habsent)
  refine ⟨⟨work.store.tables.size⟩, made.withHandle _, rfl,
    ⟨rfl, Store.objects_newTable⟩, hmade.addObject ?_⟩
  simp [made, Store.newTable]

/-- The tokens in hand become a procedure body with one handle. -/
theorem Holds.newBody {tokens : List Token}
    (hholds : Holds work (Token.assetsOfAll tokens + hand)) :
    ∃ id next, Workspace.newBody work = .ok id next ∧ Extends work next ∧
      Holds next (.body (id, tokens) ::ₘ hand) := by
  obtain ⟨bodies, hbooks⟩ := hholds.books
  refine ⟨⟨work.store.bodies⟩, work.withNewBody, rfl, ⟨rfl, List.Subset.refl _⟩,
    ⟨(⟨work.store.bodies⟩, tokens) ::ₘ bodies, ?_⟩, fun object habsent =>
      hholds.emptied object fun hmem => habsent (List.mem_cons_of_mem _ hmem)⟩
  have hassets : work.withNewBody.assets = work.assets := rfl
  convert hbooks.addNewBody tokens using 1
  rw [inside_cons, Multiset.cons_add, Multiset.cons_add, hassets]
  congr 1
  ac_rfl

/-! ## Writes -/

/-- The workspace with another store. -/
def withStore (store : Store) (work : Workspace) : Workspace :=
  { work with store }

/-- The contents of an object that has a handle are written: what they take in goes out of
hand, and what they give up comes into it. -/
theorem Holds.written {store : Store} {given taken : Multiset Asset}
    (hholds : Holds work (taken + hand)) (hheld : .object object ∈ work.handles)
    (hobjects : store.objects = work.store.objects) (hbodies : store.bodies = work.store.bodies)
    (hothers : ∀ other, other ≠ object → store.contents other = work.store.contents other)
    (hassets : store.assets + given = work.store.assets + taken) :
    Holds (work.withStore store) (given + hand) := by
  refine hholds.exchange rfl rfl rfl (fun other hmem => hobjects ▸ hmem)
    (Nat.le_of_eq hbodies.symm) ?_ ?_
  · rw [assets_eq, assets_eq]
    calc given + hand + (work.slotAssets + store.assets)
      _ = hand + work.slotAssets + (store.assets + given) := by ac_rfl
      _ = taken + hand + (work.slotAssets + work.store.assets) := by
        rw [hassets]
        ac_rfl
  · intro other habsent
    by_cases heq : other = object
    · exact absurd (heq ▸ hheld) habsent
    · exact (hothers other heq).trans (hholds.emptied other habsent)

end Workspace

namespace Store

variable {store : Store} {target id : DictId} {token : Token}

theorem accepted_of_none (hnone : store.cycleThrough? target token = none) :
    store.accepted target token = token := by
  rw [accepted, hnone]

/-- A handle that is stored as an alias is out of the token. -/
theorem assets_accepted (hcycle : store.cycleThrough? target token = some id) :
    token.assets = .object (.dictionary id) ::ₘ (store.accepted target token).assets := by
  have howned : token.ownedDictionary? = some id := by
    obtain ⟨howned, -⟩ := Option.filter_eq_some_iff.1 hcycle
    exact howned
  rw [accepted, hcycle]
  unfold Token.ownedDictionary? at howned
  split at howned
  · obtain rfl := Option.some.inj howned
    simp only [Token.mapValue, Token.assets_datum, Value.assets, Value.tag]
    exact Multiset.cons_swap _ _ 0
  · cases howned

end Store

namespace Workspace

variable {work next : Workspace} {hand : Multiset Asset} {object : SharedObject} {target : DictId}
  {token : Token}

theorem dropHandle_bind (shared : Shared) (action rest : Work Unit) :
    (do
      if ← dropHandle shared then action
      rest : Work Unit) = ((do if ← dropHandle shared then action) >>= fun _ => rest) := by
  funext work
  simp only [bind, EStateM.bind, dropHandle_eq]
  cases (work.withoutHandle shared).handles.contains shared <;> rfl

/-- A token in hand goes into a dictionary, and what the name was bound to goes. -/
theorem Holds.insert (hholds : Holds work (token.assets + hand))
    (hheld : .object (.dictionary target) ∈ work.handles) (name : Name) :
    ∃ next, Workspace.insert target name token work = .ok () next ∧ Extends work next ∧
      Holds next hand := by
  have htarget := hholds.mem_objects hheld
  have hassets := Store.assets_insert htarget name token
  have hwritten : Extends work (work.withStore (work.store.insert target name token)) :=
    ⟨rfl, fun other hmem => Store.objects_insert.symm ▸ hmem⟩
  cases hcycle : work.store.cycleThrough? target token with
  | none =>
    rw [Store.accepted_of_none hcycle] at hassets
    have hnext := hholds.written hheld Store.objects_insert Store.bodies_insert
      (fun other => Store.contents_insert_ne) hassets
    obtain ⟨last, hrun, hlast, hshrinks⟩ := hnext.release
    refine ⟨last, ?_, hwritten.trans hshrinks.extends, hlast⟩
    simp only [Workspace.insert, bind, EStateM.bind, get, getThe, MonadStateOf.get, EStateM.get,
      hcycle]
    exact hrun
  | some id =>
    rw [Store.assets_accepted hcycle, Multiset.cons_add, ← Multiset.add_cons] at hholds
    have hnext := hholds.written hheld Store.objects_insert Store.bodies_insert
      (fun other => Store.contents_insert_ne) hassets
    rw [Multiset.add_cons] at hnext
    have hdrop := Empties.dropObject (empties_empty _) (Nat.le_refl _) hnext
    obtain ⟨last, hrun, hlast, hshrinks⟩ := hdrop.bind fun later hlater _ => hlater.release
    refine ⟨last, ?_, hwritten.trans hshrinks.extends, hlast⟩
    rw [← dropHandle_bind] at hrun
    simp only [Workspace.insert, bind, EStateM.bind, get, getThe, MonadStateOf.get, EStateM.get,
      hcycle]
    exact hrun

/-- A name is removed, and what it was bound to goes. -/
theorem Holds.remove (hholds : Holds work hand)
    (hheld : .object (.dictionary target) ∈ work.handles) (name : Name) :
    ∃ next, Workspace.remove target name work = .ok () next ∧ Extends work next ∧
      Holds next hand := by
  have hassets : (work.store.remove target name).assets +
      ((work.store.dictionary target).bound name).assets = work.store.assets + 0 :=
    (Store.assets_remove (hholds.mem_objects hheld) name).trans (add_zero _).symm
  rw [← zero_add hand] at hholds
  have hnext := hholds.written hheld Store.objects_remove rfl
    (fun other => Store.contents_modifyDictionary_ne _) hassets
  obtain ⟨last, hrun, hlast, hshrinks⟩ := hnext.release
  exact ⟨last, hrun, ⟨hshrinks.slots, fun other hmem => by
    rw [hshrinks.objects]; exact Store.objects_remove.symm ▸ hmem⟩, hlast⟩

/-- A function in hand goes into an overload table, or is given back. -/
theorem Holds.addOverload {id : TableId} {function : Token}
    (hholds : Holds work (function.assets + hand)) (hheld : .object (.table id) ∈ work.handles)
    (signature : Signature) :
    Ends (fun _ next => Extends work next ∧ Holds next hand) (fun next => Holds next hand)
      (Workspace.addOverload id signature function work) := by
  have hlt := Store.table_mem_objects.1 (hholds.mem_objects hheld)
  cases hadd : work.store.addOverload id signature function with
  | error fault =>
    obtain ⟨next, hrun, hnext, hshrinks⟩ := hholds.release
    have hfault : Workspace.addOverload id signature function work = .error fault next := by
      simp only [Workspace.addOverload, bind, EStateM.bind, get, getThe, MonadStateOf.get,
        EStateM.get, hadd, hrun]
      rfl
    rw [hfault]
    exact .fault hnext
  | ok outcome =>
    obtain ⟨accepted, store⟩ := outcome
    obtain ⟨hobjects, hbodies, hothers, hperm⟩ := Store.addOverload_ok hlt hadd
    have hextends : Extends work (work.withStore store) := ⟨rfl, fun other hmem => hobjects ▸ hmem⟩
    have hrun : Workspace.addOverload id signature function work =
        (if !accepted then Workspace.release function else pure ()) (work.withStore store) := by
      simp only [Workspace.addOverload, bind, EStateM.bind, get, getThe, MonadStateOf.get,
        EStateM.get, hadd]
      rfl
    rw [hrun]
    cases accepted with
    | true =>
      have hassets : store.assets + 0 = work.store.assets + function.assets := by
        refine Store.assets_exchange hobjects hothers ?_
        rw [Token.assetsOfAll_perm hperm, add_zero, if_pos rfl, Token.assetsOfAll_cons, add_comm]
      have hnext := hholds.written hheld hobjects hbodies hothers hassets
      exact .ok ⟨hextends, by rwa [zero_add] at hnext⟩
    | false =>
      have hassets : store.assets + function.assets = work.store.assets + function.assets := by
        refine Store.assets_exchange hobjects hothers ?_
        rw [Token.assetsOfAll_perm hperm, if_neg Bool.false_ne_true]
      have hnext := hholds.written hheld hobjects hbodies hothers hassets
      exact hnext.release.ends.mono
        (fun _ _ hend => ⟨hextends.trans hend.1.extends, hend.2⟩) fun _ hend => hend

end Workspace

end StackLang
