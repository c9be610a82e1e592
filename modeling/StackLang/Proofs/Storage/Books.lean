import StackLang.Proofs.Storage.Contents
import StackLang.Proofs.Storage.Stock

/-!
# The books of a workspace

Whatever a workspace has taken from its pools and whatever handles it counts, it owes to
somebody: to a token in a slot, to the contents of a shared object, to a procedure body or
to an action that is under way and has something in hand.  The books balance if all these
together are exactly the blocks handed out and the handles counted.

A procedure body belongs to nobody in particular; it is known by its number and has a
handle as long as it is there.  A shared object without a handle has no contents.
-/

namespace StackLang

namespace Workspace

variable {work next : Workspace} {owed : Multiset Asset} {bodies : Multiset NumberedBody}
  {object : SharedObject} {body : NumberedBody} {shared : Shared}

/-- What is inside procedure bodies. -/
def inside (bodies : Multiset NumberedBody) : Multiset Asset :=
  bodies.bind fun body => Token.assetsOfAll body.2

@[simp]
theorem inside_cons (body : NumberedBody) (bodies : Multiset NumberedBody) :
    inside (body ::ₘ bodies) = Token.assetsOfAll body.2 + inside bodies :=
  Multiset.cons_bind _ _ _

/-- The workspace with one handle more. -/
def withHandle (shared : Shared) (work : Workspace) : Workspace :=
  { work with handles := shared :: work.handles }

/-- The workspace with one handle less. -/
def withoutHandle (shared : Shared) (work : Workspace) : Workspace :=
  { work with handles := work.handles.erase shared }

/-- The workspace with one handle of a procedure body that has a new number. -/
def withNewBody (work : Workspace) : Workspace :=
  { work with
    store := work.store.newBody.2
    handles := .body ⟨work.store.bodies⟩ :: work.handles }

theorem dropHandle_eq (shared : Shared) (work : Workspace) :
    dropHandle shared work =
      .ok (!(work.withoutHandle shared).handles.contains shared) (work.withoutHandle shared) := rfl

/-- The books balance: `owed` is all that somebody has to give back, what is inside the
procedure bodies among it.  Its blocks are handed out and its handles are counted, and
there are no others. -/
structure Books (work : Workspace) (owed : Multiset Asset) (bodies : Multiset NumberedBody) :
    Prop where
  stocked : Stocked work owed
  handles : (↑work.handles : Multiset Shared) = owed.filterMap Asset.shared?
  stored : ∀ object, .object object ∈ owed → object ∈ work.store.objects
  known : ∀ body, .body body ∈ owed → body ∈ bodies
  numbers_nodup : (bodies.map Prod.fst).Nodup
  handled : ∀ body ∈ bodies, .body body.1 ∈ work.handles
  numbered : ∀ body ∈ bodies, body.1.index < work.store.bodies

theorem Stocked.congr (hstocked : Stocked work owed) (hpools : next.valuePools = work.valuePools)
    (hinstallations : next.installations = work.installations) : Stocked next owed := by
  constructor <;> simp only [hpools, hinstallations]
  exacts [hstocked.homes, hstocked.current, hstocked.served]

/-- Handles take no storage of their own. -/
theorem stocked_cons_iff {asset : Asset} (hhandle : asset.shared?.isSome) :
    Stocked work (asset ::ₘ owed) ↔ Stocked work owed := by
  have hblock : ∀ installation tag, asset.block? installation tag = none := by
    cases asset <;> simp_all
  have hdatum : ∀ tag home, (Asset.datum tag home ∈ asset ::ₘ owed ↔ .datum tag home ∈ owed) := by
    cases asset <;> simp_all
  constructor
  · intro hstocked
    refine ⟨fun tag home hmem => hstocked.homes tag home ((hdatum tag home).2 hmem),
      hstocked.current, fun valuePools hpools tag => ?_⟩
    simpa [Multiset.filterMap_cons_none _ _ (hblock _ tag)] using
      hstocked.served valuePools hpools tag
  · intro hstocked
    refine ⟨fun tag home hmem => hstocked.homes tag home ((hdatum tag home).1 hmem),
      hstocked.current, fun valuePools hpools tag => ?_⟩
    simpa [Multiset.filterMap_cons_none _ _ (hblock _ tag)] using
      hstocked.served valuePools hpools tag

namespace Books

/-- A change that leaves pools and handles alone and takes no number back. -/
theorem congr (hbooks : Books work owed bodies) (hpools : next.valuePools = work.valuePools)
    (hinstallations : next.installations = work.installations)
    (hhandles : next.handles = work.handles)
    (hobjects : work.store.objects ⊆ next.store.objects)
    (hbodies : work.store.bodies ≤ next.store.bodies) : Books next owed bodies where
  stocked := hbooks.stocked.congr hpools hinstallations
  handles := hhandles ▸ hbooks.handles
  stored := fun object hmem => hobjects (hbooks.stored object hmem)
  known := hbooks.known
  numbers_nodup := hbooks.numbers_nodup
  handled := hhandles ▸ hbooks.handled
  numbered := fun body hmem => Nat.lt_of_lt_of_le (hbooks.numbered body hmem) hbodies

/-- A change of the pools. -/
theorem restocked (hbooks : Books work owed bodies) (hsame : SameTokens work next)
    (hstocked : Stocked next owed) : Books next owed bodies where
  stocked := hstocked
  handles := hsame.handles ▸ hbooks.handles
  stored := hsame.store ▸ hbooks.stored
  known := hbooks.known
  numbers_nodup := hbooks.numbers_nodup
  handled := hsame.handles ▸ hbooks.handled
  numbered := hsame.store ▸ hbooks.numbered

variable {tag : TypeTag} {home : Home}

theorem addDatum (hbooks : Books work owed bodies) (hsame : SameTokens work next)
    (hstocked : Stocked next (.datum tag home ::ₘ owed)) :
    Books next (.datum tag home ::ₘ owed) bodies where
  stocked := hstocked
  handles := by
    rw [Multiset.filterMap_cons_none _ _ (Asset.shared?_datum tag home), hsame.handles,
      hbooks.handles]
  stored := fun object hmem => hsame.store ▸ hbooks.stored object (by simpa using hmem)
  known := fun body hmem => hbooks.known body (by simpa using hmem)
  numbers_nodup := hbooks.numbers_nodup
  handled := hsame.handles ▸ hbooks.handled
  numbered := hsame.store ▸ hbooks.numbered

theorem dropDatum (hbooks : Books work (.datum tag home ::ₘ owed) bodies)
    (hsame : SameTokens work next) (hstocked : Stocked next owed) :
    Books next owed bodies where
  stocked := hstocked
  handles := by
    rw [hsame.handles, hbooks.handles,
      Multiset.filterMap_cons_none _ _ (Asset.shared?_datum tag home)]
  stored := fun object hmem => hsame.store ▸ hbooks.stored object (Multiset.mem_cons_of_mem hmem)
  known := fun body hmem => hbooks.known body (Multiset.mem_cons_of_mem hmem)
  numbers_nodup := hbooks.numbers_nodup
  handled := hsame.handles ▸ hbooks.handled
  numbered := hsame.store ▸ hbooks.numbered

/-! ## Handles -/

theorem handles_withHandle (hbooks : Books work owed bodies) {asset : Asset}
    (hshared : asset.shared? = some shared) :
    (↑(work.withHandle shared).handles : Multiset Shared) =
      (asset ::ₘ owed).filterMap Asset.shared? := by
  rw [Multiset.filterMap_cons_some _ _ _ hshared, ← hbooks.handles]
  rfl

theorem handles_withoutHandle {asset : Asset} (hbooks : Books work (asset ::ₘ owed) bodies)
    (hshared : asset.shared? = some shared) :
    (↑(work.withoutHandle shared).handles : Multiset Shared) =
      owed.filterMap Asset.shared? := by
  rw [withoutHandle, ← Multiset.coe_erase, hbooks.handles,
    Multiset.filterMap_cons_some _ _ _ hshared, Multiset.erase_cons_head]

theorem addObject (hbooks : Books work owed bodies) (hobject : object ∈ work.store.objects) :
    Books (work.withHandle (.object object)) (.object object ::ₘ owed) bodies where
  stocked := (stocked_cons_iff rfl).2 (hbooks.stocked.congr rfl rfl)
  handles := hbooks.handles_withHandle rfl
  stored := by
    intro other hmem
    obtain hnew | hold := Multiset.mem_cons.1 hmem
    · exact Asset.object.inj hnew ▸ hobject
    · exact hbooks.stored other hold
  known := fun body hmem => hbooks.known body (by simpa using hmem)
  numbers_nodup := hbooks.numbers_nodup
  handled := fun body hmem => List.mem_cons_of_mem _ (hbooks.handled body hmem)
  numbered := hbooks.numbered

theorem addBody (hbooks : Books work owed bodies) (hbody : body ∈ bodies) :
    Books (work.withHandle (.body body.1)) (.body body ::ₘ owed) bodies where
  stocked := (stocked_cons_iff rfl).2 (hbooks.stocked.congr rfl rfl)
  handles := hbooks.handles_withHandle rfl
  stored := fun object hmem => hbooks.stored object (by simpa using hmem)
  known := by
    intro other hmem
    obtain hnew | hold := Multiset.mem_cons.1 hmem
    · exact Asset.body.inj hnew ▸ hbody
    · exact hbooks.known other hold
  numbers_nodup := hbooks.numbers_nodup
  handled := fun body hmem => List.mem_cons_of_mem _ (hbooks.handled body hmem)
  numbered := hbooks.numbered

theorem dropObject (hbooks : Books work (.object object ::ₘ owed) bodies) :
    Books (work.withoutHandle (.object object)) owed bodies where
  stocked := ((stocked_cons_iff rfl).1 hbooks.stocked).congr rfl rfl
  handles := hbooks.handles_withoutHandle rfl
  stored := fun other hmem => hbooks.stored other (Multiset.mem_cons_of_mem hmem)
  known := fun body hmem => hbooks.known body (Multiset.mem_cons_of_mem hmem)
  numbers_nodup := hbooks.numbers_nodup
  handled := fun body hmem => (List.mem_erase_of_ne (by simp)).2 (hbooks.handled body hmem)
  numbered := hbooks.numbered

/-- A body goes on as long as there is a handle. -/
theorem dropBody (hbooks : Books work (.body body ::ₘ owed) bodies)
    (hleft : .body body.1 ∈ (work.withoutHandle (.body body.1)).handles) :
    Books (work.withoutHandle (.body body.1)) owed bodies where
  stocked := ((stocked_cons_iff rfl).1 hbooks.stocked).congr rfl rfl
  handles := hbooks.handles_withoutHandle rfl
  stored := fun object hmem => hbooks.stored object (Multiset.mem_cons_of_mem hmem)
  known := fun body hmem => hbooks.known body (Multiset.mem_cons_of_mem hmem)
  numbers_nodup := hbooks.numbers_nodup
  handled := by
    intro other hmem
    by_cases hsame : other.1 = body.1
    · exact hsame ▸ hleft
    · exact (List.mem_erase_of_ne (by simpa using hsame)).2 (hbooks.handled other hmem)
  numbered := hbooks.numbered

/-- With its last handle a body goes. -/
theorem dropLastBody (hbooks : Books work (.body body ::ₘ owed) bodies)
    (hlast : .body body.1 ∉ (work.withoutHandle (.body body.1)).handles) :
    ∃ rest, bodies = body ::ₘ rest ∧ Books (work.withoutHandle (.body body.1)) owed rest := by
  obtain ⟨rest, rfl⟩ := Multiset.exists_cons_of_mem
    (hbooks.known body (Multiset.mem_cons_self _ _))
  have hnodup := hbooks.numbers_nodup
  rw [Multiset.map_cons, Multiset.nodup_cons] at hnodup
  have hhandles := hbooks.handles_withoutHandle (Asset.shared?_body body)
  refine ⟨rest, rfl, ?_⟩
  exact {
    stocked := ((stocked_cons_iff rfl).1 hbooks.stocked).congr rfl rfl
    handles := hhandles
    stored := fun object hmem => hbooks.stored object (Multiset.mem_cons_of_mem hmem)
    known := by
      intro other hmem
      obtain rfl | hrest := Multiset.mem_cons.1 (hbooks.known other (Multiset.mem_cons_of_mem hmem))
      · refine absurd ?_ hlast
        rw [← Multiset.mem_coe, hhandles]
        exact (Multiset.mem_filterMap _ _).2 ⟨_, hmem, rfl⟩
      · exact hrest
    numbers_nodup := hnodup.2
    handled := by
      intro other hmem
      have hother : other.1 ≠ body.1 := fun heq =>
        hnodup.1 (heq ▸ Multiset.mem_map_of_mem Prod.fst hmem)
      exact (List.mem_erase_of_ne (by simpa using hother)).2
        (hbooks.handled other (Multiset.mem_cons_of_mem hmem))
    numbered := fun other hmem => hbooks.numbered other (Multiset.mem_cons_of_mem hmem) }

/-- A body with a new number. -/
theorem addNewBody (hbooks : Books work owed bodies) (tokens : List Token) :
    Books work.withNewBody (.body (⟨work.store.bodies⟩, tokens) ::ₘ owed)
      ((⟨work.store.bodies⟩, tokens) ::ₘ bodies) where
  stocked := (stocked_cons_iff rfl).2 (hbooks.stocked.congr rfl rfl)
  handles := hbooks.handles_withHandle rfl
  stored := fun object hmem => hbooks.stored object (by simpa using hmem)
  known := by
    intro other hmem
    obtain hnew | hold := Multiset.mem_cons.1 hmem
    · exact Asset.body.inj hnew ▸ Multiset.mem_cons_self _ _
    · exact Multiset.mem_cons_of_mem (hbooks.known other hold)
  numbers_nodup := by
    rw [Multiset.map_cons, Multiset.nodup_cons]
    refine ⟨fun hmem => ?_, hbooks.numbers_nodup⟩
    obtain ⟨other, hother, heq⟩ := Multiset.mem_map.1 hmem
    have hlt := hbooks.numbered other hother
    rw [heq] at hlt
    exact Nat.lt_irrefl _ hlt
  handled := by
    intro other hmem
    obtain rfl | hold := Multiset.mem_cons.1 hmem
    · exact List.mem_cons_self
    · exact List.mem_cons_of_mem _ (hbooks.handled other hold)
  numbered := by
    intro other hmem
    obtain rfl | hold := Multiset.mem_cons.1 hmem
    · exact Nat.lt_succ_self _
    · exact Nat.lt_succ_of_lt (hbooks.numbered other hold)

end Books

/-! ## What is in hand -/

/-- The tokens in the slots and inside shared objects. -/
def tokens (work : Workspace) : List Token :=
  work.slots.toList.map Slot.token ++ work.store.tokens

/-- What the slots and the shared objects have to give back. -/
def assets (work : Workspace) : Multiset Asset :=
  Token.assetsOfAll work.tokens

/-- What the slots have to give back. -/
def slotAssets (work : Workspace) : Multiset Asset :=
  Token.assetsOfAll (work.slots.toList.map Slot.token)

theorem assets_eq (work : Workspace) : work.assets = work.slotAssets + work.store.assets :=
  Token.assetsOfAll_append _ _

theorem SameTokens.assets (hsame : SameTokens work next) : next.assets = work.assets := by
  simp only [Workspace.assets, tokens, hsame.slots, hsame.store]

/-- The books balance if somebody has `hand` in hand, besides what is in the slots and
inside shared objects; and objects without a handle are empty. -/
structure Holds (work : Workspace) (hand : Multiset Asset) : Prop where
  books : ∃ bodies, Books work (hand + work.assets + inside bodies) bodies
  emptied : ∀ object, .object object ∉ work.handles → work.store.contents object = []

variable {hand : Multiset Asset} {tag : TypeTag} {home : Home}

namespace Holds

/-- What is taken from a slot or an object is in hand then, and the other way round. -/
theorem exchange {other : Multiset Asset} (hholds : Holds work hand)
    (hpools : next.valuePools = work.valuePools)
    (hinstallations : next.installations = work.installations)
    (hhandles : next.handles = work.handles)
    (hobjects : work.store.objects ⊆ next.store.objects)
    (hbodies : work.store.bodies ≤ next.store.bodies)
    (hassets : other + next.assets = hand + work.assets)
    (hemptied : ∀ object, .object object ∉ next.handles → next.store.contents object = []) :
    Holds next other := by
  obtain ⟨bodies, hbooks⟩ := hholds.books
  refine ⟨⟨bodies, ?_⟩, hemptied⟩
  rw [hassets]
  exact hbooks.congr hpools hinstallations hhandles hobjects hbodies

theorem handles_of_mem (hholds : Holds work hand) (hmem : .object object ∈ hand) :
    .object object ∈ work.handles := by
  obtain ⟨bodies, hbooks⟩ := hholds.books
  rw [← Multiset.mem_coe, hbooks.handles]
  exact (Multiset.mem_filterMap _ _).2
    ⟨_, Multiset.mem_add.2 (.inl (Multiset.mem_add.2 (.inl hmem))), rfl⟩

/-- What has a handle is an object of the store. -/
theorem mem_objects (hholds : Holds work hand) (hmem : .object object ∈ work.handles) :
    object ∈ work.store.objects := by
  obtain ⟨bodies, hbooks⟩ := hholds.books
  rw [← Multiset.mem_coe, hbooks.handles] at hmem
  obtain ⟨asset, hasset, hshared⟩ := (Multiset.mem_filterMap _ _).1 hmem
  cases asset with
  | datum tag home => cases hshared
  | object owned =>
    cases hshared
    exact hbooks.stored object hasset
  | body held => cases hshared

theorem emptied_same (hholds : Holds work hand) (hsame : SameTokens work next) :
    ∀ object, .object object ∉ next.handles → next.store.contents object = [] := by
  rw [hsame.handles, hsame.store]
  exact hholds.emptied

/-- The pools may be any that hand out the same blocks. -/
theorem restocked (hholds : Holds work hand)
    (hbooks : Books work (hand + work.assets + inside bodies) bodies)
    (hsame : SameTokens work next)
    (hstocked : Stocked next (hand + work.assets + inside bodies)) : Holds next hand := by
  refine ⟨⟨bodies, ?_⟩, hholds.emptied_same hsame⟩
  rw [hsame.assets]
  exact hbooks.restocked hsame hstocked

/-- A new datum is in hand. -/
theorem alloc (hholds : Holds work hand) (tag : TypeTag) :
    Ends
      (fun block next => SameTokens work next ∧
        Holds next (.datum tag { installation := next.installations, block } ::ₘ hand))
      (fun next => SameTokens work next ∧ Holds next hand)
      (onPool tag Pool.alloc work) := by
  obtain ⟨bodies, hbooks⟩ := hholds.books
  refine (hbooks.stocked.alloc tag).mono ?_ ?_
  · rintro block next ⟨hsame, hstocked⟩
    refine ⟨hsame, ⟨bodies, ?_⟩, hholds.emptied_same hsame⟩
    rw [Multiset.cons_add, Multiset.cons_add, hsame.assets]
    exact hbooks.addDatum hsame hstocked
  · rintro next ⟨hsame, hstocked⟩
    exact ⟨hsame, hholds.restocked hbooks hsame hstocked⟩

/-- The block of a datum in hand goes back. -/
theorem freeBlock (hholds : Holds work (.datum tag home ::ₘ hand)) :
    ∃ next, Workspace.freeBlock tag home work = .ok () next ∧ SameTokens work next ∧
      SameInstallation work next ∧ Holds next hand := by
  obtain ⟨bodies, hbooks⟩ := hholds.books
  rw [Multiset.cons_add, Multiset.cons_add] at hbooks
  obtain ⟨next, hrun, hsame, hinstallation, hstocked⟩ := hbooks.stocked.freeBlock
  refine ⟨next, hrun, hsame, hinstallation, ⟨bodies, ?_⟩,
    hholds.emptied_same hsame⟩
  rw [hsame.assets]
  exact hbooks.dropDatum hsame hstocked

/-- One more handle of an object is in hand. -/
theorem addObject (hholds : Holds work hand) (hobject : object ∈ work.store.objects) :
    Holds (work.withHandle (.object object)) (.object object ::ₘ hand) := by
  obtain ⟨bodies, hbooks⟩ := hholds.books
  refine ⟨⟨bodies, ?_⟩, fun other hmem => hholds.emptied other fun hold =>
    hmem (List.mem_cons_of_mem _ hold)⟩
  rw [Multiset.cons_add, Multiset.cons_add]
  exact hbooks.addObject hobject

/-- One more handle of a body that some token refers to is in hand. -/
theorem addBody (hholds : Holds work hand)
    (hbody : ∀ bodies, Books work (hand + work.assets + inside bodies) bodies → body ∈ bodies) :
    Holds (work.withHandle (.body body.1)) (.body body ::ₘ hand) := by
  obtain ⟨bodies, hbooks⟩ := hholds.books
  refine ⟨⟨bodies, ?_⟩, fun other hmem => hholds.emptied other fun hold =>
    hmem (List.mem_cons_of_mem _ hold)⟩
  rw [Multiset.cons_add, Multiset.cons_add]
  exact hbooks.addBody (hbody bodies hbooks)

/-- A handle of a body goes, and with the last one what is inside is in hand. -/
theorem dropBody (hholds : Holds work (.body body ::ₘ hand)) :
    Holds (work.withoutHandle (.body body.1))
      (if .body body.1 ∈ (work.withoutHandle (.body body.1)).handles then hand
        else Token.assetsOfAll body.2 + hand) := by
  obtain ⟨bodies, hbooks⟩ := hholds.books
  rw [Multiset.cons_add, Multiset.cons_add] at hbooks
  have hemptied : ∀ object, .object object ∉ (work.withoutHandle (.body body.1)).handles →
      work.store.contents object = [] := fun object habsent =>
    hholds.emptied object fun hmem => habsent ((List.mem_erase_of_ne (by simp)).2 hmem)
  split
  case isTrue hleft => exact ⟨⟨bodies, hbooks.dropBody hleft⟩, hemptied⟩
  case isFalse hlast =>
    obtain ⟨rest, rfl, hbooks⟩ := hbooks.dropLastBody hlast
    refine ⟨⟨rest, ?_⟩, hemptied⟩
    rw [inside_cons] at hbooks
    convert hbooks using 1
    change Token.assetsOfAll body.2 + hand + work.assets + inside rest = _
    ac_rfl

end Holds

end Workspace

end StackLang
