import Mathlib.Data.List.Pairwise
import StackLang.Proofs.Storage.Programs

/-!
# The counters of the pools count data

A pool counts the blocks that it has handed out.  In whatever state a program is, this is
the number of data of the type that exist and were placed since the pools were installed.
A copy of an array or of a callback counts with all that is in it; what is inside a
dictionary, an overload table or a procedure body counts once, however many refer to it.
-/

namespace StackLang

namespace Workspace

variable {work next : Workspace} {hand owed : Multiset Asset} {bodies : Multiset NumberedBody}
  {body : NumberedBody}

/-- The procedure bodies that the tokens of a workspace refer to, each number once. -/
def distinctBodies (work : Workspace) : List NumberedBody :=
  (Token.bodiesOfAll work.tokens).pwFilter fun body other => body.1 ≠ other.1

/-- The tokens in the slots, inside shared objects and in procedure bodies. -/
def allTokens (work : Workspace) : List Token :=
  work.tokens ++ work.distinctBodies.flatMap Prod.snd

/-- How many data of a type exist that were placed since pools were installed last: those
in the slots, inside shared objects and in procedure bodies, and also those in the arrays
and callbacks among them. -/
def existing (work : Workspace) (tag : TypeTag) : Nat :=
  Multiset.card
    ((Token.assetsOfAll work.allTokens).filterMap (Asset.block? work.installations tag))

theorem assetsOfAll_flatMap_bodies (bodies : List NumberedBody) :
    Token.assetsOfAll (bodies.flatMap Prod.snd) = inside ↑bodies := by
  induction bodies with
  | nil => rfl
  | cons body rest ih =>
    rw [List.flatMap_cons, Token.assetsOfAll_append, ih, ← Multiset.cons_coe, inside_cons]

theorem assetsOfAll_allTokens (work : Workspace) :
    Token.assetsOfAll work.allTokens = work.assets + inside ↑work.distinctBodies := by
  rw [allTokens, Token.assetsOfAll_append, assetsOfAll_flatMap_bodies, assets]

/-! ## The bodies that are known -/

/-- Every known body has a handle, which is owed. -/
theorem Books.body_owed (hbooks : Books work owed bodies) (hmem : body ∈ bodies) :
    .body body ∈ owed := by
  have hhandle := hbooks.handled body hmem
  rw [← Multiset.mem_coe, hbooks.handles] at hhandle
  obtain ⟨asset, hasset, hshared⟩ := (Multiset.mem_filterMap _ _).1 hhandle
  cases asset with
  | datum tag home => cases hshared
  | object object => cases hshared
  | body other =>
    have hnumber : other.1 = body.1 := Shared.body.inj (Option.some.inj hshared)
    obtain rfl : other = body :=
      Multiset.inj_on_of_nodup_map hbooks.numbers_nodup other (hbooks.known other hasset) body hmem
        hnumber
    exact hasset

/-- If nobody has a body in hand, some token refers to each known one. -/
theorem Books.mem_tokens (hbooks : Books work (hand + work.assets + inside bodies) bodies)
    (hhand : ∀ body, .body body ∉ hand) (hmem : body ∈ bodies) :
    body ∈ Token.bodiesOfAll work.tokens := by
  -- a body inside another one is smaller, so going outwards comes to an end
  let size (body : NumberedBody) : Nat := (Token.bodiesOfAll body.2).length
  have hbound : ∀ body ∈ bodies, size body ≤ (bodies.map size).sum := fun body hbody =>
    Multiset.single_le_sum (fun _ _ => Nat.zero_le _) _ (Multiset.mem_map_of_mem size hbody)
  induction hrest : (bodies.map size).sum - size body using Nat.strong_induction_on
    generalizing body with
  | _ rest ih =>
    obtain hearly | hinside := Multiset.mem_add.1 (hbooks.body_owed hmem)
    · obtain hheld | htoken := Multiset.mem_add.1 hearly
      · exact absurd hheld (hhand body)
      · exact Token.mem_bodiesOfAll_of_asset _ htoken
    · obtain ⟨outer, houter, hasset⟩ := Multiset.mem_bind.1 hinside
      have hsublist := Token.bodiesOfAll_sublist _ (Token.mem_bodiesOfAll_of_asset _ hasset)
      have hless : size body < size outer := hsublist.length_le
      have hle := hbound outer houter
      have htoken := ih _ (by omega) houter rfl
      exact (Token.bodiesOfAll_sublist _ htoken).subset
        (List.mem_cons_of_mem _ (hsublist.subset List.mem_cons_self))

/-- The known bodies are those that the tokens refer to. -/
theorem Books.bodies_eq (hbooks : Books work (hand + work.assets + inside bodies) bodies)
    (hhand : ∀ body, .body body ∉ hand) : bodies = ↑work.distinctBodies := by
  have hfilter : ∀ body ∈ Token.bodiesOfAll work.tokens, body ∈ work.distinctBodies := by
    intro body hmem
    have hall := List.forall_mem_pwFilter
      (R := fun body other : NumberedBody => body.1 ≠ other.1) (fun {first mid last} hne => by
        by_cases heq : first.1 = mid.1
        · exact .inr (heq ▸ hne)
        · exact .inl heq) body (Token.bodiesOfAll work.tokens)
    by_contra habsent
    refine hall.1 (fun other hother heq => habsent ?_) body hmem rfl
    have hknown := hbooks.mem_of_mem_tokens ((List.pwFilter_sublist _).subset hother)
    rwa [Multiset.inj_on_of_nodup_map hbooks.numbers_nodup body (hbooks.mem_of_mem_tokens hmem)
      other hknown heq]
  have hnodup : work.distinctBodies.Nodup := by
    refine (List.pairwise_pwFilter _).imp fun hne heq => hne (by rw [heq])
  refine (Multiset.Nodup.ext (Multiset.Nodup.of_map _ hbooks.numbers_nodup)
    (Multiset.coe_nodup.2 hnodup)).2 fun body => ⟨fun hmem => ?_, fun hmem => ?_⟩
  · exact hfilter body (hbooks.mem_tokens hhand hmem)
  · exact hbooks.mem_of_mem_tokens ((List.pwFilter_sublist _).subset hmem)

/-! ## Counting -/

theorem filterMap_handlesOf (held : List DictId) (installation : Nat) (tag : TypeTag) :
    (handlesOf held).filterMap (Asset.block? installation tag) = 0 := by
  induction held with
  | nil => rfl
  | cons id rest ih =>
    rw [handlesOf_cons, Multiset.filterMap_cons_none _ _ (Asset.block?_object _ _ _), ih]

theorem body_not_mem_handlesOf (held : List DictId) (body : NumberedBody) :
    .body body ∉ handlesOf held := by
  simp [handlesOf]

theorem SameTokens.existing (hsame : SameTokens work next) (tag : TypeTag) :
    next.existing tag = Multiset.card
      ((Token.assetsOfAll work.allTokens).filterMap (Asset.block? next.installations tag)) := by
  simp only [Workspace.existing, allTokens, distinctBodies, tokens, hsame.slots, hsame.store]

/-- The counter for a type is the number of data of that type which exist. -/
theorem Holds.stats_instantiations {held : List DictId} (hholds : Holds work (handlesOf held))
    (tag : TypeTag) :
    ∃ counters next, (Workspace.stats tag).run work = .ok counters next ∧ SameTokens work next ∧
      counters.instantiations = next.existing tag := by
  obtain ⟨bodies, hbooks⟩ := hholds.books
  obtain rfl := hbooks.bodies_eq (body_not_mem_handlesOf held)
  obtain ⟨stats, next, hrun, hsame, -, hcount⟩ := hbooks.stocked.stats tag
  refine ⟨stats, next, hrun, hsame, ?_⟩
  rw [hcount, hsame.existing, assetsOfAll_allTokens, add_assoc, Multiset.filterMap_add,
    filterMap_handlesOf, zero_add]

/-! ## Data of earlier installations -/

/-- A datum of pools that are gone goes without a trace: what happens is what happens when
its value goes. -/
theorem Holds.release_of_isBygone {value : Value} {attributes : Attributes}
    (hholds : Holds work ((Token.datum value attributes).assets + hand))
    (hbygone : work.IsBygone attributes.home) :
    Workspace.release (.datum value attributes) work = value.release empty work := by
  rw [Token.assets_datum, Multiset.cons_add, ← Multiset.add_cons] at hholds
  obtain ⟨next, hrun, -, hshrinks⟩ := hholds.releaseValue
  have hstill : next.IsBygone attributes.home := by
    rwa [IsBygone, hshrinks.installation.inPlace]
  rw [Workspace.release, Token.release]
  simp only [bind, EStateM.bind, hrun]
  exact freeBlock_of_isBygone hstill value.tag

end Workspace

/-- The asset is a datum of pools that are no longer in place. -/
def Asset.IsBygone (work : Workspace) (asset : Asset) : Prop :=
  ∃ tag home, asset = .datum tag home ∧ work.IsBygone home

mutual

theorem Value.release_of_bygone {work : Workspace} {empty : SharedObject → Work Unit}
    (value : Value) (hbygone : ∀ asset ∈ value.assets, asset.IsBygone work) :
    value.release empty work = .ok () work := by
  cases value with
  | procedure id body | litProcedure id body =>
    obtain ⟨tag, home, heq, -⟩ := hbygone (.body (id, body)) (by simp [Value.assets])
    cases heq
  | array items =>
    rw [Value.assets] at hbygone
    rw [Value.release]
    exact Token.releaseAll_of_bygone items hbygone
  | callback action =>
    rw [Value.assets] at hbygone
    rw [Value.release]
    exact Token.release_of_bygone action hbygone
  | dictionary handle =>
    cases handle with
    | owned id =>
      obtain ⟨tag, home, heq, -⟩ := hbygone (.object (.dictionary id)) (by simp [Value.assets])
      cases heq
    | aliased id => rfl
  | table name id =>
    obtain ⟨tag, home, heq, -⟩ := hbygone (.object (.table id)) (by simp [Value.assets])
    cases heq
  | _ => rfl

/-- A token without handles whose data are all of pools that are gone goes without a
trace. -/
theorem Token.release_of_bygone {work : Workspace} {empty : SharedObject → Work Unit}
    (token : Token) (hbygone : ∀ asset ∈ token.assets, asset.IsBygone work) :
    token.release empty work = .ok () work := by
  cases token with
  | void => rfl
  | datum value attributes =>
    simp only [Token.assets_datum, Multiset.mem_cons, forall_eq_or_imp] at hbygone
    obtain ⟨⟨tag, home, heq, hhome⟩, hvalue⟩ := hbygone
    cases heq
    rw [Token.release]
    simp only [bind, EStateM.bind, Value.release_of_bygone value hvalue]
    exact Workspace.freeBlock_of_isBygone hhome value.tag

theorem Token.releaseAll_of_bygone {work : Workspace} {empty : SharedObject → Work Unit}
    (tokens : List Token) (hbygone : ∀ asset ∈ Token.assetsOfAll tokens, asset.IsBygone work) :
    Token.releaseAll empty tokens work = .ok () work := by
  cases tokens with
  | nil => rfl
  | cons token rest =>
    simp only [Token.assetsOfAll_cons, Multiset.mem_add] at hbygone
    have htoken : token.release empty work = .ok () work :=
      Token.release_of_bygone token fun asset hmem => hbygone asset (.inl hmem)
    have hrest : Token.releaseAll empty rest work = .ok () work :=
      Token.releaseAll_of_bygone rest fun asset hmem => hbygone asset (.inr hmem)
    rw [Token.releaseAll]
    simp only [bind, EStateM.bind, htoken]
    exact hrest

end

namespace Workspace

variable {work next : Workspace} {hand : Multiset Asset}

/-! ## When everything is gone -/

/-- What has a handle is in somebody's hand, or some token keeps it alive. -/
theorem Holds.owned_of_handle (hholds : Holds work hand) (hhand : ∀ body, .body body ∉ hand)
    {object : SharedObject} (hhandle : .object object ∈ work.handles) :
    .object object ∈ hand ∨ object ∈ Token.ownedByAll work.tokens := by
  obtain ⟨bodies, hbooks⟩ := hholds.books
  rw [← Multiset.mem_coe, hbooks.handles] at hhandle
  obtain ⟨asset, hasset, hshared⟩ := (Multiset.mem_filterMap _ _).1 hhandle
  cases asset with
  | datum tag home => cases hshared
  | body held => cases hshared
  | object owned =>
    obtain rfl : owned = object := Shared.object.inj (Option.some.inj hshared)
    obtain hearly | hinside := Multiset.mem_add.1 hasset
    · obtain hheld | htoken := Multiset.mem_add.1 hearly
      · exact .inl hheld
      · exact .inr ((Token.mem_ownedByAll_iff _).2 (.inl htoken))
    · obtain ⟨body, hbody, hobject⟩ := Multiset.mem_bind.1 hinside
      exact .inr ((Token.mem_ownedByAll_iff _).2
        (.inr ⟨body, hbooks.mem_tokens hhand hbody, hobject⟩))

/-- Without circles, nothing is left inside shared objects once the slots are void and
nobody holds anything. -/
theorem Holds.contents_eq_nil (hholds : Holds work 0)
    (hslots : ∀ slot ∈ work.slots, slot.token = .void)
    (hcircles : ∀ object, ¬ work.store.OnCircle object) (object : SharedObject) :
    work.store.contents object = [] := by
  by_contra hcontents
  have hmem : ∀ object, work.store.contents object ≠ [] → object ∈ work.store.objects :=
    fun object hne => by_contra fun habsent => hne (Store.contents_of_not_mem habsent)
  -- each object with contents hangs on another one, and there are finitely many
  have hkept : ∀ object, work.store.contents object ≠ [] →
      object ∈ Token.ownedByAll [] ∨
        ∃ owner, work.store.contents owner ≠ [] ∧ work.store.Owns owner object := by
    intro object hne
    have hhandle : .object object ∈ work.handles :=
      by_contra fun habsent => hne (hholds.emptied object habsent)
    obtain hheld | howned := hholds.owned_of_handle (by simp) hhandle
    · simp at hheld
    · obtain ⟨token, htoken, howns⟩ := Token.mem_ownedByAll.1 howned
      obtain hmapped | hstored := List.mem_append.1 htoken
      · obtain ⟨slot, hslot, rfl⟩ := List.mem_map.1 hmapped
        rw [hslots slot (Array.mem_def.2 hslot), Token.owned] at howns
        cases howns
      · obtain ⟨owner, -, hinside⟩ := List.mem_flatMap.1 hstored
        exact .inr ⟨owner, List.ne_nil_of_mem hinside,
          Token.mem_ownedByAll.2 ⟨token, hinside, howns⟩⟩
  have halive : object ∈ work.store.alive [] := Store.mem_prune hkept hmem hcontents
  obtain ⟨owner, hcircle, -⟩ := Store.exists_onCircle halive (by simp [Token.ownedByAll])
  exact hcircles owner hcircle

/-- Without tokens nothing has to be given back. -/
theorem assetsOfAll_allTokens_eq_zero (hslots : ∀ slot ∈ work.slots, slot.token = .void)
    (hcontents : ∀ object, work.store.contents object = []) :
    Token.assetsOfAll work.allTokens = 0 := by
  have hvoid : ∀ token ∈ work.tokens, token = .void := by
    intro token hmem
    obtain hmapped | hstored := List.mem_append.1 hmem
    · obtain ⟨slot, hslot, rfl⟩ := List.mem_map.1 hmapped
      exact hslots slot (Array.mem_def.2 hslot)
    · obtain ⟨object, -, hinside⟩ := List.mem_flatMap.1 hstored
      rw [hcontents] at hinside
      cases hinside
  have hassets : work.assets = 0 := by
    refine Multiset.eq_zero_of_forall_notMem fun asset hmem => ?_
    obtain ⟨token, htoken, hasset⟩ := Token.mem_assetsOfAll.1 hmem
    simp [hvoid token htoken] at hasset
  have hbodies : work.distinctBodies = [] := by
    refine List.eq_nil_iff_forall_not_mem.2 fun body hmem => ?_
    obtain ⟨token, htoken, hbody⟩ :=
      Token.mem_bodiesOfAll.1 ((List.pwFilter_sublist _).subset hmem)
    simp [hvoid token htoken, Token.bodies] at hbody
  rw [assetsOfAll_allTokens, hassets, hbodies]
  rfl

/-- Clears the first `n` slots. -/
def clearSlots : Nat → Work Unit
  | 0 => return
  | n + 1 => do
    clearSlot n
    clearSlots n

/-- Lets go of dictionaries. -/
def letGoAll : List DictId → Work Unit
  | [] => return
  | id :: rest => do
    (Value.dictionary (.owned id)).release empty
    letGoAll rest

/-- Drops every token and every dictionary that is held. -/
def dropAll (held : List DictId) : Work Unit := do
  clearSlots (← get).slots.size
  letGoAll held

/-- Nothing has come into a slot or into a shared object. -/
structure Lightened (work next : Workspace) : Prop where
  size : next.slots.size = work.slots.size
  void : ∀ i, work.token i = .void → next.token i = .void
  contents : ∀ object, next.store.contents object = work.store.contents object ∨
    next.store.contents object = []

theorem token_withSlot_clear (i : Nat) (work : Workspace) :
    (work.withSlot i Slot.clear).token i = .void := by
  by_cases hlt : i < work.slots.size
  · rw [token, slot_withSlot_self hlt]
    rfl
  · exact token_of_le (by rw [size_withSlot]; exact Nat.le_of_not_lt hlt)

namespace Lightened

theorem refl (work : Workspace) : Lightened work work :=
  ⟨rfl, fun _ => id, fun _ => .inl rfl⟩

theorem trans {mid : Workspace} (hfirst : Lightened work mid) (hsecond : Lightened mid next) :
    Lightened work next where
  size := hsecond.size.trans hfirst.size
  void := fun i hvoid => hsecond.void i (hfirst.void i hvoid)
  contents := fun object => (hsecond.contents object).elim
    (fun hsame => hsame ▸ hfirst.contents object) .inr

theorem of_shrinks (hshrinks : Shrinks work next) : Lightened work next where
  size := by rw [hshrinks.slots]
  void := fun i hvoid => by rwa [token, slot, hshrinks.slots]
  contents := hshrinks.contents

theorem clearSlot (i : Nat) (work : Workspace) : Lightened work (work.withSlot i Slot.clear) where
  size := size_withSlot i Slot.clear work
  void := by
    intro j hvoid
    by_cases heq : j = i
    · rw [heq, token_withSlot_clear]
    · rwa [token, slot_withSlot_ne heq]
  contents := fun _ => .inl rfl

theorem owns (hlightened : Lightened work next) {owner object : SharedObject}
    (howns : next.store.Owns owner object) : work.store.Owns owner object := by
  obtain hsame | hnone := hlightened.contents owner
  · rwa [Store.Owns, hsame] at howns
  · rw [Store.Owns, hnone] at howns
    cases howns

theorem onCircle (hlightened : Lightened work next) {object : SharedObject}
    (hcircle : next.store.OnCircle object) : work.store.OnCircle object :=
  Relation.TransGen.mono (fun _ _ => hlightened.owns) object object hcircle

end Lightened

theorem Holds.clearSlots (hholds : Holds work hand) (n : Nat) :
    ∃ next, Workspace.clearSlots n work = .ok () next ∧ Holds next hand ∧ Lightened work next ∧
      ∀ i < n, next.token i = .void := by
  induction n generalizing work with
  | zero => exact ⟨work, rfl, hholds, .refl work, fun i hlt => absurd hlt (Nat.not_lt_zero i)⟩
  | succ n ih =>
    obtain ⟨mid, hfirst, hmid, hshrinks⟩ := hholds.clearSlot n
    obtain ⟨next, hrest, hnext, hlightened, hvoid⟩ := ih hmid
    have hcleared : Lightened work mid := (Lightened.clearSlot n work).trans (.of_shrinks hshrinks)
    refine ⟨next, ?_, hnext, hcleared.trans hlightened, fun i hlt => ?_⟩
    · rw [Workspace.clearSlots]
      simp only [bind, EStateM.bind, hfirst]
      exact hrest
    · obtain hlt | rfl := Nat.lt_succ_iff_lt_or_eq.1 hlt
      · exact hvoid i hlt
      · refine hlightened.void i ((Lightened.of_shrinks hshrinks).void i ?_)
        exact token_withSlot_clear i work

theorem Holds.letGoAll (held : List DictId) (hholds : Holds work (handlesOf held)) :
    ∃ next, Workspace.letGoAll held work = .ok () next ∧ Holds next 0 ∧ Lightened work next := by
  induction held generalizing work with
  | nil => exact ⟨work, rfl, hholds, .refl work⟩
  | cons id rest ih =>
    have hheld : Holds work ((Value.dictionary (.owned id)).assets + handlesOf rest) := hholds
    obtain ⟨mid, hfirst, hmid, hshrinks⟩ := hheld.releaseValue
    obtain ⟨next, hrest, hnext, hlightened⟩ := ih hmid
    refine ⟨next, ?_, hnext, .trans (.of_shrinks hshrinks) hlightened⟩
    rw [Workspace.letGoAll]
    simp only [bind, EStateM.bind, hfirst]
    exact hrest

/-- Once the slots are void and nobody holds anything, no counter is above zero, if no
shared object owns itself. -/
theorem Holds.stats_eq_zero (hholds : Holds work 0)
    (hslots : ∀ slot ∈ work.slots, slot.token = .void)
    (hcircles : ∀ object, ¬ work.store.OnCircle object) (tag : TypeTag) :
    ∃ counters next, (Workspace.stats tag).run work = .ok counters next ∧
      counters.instantiations = 0 := by
  have hnone : Holds work (handlesOf []) := hholds
  obtain ⟨counters, next, hrun, hsame, hcount⟩ := hnone.stats_instantiations tag
  have hnothing := assetsOfAll_allTokens_eq_zero hslots (hholds.contents_eq_nil hslots hcircles)
  refine ⟨counters, next, hrun, ?_⟩
  rw [hcount, hsame.existing, hnothing]
  rfl

/-- Dropping everything succeeds. -/
theorem Holds.dropAll {held : List DictId} (hholds : Holds work (handlesOf held)) :
    ∃ next, Workspace.dropAll held work = .ok () next ∧ Holds next 0 ∧ Lightened work next ∧
      ∀ slot ∈ next.slots, slot.token = .void := by
  obtain ⟨mid, hfirst, hmid, hcleared, hvoid⟩ := hholds.clearSlots work.slots.size
  obtain ⟨next, hlast, hnext, hdropped⟩ := Holds.letGoAll held hmid
  have hlightened := hcleared.trans hdropped
  refine ⟨next, ?_, hnext, hlightened, fun slot hmem => ?_⟩
  · simp only [Workspace.dropAll, bind, EStateM.bind, MonadState.get, getThe, MonadStateOf.get,
      EStateM.get, hfirst]
    exact hlast
  · obtain ⟨i, hlt, rfl⟩ := Array.mem_iff_getElem.1 hmem
    have htoken := hdropped.void i (hvoid i (by rw [← hlightened.size]; exact hlt))
    simpa [token, Workspace.slot, hlt] using htoken

/-! ## What the counters tell -/

/-- The counters of a workspace tell how many data exist. -/
structure Counted (work : Workspace) (held : List DictId) : Prop where
  /-- The counter for a type is the number of data of the type that exist and were placed
  since pools were installed last. -/
  exact : ∀ tag, ∃ counters next, (Workspace.stats tag).run work = .ok counters next ∧
    SameTokens work next ∧ counters.instantiations = next.existing tag
  /-- A datum of an earlier installation goes without a trace: clearing its slot does what
  giving back its contents does. -/
  bygone : ∀ i value attributes, work.token i = .datum value attributes →
    work.IsBygone attributes.home →
      (clearSlot i).run work = (value.release empty).run (work.withSlot i Slot.clear)
  /-- With nothing inside but data of earlier installations, the pools stay as they are. -/
  traceless : ∀ i, (∀ asset ∈ (work.token i).assets, asset.IsBygone work) →
    (clearSlot i).run work = .ok () (work.withSlot i Slot.clear)
  /-- Dropping every token and every dictionary that is held succeeds, and no counter is
  above zero then, unless shared objects own themselves. -/
  dropped : (∀ object, ¬ work.store.OnCircle object) →
    ∃ next, (dropAll held).run work = .ok () next ∧
      ∀ tag, ∃ counters last, (Workspace.stats tag).run next = .ok counters last ∧
        counters.instantiations = 0
  /-- The same holds in whatever order they went. -/
  gone : (∀ object, ¬ work.store.OnCircle object) → held = [] →
    (∀ slot ∈ work.slots, slot.token = .void) →
      ∀ tag, ∃ counters last, (Workspace.stats tag).run work = .ok counters last ∧
        counters.instantiations = 0

/-- Whatever a program does with its tokens, the counters tell how many data exist. -/
theorem Reached.counted {held : List DictId} (hreached : Reached work held) :
    Counted work held where
  exact := hreached.holds.stats_instantiations
  bygone := by
    intro i value attributes htoken hbygone
    have hcleared := hreached.holds.voidSlot (i := i) (f := Slot.clear) rfl
    rw [htoken] at hcleared
    have hrelease := hcleared.release_of_isBygone (by exact hbygone)
    have hrun : (clearSlot i).run work =
        Workspace.release (work.token i) (work.withSlot i Slot.clear) := rfl
    rw [hrun, htoken, hrelease]
    rfl
  traceless := by
    intro i hbygone
    exact Token.release_of_bygone (work.token i) hbygone
  dropped := by
    intro hcircles
    obtain ⟨next, hrun, hnext, hlightened, hslots⟩ := hreached.holds.dropAll
    refine ⟨next, hrun, hnext.stats_eq_zero hslots fun object hcircle => ?_⟩
    exact hcircles object (hlightened.onCircle hcircle)
  gone := by
    rintro hcircles rfl hslots
    exact hreached.holds.stats_eq_zero hslots hcircles

/-- An array with a number is made, pools are installed anew, and another number is made:
the array still exists with what is in it, and only the other number counts. -/
theorem Reached.counted_two_installations :
    ∃ work, Reached work [] ∧ Counted work [] ∧ work.slots.size = 2 ∧
      (∀ asset ∈ (work.token 0).assets, asset.IsBygone work) ∧
      work.existing .array = 0 ∧ work.existing .integer = 1 := by
  have hinstalled : Reached _ [] := Reached.start.operate (.install ⟨1, 1⟩) trivial
  have harray : Reached _ [] := hinstalled.operate (.add (.array [.integer 1])) (by
    simp [TokenOperation.Allowed, Made, Draft.dictionaries, Draft.dictionariesOfAll])
  have hreplaced : Reached _ [] := harray.operate (.install ⟨1, 1⟩) trivial
  have hnumber : Reached _ [] := hreplaced.operate (.add (.integer 2)) (by
    simp [TokenOperation.Allowed, Made, Draft.dictionaries])
  refine ⟨_, hnumber, hnumber.counted, rfl, fun asset hmem => ?_, by decide +kernel,
    by decide +kernel⟩
  change asset ∈ ({.datum .array ⟨1, ⟨0, 0⟩⟩, .datum .integer ⟨1, ⟨0, 0⟩⟩} : Multiset Asset)
    at hmem
  simp only [Multiset.insert_eq_cons, Multiset.mem_cons, Multiset.mem_singleton] at hmem
  obtain rfl | rfl := hmem
  · exact ⟨_, _, rfl, by decide +kernel⟩
  · exact ⟨_, _, rfl, by decide +kernel⟩

end Workspace

end StackLang
