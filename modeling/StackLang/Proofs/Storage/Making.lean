import StackLang.Proofs.Storage.Placing

/-!
# Copies and drafts

A copy of a token takes new blocks for its data and more handles of what is shared; the
store stays as it is.  A draft makes what it describes, new dictionaries and tables
included.
-/

namespace StackLang

namespace Workspace

variable {work next : Workspace} {hand owed : Multiset Asset} {bodies : Multiset NumberedBody}
  {body : NumberedBody}

/-! ## Bodies that are known -/

/-- The bodies that tokens refer to are known, however deep they are inside other bodies. -/
theorem Books.bodiesOfAll_subset (hbooks : Books work owed bodies)
    (hinside : inside bodies ⊆ owed) {tokens : List Token}
    (howed : Token.assetsOfAll tokens ⊆ owed) :
    ∀ body ∈ Token.bodiesOfAll tokens, body ∈ bodies := by
  -- the bodies inside a body are fewer than those that its token refers to
  induction hsize : (Token.bodiesOfAll tokens).length using Nat.strong_induction_on
    generalizing tokens with
  | _ size ih =>
    intro body hmem
    obtain ⟨outer, houter, rfl | hbody⟩ := Token.exists_body_asset_of_all tokens hmem
    · exact hbooks.known _ (howed houter)
    · have hknown := hbooks.known outer (howed houter)
      have hless := (Token.bodiesOfAll_sublist tokens
        (Token.mem_bodiesOfAll_of_asset tokens houter)).length_le
      rw [List.length_cons, hsize] at hless
      refine ih _ hless (fun asset hasset => hinside ?_) rfl body hbody
      exact Multiset.mem_bind.2 ⟨outer, hknown, hasset⟩

theorem Books.mem_of_mem_tokens (hbooks : Books work (hand + work.assets + inside bodies) bodies)
    (hmem : body ∈ Token.bodiesOfAll work.tokens) : body ∈ bodies := by
  refine hbooks.bodiesOfAll_subset (Multiset.subset_of_le (Multiset.le_add_left _ _))
    (fun asset hasset => ?_) body hmem
  exact Multiset.mem_add.2 (.inl (Multiset.mem_add.2 (.inr hasset)))

/-- Whatever these assets are handles of is there: the bodies are those of some tokens, and
the objects are those of the store. -/
structure Knows (work : Workspace) (assets : Multiset Asset) : Prop where
  bodies : ∀ body, .body body ∈ assets → body ∈ Token.bodiesOfAll work.tokens
  objects : ∀ object, .object object ∈ assets → object ∈ work.store.objects

/-- Two states with the same slots and the same store. -/
structure SameStore (work next : Workspace) : Prop where
  store : next.store = work.store
  slots : next.slots = work.slots

theorem SameStore.refl (work : Workspace) : SameStore work work :=
  ⟨rfl, rfl⟩

theorem SameStore.trans {mid : Workspace} (hfirst : SameStore work mid)
    (hsecond : SameStore mid next) : SameStore work next :=
  ⟨hsecond.store.trans hfirst.store, hsecond.slots.trans hfirst.slots⟩

theorem SameTokens.sameStore (hsame : SameTokens work next) : SameStore work next :=
  ⟨hsame.store, hsame.slots⟩

theorem SameStore.extends (hsame : SameStore work next) : Extends work next :=
  ⟨hsame.slots, by rw [hsame.store]; exact List.Subset.refl _⟩

/-- A token that is anywhere in the workspace is known. -/
theorem Holds.knows (hholds : Holds work hand) {part : Token}
    (hpart : part ∈ Token.partsOfAll work.tokens) : Knows work part.assets where
  bodies := by
    intro body hmem
    obtain hhere | ⟨outer, houter, hinside⟩ := Token.asset_of_partOfAll _ hpart hmem
    · exact Token.mem_bodiesOfAll_of_asset _ hhere
    · exact (Token.bodiesOfAll_sublist _ houter).subset
        (List.mem_cons_of_mem _ (Token.mem_bodiesOfAll_of_asset _ hinside))
  objects := by
    intro object hmem
    obtain ⟨bodies, hbooks⟩ := hholds.books
    refine hbooks.stored object ?_
    obtain hhere | ⟨outer, houter, hinside⟩ := Token.asset_of_partOfAll _ hpart hmem
    · exact Multiset.mem_add.2 (.inl (Multiset.mem_add.2 (.inr hhere)))
    · refine Multiset.mem_add.2 (.inr (Multiset.mem_bind.2 ⟨outer, ?_, hinside⟩))
      exact hbooks.mem_of_mem_tokens houter

theorem Knows.mono {assets others : Multiset Asset} (hknows : Knows work assets)
    (hsubset : others ⊆ assets) : Knows work others :=
  ⟨fun body hmem => hknows.bodies body (hsubset hmem),
    fun object hmem => hknows.objects object (hsubset hmem)⟩

theorem Knows.sameStore {assets : Multiset Asset} (hknows : Knows work assets)
    (hsame : SameStore work next) : Knows next assets := by
  have htokens : next.tokens = work.tokens := by rw [tokens, tokens, hsame.slots, hsame.store]
  exact ⟨htokens ▸ hknows.bodies, hsame.store ▸ hknows.objects⟩

end Workspace

open Workspace

/-! ## Copies -/

mutual

theorem Value.copy_ends {work : Workspace} {hand : Multiset Asset} (value : Value)
    (hknows : Knows work value.assets) (hholds : Holds work hand) :
    Ends
      (fun copied next => SameStore work next ∧ Holds next (copied.assets + hand))
      (fun next => Holds next hand) (value.copy work) := by
  cases value with
  | procedure id body | litProcedure id body =>
    have hbody := hknows.bodies (id, body) (by simp [Value.assets])
    refine .ok ⟨⟨rfl, rfl⟩, ?_⟩
    exact hholds.addBody fun bodies hbooks => hbooks.mem_of_mem_tokens hbody
  | array items =>
    rw [Value.assets] at hknows
    rw [Value.copy]
    exact (Token.copyAll_ends items hknows hholds).bind fun copied later hlater => .ok hlater
  | callback action =>
    rw [Value.assets] at hknows
    rw [Value.copy]
    exact (Token.copy_ends action hknows hholds).bind fun copied later hlater => .ok hlater
  | dictionary handle =>
    cases handle with
    | owned id =>
      have hobject := hknows.objects (.dictionary id) (by simp [Value.assets])
      exact .ok ⟨⟨rfl, rfl⟩, hholds.addObject hobject⟩
    | aliased id => exact .ok ⟨.refl work, by simpa [Value.assets] using hholds⟩
  | table name id =>
    have hobject := hknows.objects (.table id) (by simp [Value.assets])
    exact .ok ⟨⟨rfl, rfl⟩, hholds.addObject hobject⟩
  | _ => exact .ok ⟨.refl work, by simpa [Value.assets] using hholds⟩

/-- A copy of a token is in hand, and the store is as it was. -/
theorem Token.copy_ends {work : Workspace} {hand : Multiset Asset} (token : Token)
    (hknows : Knows work token.assets) (hholds : Holds work hand) :
    Ends
      (fun copied next => SameStore work next ∧ Holds next (copied.assets + hand))
      (fun next => Holds next hand) (token.copy work) := by
  cases token with
  | void =>
    rw [Token.copy]
    exact .ok ⟨.refl work, by simpa using hholds⟩
  | datum value attributes =>
    rw [Token.assets_datum] at hknows
    rw [Token.copy]
    refine (Value.copy_ends value (hknows.mono (Multiset.subset_cons _ _)) hholds).bind ?_
    rintro copied later ⟨hsame, hlater⟩
    exact (hlater.place attributes.writeable).mono
      (fun token next hnext => ⟨hsame.trans hnext.1.sameStore, hnext.2⟩) fun next hnext => hnext

theorem Token.copyAll_ends {work : Workspace} {hand : Multiset Asset} (tokens : List Token)
    (hknows : Knows work (Token.assetsOfAll tokens)) (hholds : Holds work hand) :
    Ends
      (fun copied next => SameStore work next ∧ Holds next (Token.assetsOfAll copied + hand))
      (fun next => Holds next hand) (Token.copyAll tokens work) := by
  cases tokens with
  | nil =>
    rw [Token.copyAll]
    exact .ok ⟨.refl work, by simpa using hholds⟩
  | cons token rest =>
    rw [Token.assetsOfAll_cons] at hknows
    rw [Token.copyAll]
    have hfirst := hknows.mono (Multiset.subset_of_le (Multiset.le_add_right _ _))
    have hrest := hknows.mono (Multiset.subset_of_le (Multiset.le_add_left _ _))
    refine (Token.copy_ends token hfirst hholds).bind ?_
    rintro copied later ⟨hsame, hlater⟩
    refine Ends.bind ((Token.copyAll_ends rest (hrest.sameStore hsame) hlater).onFault
      fun last hlast => hlast.release.cleansUp) ?_
    rintro others last ⟨hmore, hlast⟩
    refine .ok ⟨hsame.trans hmore, ?_⟩
    rw [Token.assetsOfAll_cons]
    convert hlast using 1
    ac_rfl

end

/-! ## Drafts -/

mutual

/-- The dictionaries that a draft wants handles of. -/
def Draft.dictionaries : Draft → List DictId
  | .procedure body => Draft.dictionariesOfAll body
  | .litProcedure body => Draft.dictionariesOfAll body
  | .array items => Draft.dictionariesOfAll items
  | .dictionary id => [id]
  | .newDictionary bindings => DraftBinding.dictionariesOfAll bindings
  | .newTable _ overloads => DraftOverload.dictionariesOfAll overloads
  | .callback action => Draft.dictionaries action
  | .readOnly draft => Draft.dictionaries draft
  | _ => []

/-- The dictionaries that some drafts want handles of. -/
def Draft.dictionariesOfAll : List Draft → List DictId
  | [] => []
  | draft :: rest => Draft.dictionaries draft ++ Draft.dictionariesOfAll rest

/-- The dictionaries that some entries want handles of. -/
def DraftBinding.dictionariesOfAll : List DraftBinding → List DictId
  | [] => []
  | .mk _ value :: rest => Draft.dictionaries value ++ DraftBinding.dictionariesOfAll rest

/-- The dictionaries that some overloads want handles of. -/
def DraftOverload.dictionariesOfAll : List DraftOverload → List DictId
  | [] => []
  | .mk _ function :: rest => Draft.dictionaries function ++ DraftOverload.dictionariesOfAll rest

end

namespace Workspace

/-- All these dictionaries have been made. -/
def Made (work : Workspace) (ids : List DictId) : Prop :=
  ∀ id ∈ ids, .dictionary id ∈ work.store.objects

variable {work next : Workspace} {ids others : List DictId}

theorem Made.extends (hmade : Made work ids) (hextends : Extends work next) : Made next ids :=
  fun id hmem => hextends.objects (hmade id hmem)

theorem Made.left (hmade : Made work (ids ++ others)) : Made work ids :=
  fun id hmem => hmade id (List.mem_append_left _ hmem)

theorem Made.right (hmade : Made work (ids ++ others)) : Made work others :=
  fun id hmem => hmade id (List.mem_append_right _ hmem)

/-- An action brings the assets of its result in hand, and nothing if it faults. -/
def Brings {α : Type} (worth : α → Multiset Asset) (action : Work α) (work : Workspace)
    (hand : Multiset Asset) : Prop :=
  Ends (fun value next => Extends work next ∧ Holds next (worth value + hand))
    (fun next => Holds next hand) (action work)

variable {α β : Type} {worth : α → Multiset Asset} {hand mid : Multiset Asset} {action : Work α}

namespace Brings

theorem pure {value : α} (hholds : Holds work (worth value + hand)) :
    Brings worth (Pure.pure value) work hand :=
  .ok ⟨.refl work, hholds⟩

theorem bind {next : α → Work β} {value : β → Multiset Asset}
    (hfirst : Brings worth action work hand)
    (hnext : ∀ result later, Extends work later → Holds later (worth result + hand) →
      Brings value (next result) later hand) :
    Brings value (action >>= next) work hand := by
  refine Ends.bind hfirst ?_
  rintro result later ⟨hextends, hlater⟩
  exact (hnext result later hextends hlater).mono
    (fun _ _ hend => ⟨hextends.trans hend.1, hend.2⟩) fun _ hend => hend

/-- An action that would leave something in hand if it faults, but for its clean-up. -/
theorem onFault_bind {next : α → Work β} {value : β → Multiset Asset} {cleanUp : Work Unit}
    (hfirst : Brings worth action work mid)
    (hcleanUp : ∀ later, Holds later mid → GivesBack cleanUp later hand)
    (hnext : ∀ result later, Extends work later → Holds later (worth result + mid) →
      Brings value (next result) later hand) :
    Brings value (onFault action cleanUp >>= next) work hand := by
  refine Ends.bind (Ends.onFault hfirst fun later hlater => (hcleanUp later hlater).cleansUp) ?_
  rintro result later ⟨hextends, hlater⟩
  exact (hnext result later hextends hlater).mono
    (fun _ _ hend => ⟨hextends.trans hend.1, hend.2⟩) fun _ hend => hend

theorem place {value : Value} (hholds : Holds work (value.assets + hand)) (writeable : Bool) :
    Brings Token.assets (Workspace.place value writeable) work hand :=
  (hholds.place writeable).mono (fun _ _ hnext => ⟨hnext.1.extends, hnext.2⟩) fun _ hnext => hnext

/-- A value with nothing inside. -/
theorem place_bare {value : Value} (hbare : value.assets = 0) (hholds : Holds work hand)
    (writeable : Bool) : Brings Token.assets (Workspace.place value writeable) work hand :=
  place (by rwa [hbare, zero_add]) writeable

theorem newBody {tokens : List Token} (hholds : Holds work (Token.assetsOfAll tokens + hand)) :
    Brings (fun id => {.body (id, tokens)}) Workspace.newBody work hand := by
  obtain ⟨id, next, hrun, hextends, hnext⟩ := hholds.newBody
  rw [Brings, hrun]
  exact .ok ⟨hextends, hnext⟩

theorem newDictionary (hholds : Holds work hand) :
    Brings (fun id => {.object (.dictionary id)}) Workspace.newDictionary work hand := by
  obtain ⟨next, hrun, hextends, hnext⟩ := hholds.newDictionary
  rw [Brings, hrun]
  exact .ok ⟨hextends, hnext⟩

theorem newTable (hholds : Holds work hand) :
    Brings (fun id => {.object (.table id)}) Workspace.newTable work hand := by
  obtain ⟨id, next, hrun, hextends, hnext⟩ := hholds.newTable
  rw [Brings, hrun]
  exact .ok ⟨hextends, hnext⟩

theorem addHandle {id : DictId} (hholds : Holds work hand)
    (hobject : .dictionary id ∈ work.store.objects) :
    Brings (fun _ => {.object (.dictionary id)})
      (Workspace.addHandle (.object (.dictionary id))) work hand :=
  .ok ⟨⟨rfl, List.Subset.refl _⟩, hholds.addObject hobject⟩

/-- A token goes into a dictionary that somebody has in hand. -/
theorem insert {token : Token} {id : DictId} (hholds : Holds work (token.assets + hand))
    (hheld : .object (.dictionary id) ∈ hand) (name : Name) :
    Brings (fun _ => 0) (Workspace.insert id name token) work hand := by
  have hhandle := hholds.handles_of_mem (Multiset.mem_add.2 (.inr hheld))
  obtain ⟨next, hrun, hextends, hnext⟩ := hholds.insert hhandle name
  rw [Brings, hrun]
  exact .ok ⟨hextends, by rwa [zero_add]⟩

/-- A function goes into an overload table that somebody has in hand. -/
theorem addOverload {function : Token} {id : TableId}
    (hholds : Holds work (function.assets + hand)) (hheld : .object (.table id) ∈ hand)
    (signature : Signature) :
    Brings (fun _ => 0) (Workspace.addOverload id signature function) work hand := by
  have hhandle := hholds.handles_of_mem (Multiset.mem_add.2 (.inr hheld))
  refine (hholds.addOverload hhandle signature).mono (fun _ next hend => ?_) fun _ hend => hend
  exact ⟨hend.1, by rw [zero_add]; exact hend.2⟩

end Brings

end Workspace

mutual

/-- What a draft describes is made. -/
theorem Draft.placeNew_brings {work : Workspace} {hand : Multiset Asset} (draft : Draft)
    (hmade : Made work draft.dictionaries) (hholds : Holds work hand) :
    Brings Token.assets draft.placeNew work hand := by
  cases draft with
  | void =>
    rw [Draft.placeNew]
    exact .pure (by simpa using hholds)
  | procedure body | litProcedure body =>
    rw [Draft.dictionaries] at hmade
    rw [Draft.placeNew]
    refine (Draft.placeNewAll_brings body hmade hholds).bind fun tokens later _ hlater => ?_
    exact (Brings.newBody hlater).bind fun id last _ hlast => .place hlast true
  | array items =>
    rw [Draft.dictionaries] at hmade
    rw [Draft.placeNew]
    refine (Draft.placeNewAll_brings items hmade hholds).bind fun tokens later _ hlater => ?_
    exact .place hlater true
  | dictionary id =>
    have hobject := hmade id (by simp [Draft.dictionaries])
    rw [Draft.placeNew]
    exact (Brings.addHandle hholds hobject).bind fun _ later _ hlater => .place hlater true
  | newDictionary bindings =>
    rw [Draft.dictionaries] at hmade
    rw [Draft.placeNew]
    refine (Brings.newDictionary hholds).bind fun id later hextends hlater => ?_
    -- The new object stays in hand until its bindings are in place: a fault on the way gives
    -- it back.
    refine .onFault_bind (DraftBinding.placeNewAll_brings bindings
      (Multiset.mem_add.2 (.inl (Multiset.mem_singleton_self _))) (hmade.extends hextends) hlater)
      (fun last hlast => Holds.releaseValue hlast) fun _ last _ hlast => ?_
    rw [zero_add] at hlast
    exact .place hlast true
  | newTable name overloads =>
    rw [Draft.dictionaries] at hmade
    rw [Draft.placeNew]
    refine (Brings.newTable hholds).bind fun id later hextends hlater => ?_
    refine .onFault_bind (DraftOverload.placeNewAll_brings overloads
      (Multiset.mem_add.2 (.inl (Multiset.mem_singleton_self _))) (hmade.extends hextends) hlater)
      (fun last hlast => Holds.releaseValue hlast) fun _ last _ hlast => ?_
    rw [zero_add] at hlast
    exact .place hlast true
  | callback action =>
    rw [Draft.dictionaries] at hmade
    rw [Draft.placeNew]
    refine (Draft.placeNew_brings action hmade hholds).bind fun token later _ hlater => ?_
    exact .place hlater true
  | readOnly draft =>
    rw [Draft.dictionaries] at hmade
    rw [Draft.placeNew]
    refine (Draft.placeNew_brings draft hmade hholds).bind fun token later _ hlater => ?_
    exact .pure (by rwa [Token.assets_setWriteable])
  | _ =>
    rw [Draft.placeNew]
    exact .place_bare (by simp [Value.assets]) hholds true

/-- What drafts describe is made in order. -/
theorem Draft.placeNewAll_brings {work : Workspace} {hand : Multiset Asset} (drafts : List Draft)
    (hmade : Made work (Draft.dictionariesOfAll drafts)) (hholds : Holds work hand) :
    Brings Token.assetsOfAll (Draft.placeNewAll drafts) work hand := by
  cases drafts with
  | nil =>
    rw [Draft.placeNewAll]
    exact .pure (by simpa using hholds)
  | cons draft rest =>
    rw [Draft.dictionariesOfAll] at hmade
    rw [Draft.placeNewAll]
    refine (Draft.placeNew_brings draft hmade.left hholds).bind
      fun token later hextends hlater => ?_
    refine .onFault_bind
      (Draft.placeNewAll_brings rest (hmade.right.extends hextends) hlater)
      (fun last hlast => hlast.release) fun others last _ hlast => .pure ?_
    rw [Token.assetsOfAll_cons]
    convert hlast using 1
    ac_rfl

/-- A new dictionary, which somebody has in hand, is filled. -/
theorem DraftBinding.placeNewAll_brings {work : Workspace} {hand : Multiset Asset} {id : DictId}
    (bindings : List DraftBinding) (hheld : .object (.dictionary id) ∈ hand)
    (hmade : Made work (DraftBinding.dictionariesOfAll bindings)) (hholds : Holds work hand) :
    Brings (fun _ => 0) (DraftBinding.placeNewAll id bindings) work hand := by
  cases bindings with
  | nil =>
    rw [DraftBinding.placeNewAll]
    exact .pure (by rwa [zero_add])
  | cons binding rest =>
    obtain ⟨name, value⟩ := binding
    rw [DraftBinding.dictionariesOfAll] at hmade
    rw [DraftBinding.placeNewAll]
    refine (Draft.placeNew_brings value hmade.left hholds).bind
      fun token later hextends hlater => ?_
    refine (Brings.insert hlater hheld name).bind fun _ last hmore hlast => ?_
    rw [zero_add] at hlast
    exact DraftBinding.placeNewAll_brings rest hheld
      (hmade.right.extends (hextends.trans hmore)) hlast

/-- A new overload table, which somebody has in hand, is filled. -/
theorem DraftOverload.placeNewAll_brings {work : Workspace} {hand : Multiset Asset} {id : TableId}
    (overloads : List DraftOverload) (hheld : .object (.table id) ∈ hand)
    (hmade : Made work (DraftOverload.dictionariesOfAll overloads)) (hholds : Holds work hand) :
    Brings (fun _ => 0) (DraftOverload.placeNewAll id overloads) work hand := by
  cases overloads with
  | nil =>
    rw [DraftOverload.placeNewAll]
    exact .pure (by rwa [zero_add])
  | cons overload rest =>
    obtain ⟨signature, function⟩ := overload
    rw [DraftOverload.dictionariesOfAll] at hmade
    rw [DraftOverload.placeNewAll]
    refine (Draft.placeNew_brings function hmade.left hholds).bind
      fun token later hextends hlater => ?_
    refine (Brings.addOverload hlater hheld signature).bind fun _ last hmore hlast => ?_
    rw [zero_add] at hlast
    exact DraftOverload.placeNewAll_brings rest hheld
      (hmade.right.extends (hextends.trans hmore)) hlast

end

end StackLang
