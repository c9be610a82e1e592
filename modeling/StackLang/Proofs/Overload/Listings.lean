import StackLang.Proofs.Overload.Bindings

/-!
# Listings of overloads

A tree is shown in two ways, as a table with a row for each overload and as nested arrays.
Both go through the chains from the head on, so they show the same overloads in the same
order: each one that was accepted, once, however often the wildcard was moved on the way.
-/

namespace StackLang

namespace TypeSlot

@[simp]
theorem named_slotName (slot : TypeSlot) : named slot.slotName = slot := by
  cases slot with
  | any => rfl
  | exactly tag => cases tag <;> rfl

/-- The position with exactly this name, if there is one. -/
def read? (text : String) : Option TypeSlot :=
  if (named text).slotName = text then some (named text) else none

@[simp]
theorem read?_slotName (slot : TypeSlot) : read? slot.slotName = some slot := by
  simp [read?]

theorem eq_any_of_slotName_eq {slot : TypeSlot} (heq : slot.slotName = any.slotName) :
    slot = any := by
  rw [← named_slotName slot, heq, named_slotName]

end TypeSlot

/-- A token of a function is its name with what it does. -/
theorem Token.eq_function_of_isA {token : Token} (hfunction : token.isA .function) :
    ∃ name operator attributes, token = .datum (.function name operator) attributes := by
  cases token with
  | void => cases hfunction
  | datum value attributes =>
    cases value with
    | function name operator => exact ⟨name, operator, attributes, rfl⟩
    | _ => cases hfunction

namespace OverloadTree

variable {tree : OverloadTree} {signature : Signature} {function : Token}

/-! ## The overloads of a tree -/

/-- What leads to a chain is the start of every signature in it. -/
theorem overloadsFrom_append (path above : Signature) :
    tree.overloadsFrom (path ++ above) =
      (tree.overloadsFrom path).map fun overload => (above.reverse ++ overload.1, overload.2) := by
  induction tree generalizing path with
  | empty => rfl
  | leaf bound alternatives ih => simp [overloadsFrom, ih]
  | branch slot next alternatives ihNext ihAlternatives =>
    simp only [overloadsFrom, List.map_append, ihAlternatives, ← ihNext (slot :: path),
      List.cons_append]

@[simp]
theorem overloads_empty : empty.overloads = [] := rfl

@[simp]
theorem overloads_leaf (function : Token) (alternatives : OverloadTree) :
    (leaf function alternatives).overloads = ([], function) :: alternatives.overloads := rfl

@[simp]
theorem overloads_branch (slot : TypeSlot) (next alternatives : OverloadTree) :
    (branch slot next alternatives).overloads =
      (next.overloads.map fun overload => (slot :: overload.1, overload.2)) ++
        alternatives.overloads := by
  have hnext : next.overloadsFrom [slot] =
      next.overloads.map fun overload => (slot :: overload.1, overload.2) :=
    overloadsFrom_append [] [slot]
  rw [overloads, overloadsFrom, hnext]
  rfl

/-- The overloads of a tree are what it binds. -/
theorem WellFormed.mem_overloads_iff (hwf : tree.WellFormed) :
    (signature, function) ∈ tree.overloads ↔ tree.bound? signature = some function := by
  induction tree generalizing signature with
  | empty => simp
  | leaf bound alternatives ih =>
    cases signature with
    | nil =>
      have hbound : (leaf bound alternatives).head? = some bound := rfl
      simp [ih hwf.2, hwf.1, hbound, eq_comm]
    | cons slot rest => simp [ih hwf.2, bound?]
  | branch slot next alternatives ihNext ihAlternatives =>
    obtain ⟨-, hnext, hhead, halternatives, hfresh, -⟩ := hwf
    cases signature with
    | nil =>
      have hbound : (branch slot next alternatives).head? = none := rfl
      simp [ihAlternatives halternatives, hhead, hbound]
    | cons wanted rest =>
      by_cases hslot : slot = wanted
      · subst hslot
        simp [ihNext hnext, ihAlternatives halternatives, bound?, child?, hfresh]
      · simp [ihAlternatives halternatives, bound?, child?, hslot]

/-! ## The order of a listing -/

/-- A signature may be listed before another one: it does not extend it, and where the two
part it has no wildcard if the other one has a type. -/
structure Precedes (above below : Signature) : Prop where
  not_extension : ¬ below <+: above
  types_first : ∀ common tag, common ++ [.any] <+: above → ¬ common ++ [.exactly tag] <+: below

variable {slot other : TypeSlot} {above below rest : Signature}

theorem precedes_nil : Precedes [] (slot :: rest) where
  not_extension := fun hprefix => by simp at hprefix
  types_first := fun common tag hprefix => by simp at hprefix

theorem precedes_of_ne (hne : other ≠ slot) (htype : slot ≠ .any) :
    Precedes (slot :: above) (other :: below) where
  not_extension := fun hprefix => hne (List.cons_prefix_cons.1 hprefix).1
  types_first := fun common tag habove hbelow => by
    cases common with
    | nil => exact htype (List.cons_prefix_cons.1 habove).1.symm
    | cons first rest =>
      have hfirst := (List.cons_prefix_cons.1 habove).1
      exact hne ((List.cons_prefix_cons.1 hbelow).1.symm.trans hfirst)

theorem Precedes.cons (hprecedes : Precedes above below) :
    Precedes (slot :: above) (slot :: below) where
  not_extension := fun hprefix => hprecedes.not_extension (List.cons_prefix_cons.1 hprefix).2
  types_first := fun common tag habove hbelow => by
    cases common with
    | nil =>
      have hany := (List.cons_prefix_cons.1 habove).1
      have htype := (List.cons_prefix_cons.1 hbelow).1
      cases hany.trans htype.symm
    | cons first rest =>
      exact hprecedes.types_first rest tag (List.cons_prefix_cons.1 habove).2
        (List.cons_prefix_cons.1 hbelow).2

/-- Every chain lists the signature that ends there first, and those with the wildcard last. -/
theorem WellFormed.precedes_overloads (hwf : tree.WellFormed) :
    tree.overloads.Pairwise fun above below => Precedes above.1 below.1 := by
  induction tree with
  | empty => exact List.Pairwise.nil
  | leaf bound alternatives ih =>
    refine List.pairwise_cons.2 ⟨fun overload hmem => ?_, ih hwf.2⟩
    obtain ⟨signature, function⟩ := overload
    cases signature with
    | nil =>
      have hhead := (hwf.2.mem_overloads_iff).1 hmem
      rw [bound?_nil, hwf.1] at hhead
      cases hhead
    | cons slot rest => exact precedes_nil
  | branch slot next alternatives ihNext ihAlternatives =>
    obtain ⟨-, hnext, hhead, halternatives, hfresh, hlast⟩ := hwf
    rw [overloads_branch]
    refine List.pairwise_append.2 ⟨?_, ihAlternatives halternatives, ?_⟩
    · exact List.pairwise_map.2 ((ihNext hnext).imp Precedes.cons)
    · -- What comes below the branch begins with another slot, and behind the wildcard there
      -- is nothing.
      intro upper hupper lower hlower
      obtain ⟨deeper, -, rfl⟩ := List.mem_map.1 hupper
      obtain ⟨signature, function⟩ := lower
      have hbound := (halternatives.mem_overloads_iff).1 hlower
      cases signature with
      | nil =>
        rw [bound?_nil, hhead] at hbound
        cases hbound
      | cons wanted rest =>
        obtain ⟨found, hfound, -⟩ := bound?_cons.1 hbound
        refine precedes_of_ne ?_ ?_
        · rintro rfl
          rw [hfresh] at hfound
          cases hfound
        · intro hany
          rw [hlast hany, child?_empty] at hfound
          cases hfound

theorem WellFormed.nodup_overloads (hwf : tree.WellFormed) : tree.overloads.Nodup :=
  hwf.precedes_overloads.imp fun {above below} hprecedes heq => by
    subst heq
    exact hprecedes.not_extension List.prefix_rfl

/-! ## The table -/

theorem rowsFrom_eq (expand : DictId → String) (path : Signature) :
    tree.rowsFrom expand path = String.join ((tree.overloadsFrom path).map fun overload =>
      row expand overload.1.reverse overload.2) := by
  induction tree generalizing path with
  | empty => rfl
  | leaf bound alternatives ih => simp [rowsFrom, overloadsFrom, ih]
  | branch slot next alternatives ihNext ihAlternatives =>
    simp [rowsFrom, overloadsFrom, ihNext, ihAlternatives]

/-! ## The nested arrays -/

mutual

/-- Reads the chain that `path` leads to, with its last position first: it is the array of its
items. -/
def readChain? (path : Signature) : Token → Option (List Overload)
  | .datum (.array items) _ => readItems? path items
  | _ => none

/-- Reads an item of a chain: a function ends the path, and a type with a chain extends it. -/
def readItem? (path : Signature) : Token → Option (List Overload)
  | .datum (.function name operator) attributes =>
    some [(path.reverse, .datum (.function name operator) attributes)]
  | .datum (.array [.datum (.literal name) _, chain]) _ => do
    let slot ← TypeSlot.read? name.text
    readChain? (slot :: path) chain
  | _ => none

/-- Reads the items of a chain one after the other. -/
def readItems? (path : Signature) : List Token → Option (List Overload)
  | [] => some []
  | item :: rest => do return (← readItem? path item) ++ (← readItems? path rest)

end

theorem readItems?_toItems (hfunctions : ∀ function ∈ tree.functions, function.isA .function)
    (path : Signature) : readItems? path tree.toItems = some (tree.overloadsFrom path) := by
  induction tree generalizing path with
  | empty => rfl
  | leaf bound alternatives ih =>
    have hrest := ih (fun function hmem => hfunctions function (List.mem_cons_of_mem _ hmem)) path
    obtain ⟨name, operator, attributes, rfl⟩ :=
      Token.eq_function_of_isA (hfunctions bound (List.mem_cons_self ..))
    simp [toItems, readItems?, readItem?, overloadsFrom, hrest]
  | branch slot next alternatives ihNext ihAlternatives =>
    have hnext := ihNext (fun function hmem =>
      hfunctions function (List.mem_append_left _ hmem)) (slot :: path)
    have hrest := ihAlternatives (fun function hmem =>
      hfunctions function (List.mem_append_right _ hmem)) path
    simp [toItems, Token.array, Token.literal, Token.ofValue, readItems?, readItem?, readChain?,
      overloadsFrom, hnext, hrest]

/-- Whether an item is for the wildcard. -/
def isWildcard : Token → Bool
  | .datum (.array (.datum (.literal name) _ :: _)) _ => name.text == TypeSlot.any.slotName
  | _ => false

mutual

/-- In the chain and in all chains inside it, a function stands at the head only and the
wildcard at the end only. -/
def ChainInOrder : Token → Prop
  | .datum (.array items) _ => ItemsInOrder items
  | _ => True

/-- The chain behind an item is in order. -/
def ItemInOrder : Token → Prop
  | .datum (.array [_, chain]) _ => ChainInOrder chain
  | _ => True

/-- The items are in order, each for itself and among each other. -/
def ItemsInOrder : List Token → Prop
  | [] => True
  | item :: rest =>
    ItemInOrder item ∧ ItemsInOrder rest ∧
      ∀ later ∈ rest, ¬ later.isA .function ∧ ¬ isWildcard item

end

theorem WellFormed.not_function_of_mem_toItems (hwf : tree.WellFormed) (hhead : tree.head? = none)
    {item : Token} (hmem : item ∈ tree.toItems) : ¬ item.isA .function := by
  induction tree with
  | empty => cases hmem
  | leaf bound alternatives => cases hhead
  | branch slot next alternatives _ ih =>
    obtain rfl | hmem := List.mem_cons.1 hmem
    · exact Bool.false_ne_true
    · exact ih hwf.2.2.2.1 hwf.2.2.1 hmem

theorem WellFormed.itemsInOrder (hwf : tree.WellFormed)
    (hfunctions : ∀ function ∈ tree.functions, function.isA .function) :
    ItemsInOrder tree.toItems := by
  induction tree with
  | empty => trivial
  | leaf bound alternatives ih =>
    have hrest := ih hwf.2 fun function hmem => hfunctions function (List.mem_cons_of_mem _ hmem)
    obtain ⟨name, operator, attributes, rfl⟩ :=
      Token.eq_function_of_isA (hfunctions bound (List.mem_cons_self ..))
    exact ⟨trivial, hrest, fun later hlater =>
      ⟨hwf.2.not_function_of_mem_toItems hwf.1 hlater, by simp [isWildcard]⟩⟩
  | branch slot next alternatives ihNext ihAlternatives =>
    obtain ⟨-, hnext, hhead, halternatives, -, hlast⟩ := hwf
    have hbelow := ihNext hnext fun function hmem =>
      hfunctions function (List.mem_append_left _ hmem)
    have hrest := ihAlternatives halternatives fun function hmem =>
      hfunctions function (List.mem_append_right _ hmem)
    refine ⟨hbelow, hrest, fun later hlater =>
      ⟨halternatives.not_function_of_mem_toItems hhead hlater, fun hwildcard => ?_⟩⟩
    have hany : slot = .any := TypeSlot.eq_any_of_slotName_eq (eq_of_beq hwildcard)
    rw [hlast hany] at hlater
    cases hlater

/-! ## What was accepted -/

namespace Record

/-- What was accepted was requested. -/
theorem accepted_sublist (requests : List Overload) :
    (ofRequests requests).accepted.Sublist requests := by
  induction requests using List.reverseRecOn with
  | nil => exact List.Sublist.refl []
  | append_singleton requests request ih =>
    rw [ofRequests_concat]
    obtain hsame | ⟨added, -, hoffer⟩ := (ofRequests requests).offer_cases request
    · rw [hsame]
      exact ih.trans (List.sublist_append_left requests [request])
    · rw [hoffer]
      exact ih.append (List.Sublist.refl [request])

/-- No signature is accepted twice. -/
theorem nodup_accepted (requests : List Overload) :
    ((ofRequests requests).accepted.map Prod.fst).Nodup := by
  induction requests using List.reverseRecOn with
  | nil => exact List.nodup_nil
  | append_singleton requests request ih =>
    have hfaithful := faithful_ofRequests requests
    rw [ofRequests_concat]
    obtain hsame | ⟨added, hadd, hoffer⟩ := (ofRequests requests).offer_cases request
    · rwa [hsame]
    · have hfree := (adds_of_add hadd).bound?_eq_none hfaithful.wellFormed
      rw [hoffer, List.map_append, List.nodup_append]
      refine ⟨ih, List.nodup_singleton _, ?_⟩
      rintro signature hold _ hnew rfl
      obtain rfl := List.mem_singleton.1 hnew
      obtain ⟨⟨signature, function⟩, hmem, rfl⟩ := List.mem_map.1 hold
      rw [(hfaithful.mem_accepted_iff _ _).1 hmem] at hfree
      cases hfree

/-- The chains list each accepted overload once. -/
theorem overloads_perm (requests : List Overload) :
    (ofRequests requests).tree.overloads.Perm (ofRequests requests).accepted := by
  have hfaithful := faithful_ofRequests requests
  refine (List.perm_ext_iff_of_nodup hfaithful.wellFormed.nodup_overloads
    (List.Nodup.of_map _ (nodup_accepted requests))).2 fun ⟨signature, function⟩ => ?_
  rw [hfaithful.wellFormed.mem_overloads_iff, hfaithful.mem_accepted_iff]

end Record

theorem map_snd_overloads : tree.overloads.map Prod.snd = tree.functions := by
  induction tree with
  | empty => rfl
  | leaf bound alternatives ih => simp [functions, ih]
  | branch slot next alternatives ihNext ihAlternatives =>
    simp [functions, Function.comp_def, ← ihNext, ← ihAlternatives]

/-- Accepted overloads in the order in which the renderings of a tree show them, each exactly
once: a signature before its extensions, and types before the wildcard in every chain.  The
nested arrays can be read back.  The table has a row for each overload, with the names of its
types, deepest operand first, and that of its function. -/
structure Listing (tree : OverloadTree) (accepted listed : List Overload) : Prop where
  perm : listed.Perm accepted
  nodup : (listed.map Prod.fst).Nodup
  read : readChain? [] tree.toArray = some listed
  rows : ∀ expand, tree.info expand =
    String.join (listed.map fun overload => row expand overload.1.reverse overload.2)
  row : ∀ overload ∈ listed, ∃ name operator attributes,
    overload.2 = .datum (.function name operator) attributes ∧
    ∀ expand, OverloadTree.row expand overload.1.reverse overload.2 =
      String.join (overload.1.reverse.map fun slot => Text.padRight slot.slotName typeWidth) ++
        "calls " ++ ("-" ++ name.text ++ "-") ++ "\n"
  precedes : listed.Pairwise fun above below => Precedes above.1 below.1
  inOrder : ChainInOrder tree.toArray

theorem listing_overloads (requests : List Overload)
    (hfunctions : ∀ request ∈ requests, request.2.isA .function) :
    Listing (Record.ofRequests requests).tree (Record.ofRequests requests).accepted
      (Record.ofRequests requests).tree.overloads := by
  have hwf := (Record.faithful_ofRequests requests).wellFormed
  have hperm := Record.overloads_perm requests
  have hlisted : ∀ overload ∈ (Record.ofRequests requests).tree.overloads,
      overload.2.isA .function := fun overload hmem =>
    hfunctions overload ((Record.accepted_sublist requests).subset (hperm.mem_iff.1 hmem))
  have hbound : ∀ function ∈ (Record.ofRequests requests).tree.functions,
      function.isA .function := by
    intro function hmem
    rw [← map_snd_overloads] at hmem
    obtain ⟨overload, hoverload, rfl⟩ := List.mem_map.1 hmem
    exact hlisted overload hoverload
  refine ⟨hperm, (hperm.map Prod.fst).nodup_iff.2 (Record.nodup_accepted requests),
    readItems?_toItems hbound [], fun expand => rowsFrom_eq expand [], fun overload hmem => ?_,
    hwf.precedes_overloads, hwf.itemsInOrder hbound⟩
  obtain ⟨name, operator, attributes, heq⟩ := Token.eq_function_of_isA (hlisted overload hmem)
  exact ⟨name, operator, attributes, heq, fun expand => by rw [heq]; rfl⟩

end OverloadTree

end StackLang
