import Mathlib
import StackLang.OverloadTree

/-!
# What an overload tree binds

A tree is a finite map from signatures to functions in disguise.  This module
reads that map off the tree, states the shape that every tree keeps, and proves
that adding an overload changes the map at its signature and nowhere else,
however the chains are rearranged on the way.
-/

namespace StackLang.OverloadTree

/-- The chain behind the branch for a slot. -/
def child? (wanted : TypeSlot) : OverloadTree → Option OverloadTree
  | empty => none
  | leaf _ alternatives => alternatives.child? wanted
  | branch slot next alternatives =>
    if slot = wanted then some next else alternatives.child? wanted

/-- The function bound to a signature. -/
def bound? (tree : OverloadTree) : Signature → Option Token
  | [] => tree.head?
  | slot :: rest => (tree.child? slot).bind fun next => next.bound? rest

/-- The shape of a tree: a leaf only at the head of its chain, no slot twice in
a chain, the wildcard last, and no branch without overloads. -/
def WellFormed : OverloadTree → Prop
  | empty => True
  | leaf _ alternatives => alternatives.head? = none ∧ alternatives.WellFormed
  | branch slot next alternatives =>
    next ≠ empty ∧ next.WellFormed ∧ alternatives.head? = none ∧
      alternatives.WellFormed ∧ alternatives.child? slot = none ∧
      (slot = .any → alternatives = empty)

@[simp]
theorem child?_empty (slot : TypeSlot) : empty.child? slot = none := rfl

@[simp]
theorem child?_leaf (slot : TypeSlot) (function : Token) (alternatives : OverloadTree) :
    (leaf function alternatives).child? slot = alternatives.child? slot := rfl

@[simp]
theorem bound?_nil (tree : OverloadTree) : tree.bound? [] = tree.head? := rfl

@[simp]
theorem bound?_empty (signature : Signature) : empty.bound? signature = none := by
  cases signature <;> rfl

theorem bound?_cons {tree : OverloadTree} {slot : TypeSlot} {rest : Signature}
    {function : Token} :
    tree.bound? (slot :: rest) = some function ↔
      ∃ next, tree.child? slot = some next ∧ next.bound? rest = some function := by
  simp [bound?, Option.bind_eq_some_iff]

/-! ## Shape -/

theorem WellFormed.of_child? {tree next : OverloadTree} {slot : TypeSlot}
    (hwf : tree.WellFormed) (hchild : tree.child? slot = some next) :
    next.WellFormed ∧ next ≠ empty := by
  induction tree with
  | empty => simp at hchild
  | leaf _ alternatives ih => exact ih hwf.2 hchild
  | branch own below alternatives _ ih =>
    obtain ⟨hne, hbelow, -, halternatives, -, -⟩ := hwf
    by_cases heq : own = slot
    · simp only [child?, heq, if_true, Option.some.injEq] at hchild
      exact hchild ▸ ⟨hbelow, hne⟩
    · simp only [child?, heq, if_false] at hchild
      exact ih halternatives hchild

/-- A chain that is not empty binds something. -/
theorem WellFormed.exists_bound {tree : OverloadTree} (hwf : tree.WellFormed)
    (hne : tree ≠ empty) : ∃ signature function, tree.bound? signature = some function := by
  induction tree with
  | empty => exact absurd rfl hne
  | leaf function alternatives _ => exact ⟨[], function, rfl⟩
  | branch slot next alternatives ih _ =>
    obtain ⟨signature, function, hbound⟩ := ih hwf.2.1 hwf.1
    exact ⟨slot :: signature, function, by simpa [bound?, child?] using hbound⟩

/-- The branch that fits an operand is the one for its own type, and the
wildcard's only where there is none. -/
theorem WellFormed.follow?_eq {tree : OverloadTree} (hwf : tree.WellFormed)
    (tag : TypeTag) :
    tree.follow? tag = (tree.child? (.exactly tag)).or (tree.child? .any) := by
  induction tree with
  | empty => rfl
  | leaf _ alternatives ih => exact ih hwf.2
  | branch slot next alternatives _ ih =>
    obtain ⟨-, -, -, halternatives, -, hlast⟩ := hwf
    cases slot with
    | any => simp [follow?, child?, TypeSlot.accepts, hlast rfl]
    | exactly own =>
      by_cases heq : own = tag
      · simp [follow?, child?, TypeSlot.accepts, heq]
      · simp [follow?, child?, TypeSlot.accepts, heq, ih halternatives]

theorem WellFormed.of_follow? {tree next : OverloadTree} {tag : TypeTag}
    (hwf : tree.WellFormed) (hfollow : tree.follow? tag = some next) :
    next.WellFormed ∧ next ≠ empty := by
  rw [hwf.follow?_eq, Option.or_eq_some_iff] at hfollow
  obtain hown | ⟨-, hany⟩ := hfollow
  · exact hwf.of_child? hown
  · exact hwf.of_child? hany

/-! ## The tree of one overload -/

theorem wellFormed_single (function : Token) (signature : Signature) :
    (single function signature).WellFormed ∧ single function signature ≠ empty := by
  induction signature with
  | nil => simp [single, WellFormed, head?]
  | cons slot rest ih => simp [single, WellFormed, head?, ih]

theorem bound?_single (function : Token) (signature other : Signature) :
    (single function signature).bound? other =
      if other = signature then some function else none := by
  induction signature generalizing other with
  | nil =>
    cases other with
    | nil => rfl
    | cons slot rest => simp [single, bound?]
  | cons slot rest ih =>
    cases other with
    | nil => rfl
    | cons first below =>
      by_cases heq : slot = first
      · simp [single, bound?, child?, heq, ih]
      · simp [single, bound?, child?, heq, Ne.symm heq]

/-! ## Adding an overload -/

variable {function : Token} {tree added : OverloadTree} {signature : Signature}

/-- A signature is free at the end of a chain only if the chain is empty. -/
theorem Adds.of_nil (hadds : Adds function tree [] added) :
    tree = empty ∧ added = single function [] := by
  cases hadds with
  | alone => exact ⟨rfl, rfl⟩

/-- What an addition does to a chain: behind the first slot of the signature the
rest of it was added, and behind every other slot nothing changed. -/
structure AddedBehind (function : Token) (slot : TypeSlot) (rest : Signature)
    (tree added : OverloadTree) : Prop where
  head : added.head? = tree.head?
  others : ∀ other, other ≠ slot → added.child? other = tree.child? other
  here : ∃ next, added.child? slot = some next ∧
    Adds function ((tree.child? slot).getD empty) rest next

theorem Adds.addedBehind {slot : TypeSlot} {rest : Signature}
    (hadds : Adds function tree (slot :: rest) added) (hwf : tree.WellFormed) :
    AddedBehind function slot rest tree added := by
  generalize hsignature : slot :: rest = signature at hadds
  induction hadds with
  | alone =>
    subst hsignature
    refine ⟨rfl, fun other hne => ?_, single function rest, by simp [single, child?], .alone⟩
    simp [single, child?, Ne.symm hne]
  | behindLeaf _ ih =>
    obtain ⟨-, hothers, hhere⟩ := ih hwf.2 hsignature
    exact ⟨rfl, hothers, hhere⟩
  | @behindSlot _ _ _ _ changed hadds =>
    cases hsignature
    refine ⟨rfl, fun other hne => ?_, changed, by simp [child?], by simpa [child?] using hadds⟩
    simp [child?, Ne.symm hne]
  | @beforeWildcard _ _ next _ hwanted =>
    cases hsignature
    obtain ⟨-, -, -, -, -, hlast⟩ := hwf
    obtain rfl := hlast rfl
    have hfresh : (branch .any next empty).child? slot = none := by
      simp [child?, Ne.symm hwanted]
    refine ⟨rfl, fun other hne => ?_, single function rest, by simp [child?], ?_⟩
    · simp [child?, Ne.symm hne]
    · rw [hfresh]
      exact .alone
  | @behindBranch own _ _ _ _ _ hslot _ _ ih =>
    cases hsignature
    obtain ⟨-, -, -, halternatives, -, -⟩ := hwf
    obtain ⟨-, hothers, hhere⟩ := ih halternatives rfl
    refine ⟨rfl, fun other hne => ?_, by simpa [child?, hslot] using hhere⟩
    by_cases heq : own = other
    · simp [child?, heq]
    · simp [child?, heq, hothers other hne]

theorem Adds.ne_empty (hadds : Adds function tree signature added) : added ≠ empty := by
  cases hadds with
  | alone => exact (wellFormed_single function signature).2
  | _ => simp

/-- Adding an overload keeps the shape of a tree. -/
theorem Adds.wellFormed (hadds : Adds function tree signature added) (hwf : tree.WellFormed) :
    added.WellFormed := by
  induction hadds with
  | alone => exact (wellFormed_single function _).1
  | behindLeaf hadds ih =>
    have hhead := (hadds.addedBehind hwf.2).head
    exact ⟨hhead.trans hwf.1, ih hwf.2⟩
  | behindSlot hadds ih =>
    obtain ⟨-, hnext, hbehind⟩ := hwf
    exact ⟨hadds.ne_empty, ih hnext, hbehind⟩
  | @beforeWildcard _ rest _ _ hwanted =>
    obtain ⟨-, -, -, -, -, hlast⟩ := id hwf
    obtain rfl := hlast rfl
    obtain ⟨hsingle, hne⟩ := wellFormed_single function rest
    exact ⟨hne, hsingle, rfl, hwf, by simp [child?, Ne.symm hwanted],
      fun hany => absurd hany hwanted⟩
  | @behindBranch own _ _ _ _ _ hslot hconcrete hadds ih =>
    obtain ⟨hne, hnext, hhead, halternatives, hfresh, -⟩ := hwf
    have hbehind := hadds.addedBehind halternatives
    exact ⟨hne, hnext, hbehind.head.trans hhead, ih halternatives,
      (hbehind.others own hslot).trans hfresh, fun hany => absurd hany hconcrete⟩

/-- Adding an overload binds its signature and leaves every other one alone. -/
theorem Adds.bound?_eq (hadds : Adds function tree signature added) (hwf : tree.WellFormed)
    (other : Signature) :
    added.bound? other = if other = signature then some function else tree.bound? other := by
  induction signature generalizing tree added other with
  | nil =>
    obtain ⟨rfl, rfl⟩ := hadds.of_nil
    rw [bound?_single, bound?_empty]
  | cons slot rest ih =>
    have hbehind := hadds.addedBehind hwf
    obtain ⟨next, hnext, hbelow⟩ := hbehind.here
    cases other with
    | nil => simp [hbehind.head]
    | cons first below =>
      by_cases hfirst : first = slot
      · subst first
        have hwfBelow : ((tree.child? slot).getD empty).WellFormed := by
          cases hchild : tree.child? slot with
          | none => trivial
          | some old => exact (hwf.of_child? hchild).1
        have hrest := ih hbelow hwfBelow below
        cases hchild : tree.child? slot <;> simp_all [bound?]
      · simp [bound?, hbehind.others first hfirst, hfirst]

/-- Only a signature that starts no bound one can be added. -/
theorem Adds.bound?_append_eq_none (hadds : Adds function tree signature added)
    (hwf : tree.WellFormed) (longer : Signature) : tree.bound? (signature ++ longer) = none := by
  induction signature generalizing tree added with
  | nil => rw [hadds.of_nil.1, bound?_empty]
  | cons slot rest ih =>
    obtain ⟨next, -, hbelow⟩ := (hadds.addedBehind hwf).here
    cases hchild : tree.child? slot with
    | none => simp [bound?, hchild]
    | some old =>
      rw [hchild] at hbelow
      simpa [bound?, hchild] using ih hbelow (hwf.of_child? hchild).1

/-- Only a signature that is not bound can be added. -/
theorem Adds.bound?_eq_none (hadds : Adds function tree signature added)
    (hwf : tree.WellFormed) : tree.bound? signature = none := by
  simpa using hadds.bound?_append_eq_none hwf []

/-! ## Sequences of requests -/

/-- A signature with the function that it is to select. -/
abbrev Overload := Signature × Token

/-- A tree together with the overloads that it accepted, in order. -/
structure Record where
  tree : OverloadTree := .empty
  accepted : List Overload := []

namespace Record

/-- Requests an overload.  A request without operands is a fault, which leaves
the tree as it is. -/
def offer (record : Record) (request : Overload) : Record :=
  match record.tree.insert request.1 request.2 with
  | .ok (tree, true, _) => { tree, accepted := record.accepted ++ [request] }
  | .ok (tree, false, _) => { record with tree }
  | .error _ => record

/-- What a sequence of requests makes of an empty tree. -/
def ofRequests (requests : List Overload) : Record :=
  requests.foldl offer {}

theorem ofRequests_concat (requests : List Overload) (request : Overload) :
    ofRequests (requests ++ [request]) = (ofRequests requests).offer request := by
  rw [ofRequests, List.foldl_concat, ofRequests]

/-- The tree has its shape and binds what was accepted and nothing else. -/
structure Faithful (record : Record) : Prop where
  wellFormed : record.tree.WellFormed
  mem_accepted_iff : ∀ signature function,
    (signature, function) ∈ record.accepted ↔
      record.tree.bound? signature = some function

/-- A request either changes nothing or adds its overload. -/
theorem offer_cases (record : Record) (request : Overload) :
    record.offer request = record ∨
      ∃ added, record.tree.add request.2 request.1 = .ok added ∧
        record.offer request = { tree := added, accepted := record.accepted ++ [request] } := by
  unfold offer OverloadTree.insert
  by_cases hempty : request.1.isEmpty
  · simp [hempty]
  · cases hadd : record.tree.add request.2 request.1 with
    | error refusal => simp [hempty]
    | ok added => simp [hempty]

theorem Faithful.offer {record : Record} (hfaithful : record.Faithful) (request : Overload) :
    (record.offer request).Faithful := by
  obtain hsame | ⟨added, hadd, hoffer⟩ := record.offer_cases request
  · rwa [hsame]
  · rw [hoffer]
    have hadds := adds_of_add hadd
    refine ⟨hadds.wellFormed hfaithful.wellFormed, fun signature function => ?_⟩
    have hfree := hadds.bound?_eq_none hfaithful.wellFormed
    have hbound := hadds.bound?_eq hfaithful.wellFormed signature
    simp only [List.mem_append, List.mem_singleton, hfaithful.mem_accepted_iff]
    rw [hbound]
    by_cases hsignature : signature = request.1
    · subst hsignature
      simp [hfree, Prod.ext_iff, eq_comm]
    · simp [hsignature, Prod.ext_iff]

theorem Faithful.offerAll {record : Record} (hfaithful : record.Faithful)
    (requests : List Overload) : (requests.foldl Record.offer record).Faithful := by
  induction requests generalizing record with
  | nil => exact hfaithful
  | cons request rest ih => exact ih (hfaithful.offer request)

/-- After every sequence of requests the tree binds exactly what it accepted. -/
theorem faithful_ofRequests (requests : List Overload) : (ofRequests requests).Faithful := by
  have hempty : ({} : Record).Faithful := ⟨trivial, by simp [OverloadTree.bound?_empty]⟩
  exact hempty.offerAll requests

end Record

end StackLang.OverloadTree
