import Mathlib
import StackLang.Machine.Registration
import StackLang.Proofs.Overload.Refusals

/-!
# What a sequence of registrations asks for

A name is registered again and again, as a plain operator or with one more overload, and
other names in between.  A plain registration puts an end to the overloads before it, so
only those behind the last one count, and of these one is taken unless its signature
starts one that was taken before.  All this is said of the sequence alone, without a
machine and without a tree; the tree of the requests is the one to which those that are
taken were added.
-/

namespace StackLang

namespace OverloadTree

/-- The signature is that of one of the overloads or the start of it. -/
def StartsOneOf (taken : List Overload) (signature : Signature) : Prop :=
  ∃ overload ∈ taken, signature <+: overload.1

instance (taken : List Overload) (signature : Signature) :
    Decidable (StartsOneOf taken signature) :=
  inferInstanceAs (Decidable (∃ overload ∈ taken, signature <+: overload.1))

/-- Of a sequence of requests those that are taken: a request is, unless its signature is
that of one taken before or the start of it. -/
def admitted (requests : List Overload) : List Overload :=
  requests.foldl
    (fun taken request =>
      if StartsOneOf taken request.1 then taken else taken ++ [request]) []

/-- Adds overloads one after the other. -/
def addAll (overloads : List Overload) (tree : OverloadTree) : Except Refusal OverloadTree :=
  overloads.foldlM (fun tree overload => tree.add overload.2 overload.1) tree

/-- The tree took these overloads, in order, and nothing else. -/
structure Took (overloads : List Overload) (tree : OverloadTree) : Prop where
  added : empty.addAll overloads = .ok tree
  mem_iff : ∀ signature function, (signature, function) ∈ overloads ↔
    tree.bound? signature = some function

theorem Took.unique {overloads : List Overload} {tree other : OverloadTree}
    (htook : tree.Took overloads) (hother : other.Took overloads) : tree = other :=
  Except.ok.inj (htook.added.symm.trans hother.added)

theorem admitted_concat (requests : List Overload) (request : Overload) :
    admitted (requests ++ [request]) =
      if StartsOneOf (admitted requests) request.1 then admitted requests
      else admitted requests ++ [request] := by
  rw [admitted, List.foldl_append]
  rfl

theorem addAll_concat {overloads : List Overload} {overload : Overload}
    {tree middle : OverloadTree} (hmiddle : tree.addAll overloads = .ok middle) :
    tree.addAll (overloads ++ [overload]) = middle.add overload.2 overload.1 := by
  rw [addAll] at hmiddle
  rw [addAll, List.foldlM_append, hmiddle]
  exact bind_pure (middle.add overload.2 overload.1)

namespace Record

/-- What is accepted is what is admitted, and the tree comes from adding just that. -/
private theorem ofRequests_admitted {requests : List Overload}
    (hsigned : ∀ request ∈ requests, request.1 ≠ []) :
    (ofRequests requests).accepted = admitted requests ∧
      empty.addAll (admitted requests) = .ok (ofRequests requests).tree := by
  induction requests using List.reverseRecOn with
  | nil => exact ⟨rfl, rfl⟩
  | append_singleton requests request ih =>
    obtain ⟨haccepted, htree⟩ := ih fun earlier hmem => hsigned earlier (by simp [hmem])
    have hfaithful := faithful_ofRequests requests
    have hne : request.1 ≠ [] := hsigned request (by simp)
    rw [ofRequests_concat, admitted_concat, ← haccepted]
    by_cases hstarts : StartsOneOf (ofRequests requests).accepted request.1
    · rw [Record.offer, hfaithful.insert_of_starts hne hstarts request.2, if_pos hstarts]
      exact ⟨rfl, by rw [haccepted, htree]⟩
    · obtain ⟨added, hadd, hinsert⟩ := hfaithful.insert_of_not_starts hne hstarts request.2
      rw [Record.offer, hinsert, if_neg hstarts]
      refine ⟨rfl, ?_⟩
      rw [haccepted, addAll_concat htree, hadd]

theorem accepted_ofRequests {requests : List Overload}
    (hsigned : ∀ request ∈ requests, request.1 ≠ []) :
    (ofRequests requests).accepted = admitted requests :=
  (ofRequests_admitted hsigned).1

theorem took_ofRequests {requests : List Overload}
    (hsigned : ∀ request ∈ requests, request.1 ≠ []) :
    (ofRequests requests).tree.Took (admitted requests) where
  added := (ofRequests_admitted hsigned).2
  mem_iff := by
    rw [← accepted_ofRequests hsigned]
    exact (faithful_ofRequests requests).mem_accepted_iff

/-- A request is taken unless its signature starts one that was, and the tree is that of
one request more. -/
theorem insert_tree_ofRequests {requests : List Overload}
    (hsigned : ∀ request ∈ requests, request.1 ≠ []) {signature : Signature}
    (hne : signature ≠ []) (function : Token) :
    ∃ events, (ofRequests requests).tree.insert signature function =
      .ok ((ofRequests (requests ++ [(signature, function)])).tree,
        decide (¬ StartsOneOf (admitted requests) signature), events) := by
  have hfaithful := faithful_ofRequests requests
  rw [ofRequests_concat, ← accepted_ofRequests hsigned]
  by_cases hstarts : StartsOneOf (ofRequests requests).accepted signature
  · have hinsert := hfaithful.insert_of_starts hne hstarts function
    refine ⟨[((ofRequests requests).tree.refusalOf signature).event signature], ?_⟩
    simp [Record.offer, hinsert, hstarts]
  · obtain ⟨added, -, hinsert⟩ := hfaithful.insert_of_not_starts hne hstarts function
    refine ⟨[], ?_⟩
    simp [Record.offer, hinsert, hstarts]

end Record

end OverloadTree

namespace Registration

open OverloadTree

/-- Whether an overload is registered. -/
def isTyped : Registration → Bool
  | plain .. => false
  | typed .. => true

/-- The overload that is requested, if one is. -/
def request? : Registration → Option Overload
  | plain .. => none
  | typed name signature operator => some (signature, .function name operator)

/-- An overload has operands. -/
def Signed (registration : Registration) : Prop :=
  ∀ request, registration.request? = some request → request.1 ≠ []

instance (registration : Registration) : Decidable registration.Signed :=
  match h : registration.request? with
  | none => isTrue fun _ hrequest => by simp [h] at hrequest
  | some request => decidable_of_iff (request.1 ≠ []) (by simp [Signed, h])

/-- The registrations of a name. -/
def ofName (name : Name) (registrations : List Registration) : List Registration :=
  registrations.filter fun registration => registration.name = name

/-- The overloads requested for a name since it was last registered as a plain operator. -/
def requests (name : Name) (registrations : List Registration) : List Overload :=
  ((ofName name registrations).rtakeWhile isTyped).filterMap request?

/-- What the registration of an overload is answered after some earlier ones: whether it
is taken. -/
def answer? (earlier : List Registration) : Registration → Option Bool
  | plain .. => none
  | typed name signature _ =>
    some (decide (¬ StartsOneOf (admitted (requests name earlier)) signature))

/-- The registered names, each where it is registered first. -/
def firstNames (registrations : List Registration) : List Name :=
  (registrations.map name).eraseDups

variable {registrations : List Registration} {registration : Registration} {own : Name}

@[simp]
theorem ofName_nil (name : Name) : ofName name [] = [] := rfl

theorem ofName_concat (name : Name) (registrations : List Registration)
    (registration : Registration) :
    ofName name (registrations ++ [registration]) =
      if registration.name = name then ofName name registrations ++ [registration]
      else ofName name registrations := by
  by_cases hname : registration.name = name <;> simp [ofName, List.filter_append, hname]

theorem ofName_concat_self (hname : registration.name = own) :
    ofName own (registrations ++ [registration]) = ofName own registrations ++ [registration] := by
  rw [ofName_concat, if_pos hname]

theorem requests_concat_ne (hname : registration.name ≠ own) :
    requests own (registrations ++ [registration]) = requests own registrations := by
  rw [requests, ofName_concat, if_neg hname, requests]

theorem requests_concat_typed {signature : Signature} {operator : Operator} :
    requests own (registrations ++ [.typed own signature operator]) =
      requests own registrations ++ [(signature, .function own operator)] := by
  rw [requests, ofName_concat_self (show (typed own signature operator).name = own from rfl)]
  rw [List.rtakeWhile_concat_pos _ _ _ (by rfl), List.filterMap_append]
  rfl

/-- A name is not registered, or its last registration is plain or that of an overload. -/
theorem ofName_cases (own : Name) (registrations : List Registration) :
    ofName own registrations = [] ∨
      (∃ operator, (ofName own registrations).getLast? = some (.plain own operator)) ∨
      ∃ signature operator,
        (ofName own registrations).getLast? = some (.typed own signature operator) := by
  cases hlast : (ofName own registrations).getLast? with
  | none => exact .inl (List.getLast?_eq_none_iff.1 hlast)
  | some last =>
    have hname : last.name = own := by
      simpa using (List.mem_filter.1 (List.mem_of_getLast? hlast)).2
    cases last with
    | plain name operator => exact .inr (.inl ⟨operator, by rw [← hname]; rfl⟩)
    | typed name signature operator =>
      exact .inr (.inr ⟨signature, operator, by rw [← hname]; rfl⟩)

theorem requests_eq_nil_of_unregistered (hnone : ofName own registrations = []) :
    requests own registrations = [] := by
  rw [requests, hnone]
  rfl

theorem requests_eq_nil_of_plain {operator : Operator}
    (hlast : (ofName own registrations).getLast? = some (.plain own operator)) :
    requests own registrations = [] := by
  obtain ⟨earlier, hearlier⟩ := List.getLast?_eq_some_iff.1 hlast
  rw [requests, hearlier, List.rtakeWhile_concat_neg _ _ _ (by simp [isTyped])]
  rfl

theorem signed_of_mem_requests (hsigned : ∀ registration ∈ registrations, registration.Signed)
    {request : Overload} (hmem : request ∈ requests own registrations) : request.1 ≠ [] := by
  obtain ⟨registration, htaken, hrequest⟩ := List.mem_filterMap.1 hmem
  have hown := (List.rtakeWhile_suffix isTyped _).subset htaken
  exact hsigned registration (List.mem_filter.1 hown).1 request hrequest

/-- A further name is a first one just if it has not been there. -/
theorem eraseDups_concat (names : List Name) (name : Name) :
    (names ++ [name]).eraseDups =
      if name ∈ names then names.eraseDups else names.eraseDups ++ [name] := by
  rw [List.eraseDups_append]
  by_cases hknown : name ∈ names <;> simp [List.removeAll, List.eraseDups_cons, hknown]

theorem firstNames_concat (registrations : List Registration) (registration : Registration) :
    firstNames (registrations ++ [registration]) =
      if registration.name ∈ firstNames registrations then firstNames registrations
      else firstNames registrations ++ [registration.name] := by
  simp only [firstNames, List.map_append, List.map_cons, List.map_nil, eraseDups_concat,
    List.mem_eraseDups]

end Registration

end StackLang
