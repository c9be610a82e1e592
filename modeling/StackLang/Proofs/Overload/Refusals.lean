import StackLang.Proofs.Overload.Bindings

/-!
# Which overloads are refused

On its way down an addition makes branches and moves the wildcard behind new types, and
only at the end it finds out whether the signature is taken.  Still a refusal never leaves
a trace: where a branch is made the rest of the signature is free.  So an overload is
refused exactly if its signature is the start of one that was accepted before.
-/

namespace StackLang.OverloadTree

variable {function : Token} {tree : OverloadTree} {signature : Signature}

private theorem map_eq_error {wrap : OverloadTree → OverloadTree}
    {result : Except Refusal OverloadTree} {refusal : Refusal}
    (h : result.map wrap = .error refusal) : result = .error refusal := by
  cases result with
  | error own => simpa [Except.map] using h
  | ok part => simp [Except.map] at h

/-- Some bound signature begins with this one, or is this one. -/
def Starts (tree : OverloadTree) (signature : Signature) : Prop :=
  ∃ longer bound, tree.bound? (signature ++ longer) = some bound

/-- The reason why a signature cannot be bound that starts a bound one. -/
def refusalOf (tree : OverloadTree) (signature : Signature) : Refusal :=
  if (tree.bound? signature).isSome then .alreadyDefined else .startsLonger

/-- A refused signature starts a bound one. -/
theorem WellFormed.of_refused {refusal : Refusal} (hwf : tree.WellFormed)
    (hadd : tree.add function signature = .error refusal) :
    tree.Starts signature ∧ refusal = tree.refusalOf signature := by
  induction tree generalizing signature with
  | empty => simp [add] at hadd
  | leaf own alternatives ih =>
    cases signature with
    | nil => exact ⟨⟨[], own, rfl⟩, by simpa [add, refusalOf, head?, eq_comm] using hadd⟩
    | cons slot rest => exact ih hwf.2 (map_eq_error hadd)
  | branch slot next alternatives ihNext ihAlternatives =>
    cases signature with
    | nil =>
      obtain ⟨longer, bound, hbound⟩ := hwf.exists_bound (by simp)
      exact ⟨⟨longer, bound, hbound⟩, by simpa [add, refusalOf, head?, eq_comm] using hadd⟩
    | cons wanted rest =>
      by_cases hslot : slot = wanted
      · simp only [add, hslot, if_true] at hadd
        obtain ⟨hstarts, hreason⟩ := ihNext hwf.2.1 (map_eq_error hadd)
        simpa [Starts, refusalOf, bound?, child?, hslot] using ⟨hstarts, hreason⟩
      · by_cases hany : slot = .any
        · simp [add, hany, show ¬ TypeSlot.any = wanted from hany ▸ hslot] at hadd
        · simp only [add, hslot, hany, if_false] at hadd
          obtain ⟨hstarts, hreason⟩ := ihAlternatives hwf.2.2.2.1 (map_eq_error hadd)
          simpa [Starts, refusalOf, bound?, child?, hslot] using ⟨hstarts, hreason⟩

/-- An addition is refused exactly if the signature starts a bound one. -/
theorem WellFormed.add_eq_error_iff (hwf : tree.WellFormed) (function : Token)
    {refusal : Refusal} :
    tree.add function signature = .error refusal ↔
      tree.Starts signature ∧ refusal = tree.refusalOf signature := by
  refine ⟨hwf.of_refused, ?_⟩
  rintro ⟨⟨longer, bound, hbound⟩, rfl⟩
  cases hadd : tree.add function signature with
  | error own => rw [(hwf.of_refused hadd).2]
  | ok added => simp [(adds_of_add hadd).bound?_append_eq_none hwf longer] at hbound

namespace Record

variable {record : Record}

/-- Some accepted signature begins with this one, or is this one. -/
def Starts (record : Record) (signature : Signature) : Prop :=
  ∃ overload ∈ record.accepted, signature <+: overload.1

theorem Faithful.starts_iff (hfaithful : record.Faithful) :
    record.Starts signature ↔ record.tree.Starts signature := by
  constructor
  · rintro ⟨⟨_, bound⟩, hmem, longer, rfl⟩
    exact ⟨longer, bound, (hfaithful.mem_accepted_iff _ _).1 hmem⟩
  · rintro ⟨longer, bound, hbound⟩
    exact ⟨(signature ++ longer, bound), (hfaithful.mem_accepted_iff _ _).2 hbound, longer, rfl⟩

/-- A request that starts an accepted overload is refused, with a report, and changes nothing. -/
theorem Faithful.insert_of_starts (hfaithful : record.Faithful) (hne : signature ≠ [])
    (hstarts : record.Starts signature) (function : Token) :
    record.tree.insert signature function =
      .ok (record.tree, false, [(record.tree.refusalOf signature).event signature]) := by
  have hadd := (hfaithful.wellFormed.add_eq_error_iff function).2
    ⟨hfaithful.starts_iff.1 hstarts, rfl⟩
  simp [insert, hne, hadd]

/-- Any other request is accepted. -/
theorem Faithful.insert_of_not_starts (hfaithful : record.Faithful) (hne : signature ≠ [])
    (hfree : ¬ record.Starts signature) (function : Token) :
    ∃ added, record.tree.add function signature = .ok added ∧
      record.tree.insert signature function = .ok (added, true, []) := by
  cases hadd : record.tree.add function signature with
  | ok added => exact ⟨added, rfl, by simp [insert, hne, hadd]⟩
  | error refusal =>
    exact absurd (hfaithful.starts_iff.2 (hfaithful.wellFormed.of_refused hadd).1) hfree

/-- What has been accepted stays accepted. -/
theorem Starts.offer (hstarts : record.Starts signature) (request : Overload) :
    (record.offer request).Starts signature := by
  obtain hsame | ⟨added, -, hoffer⟩ := record.offer_cases request
  · rwa [hsame]
  · obtain ⟨overload, hmem, hprefix⟩ := hstarts
    rw [hoffer]
    exact ⟨overload, List.mem_append_left _ hmem, hprefix⟩

/-- Whether it was accepted or refused, a request starts an accepted overload from then on. -/
theorem Faithful.starts_offer (hfaithful : record.Faithful) {request : Overload}
    (hne : request.1 ≠ []) : (record.offer request).Starts request.1 := by
  by_cases hstarts : record.Starts request.1
  · exact hstarts.offer request
  · obtain ⟨added, -, hinsert⟩ := hfaithful.insert_of_not_starts hne hstarts request.2
    rw [Record.offer, hinsert]
    exact ⟨request, by simp, List.prefix_rfl⟩

theorem Starts.offerAll (hstarts : record.Starts signature) (requests : List Overload) :
    (requests.foldl Record.offer record).Starts signature := by
  induction requests generalizing record with
  | nil => exact hstarts
  | cons request rest ih => exact ih (hstarts.offer request)

/-- Every earlier request starts an accepted overload. -/
theorem Faithful.starts_of_mem (hfaithful : record.Faithful) {requests : List Overload}
    {request : Overload} (hmem : request ∈ requests) (hne : request.1 ≠ []) :
    (requests.foldl Record.offer record).Starts request.1 := by
  induction requests generalizing record with
  | nil => cases hmem
  | cons first rest ih =>
    obtain rfl | hlater := List.mem_cons.1 hmem
    · exact (hfaithful.starts_offer hne).offerAll rest
    · exact ih (hfaithful.offer first) hlater

end Record

/-- After any sequence of requests, a further one is refused exactly if its signature is the
start of an accepted one, or is one itself; wildcards count as symbols.  A refusal is reported
and leaves the tree as it is.  Otherwise the request is accepted without a report: then its
signature is bound to its function, and every other signature is bound as before. -/
theorem insert_ofRequests (requests : List Overload) (slot : TypeSlot) (rest : Signature)
    (function : Token) :
    let record := Record.ofRequests requests
    let signature := slot :: rest
    ((∃ overload ∈ record.accepted, signature <+: overload.1) →
      record.tree.insert signature function = .ok (record.tree, false,
        [(record.tree.refusalOf signature).event signature])) ∧
    ((∀ overload ∈ record.accepted, ¬ signature <+: overload.1) →
      ∃ added, record.tree.insert signature function = .ok (added, true, []) ∧
        Record.ofRequests (requests ++ [(signature, function)]) =
          { tree := added, accepted := record.accepted ++ [(signature, function)] } ∧
        ∀ other, added.bound? other =
          if other = signature then some function else record.tree.bound? other) := by
  intro record signature
  have hfaithful : record.Faithful := Record.faithful_ofRequests requests
  have hne : signature ≠ [] := by simp [signature]
  refine ⟨fun hstarts => hfaithful.insert_of_starts hne hstarts function, fun hfree => ?_⟩
  obtain ⟨added, hadd, hinsert⟩ := hfaithful.insert_of_not_starts hne
    (fun ⟨overload, hmem, hprefix⟩ => hfree overload hmem hprefix) function
  refine ⟨added, hinsert, ?_, (adds_of_add hadd).bound?_eq hfaithful.wellFormed⟩
  rw [Record.ofRequests_concat, Record.offer, hinsert]

end StackLang.OverloadTree
