import Mathlib
import StackLang.Proofs.Overload.ArenaShape
import StackLang.Proofs.Overload.Listings
import StackLang.Proofs.Overload.Refusals
import StackLang.Proofs.Overload.Selection

/-!
# Requests to an arena

Going down an arena makes nodes and moves wildcards before it is known whether the overload
will be taken.  Where a node is missing, the rest of the signature is free, so a refusal comes
only after a way down on which nothing was made.  After any sequence of requests an arena
therefore answers the next one as the tree does that it holds, and stays node for node what it
was if the answer is no.  What it selects and how it is listed depend on the accepted overloads
alone.
-/

namespace StackLang.OverloadArena

open OverloadTree

/-- What comes after a sequence of requests is offered to what the sequence made. -/
theorem ofRequests_concat (rounds : Nat) (requests : List Overload) (request : Overload) :
    ofRequests rounds (requests ++ [request]) =
      ofRequests rounds requests >>= fun arena => arena.offer rounds request := by
  rw [ofRequests, ofRequests, List.foldlM_append]
  simp only [List.foldlM_cons, List.foldlM_nil, bind_pure]

/-- The arena of a sequence of requests answers a further one as the tree does. -/
theorem exists_insert_ofRequests (requests : List Overload) (request : Overload) {taken : Bool}
    {events : List Event} (hne : request.1 ≠ [])
    (hinsert : (Record.ofRequests requests).tree.insert request.1 request.2 =
      .ok ((Record.ofRequests (requests ++ [request])).tree, taken, events))
    (hfit : (Record.ofRequests (requests ++ [request])).tree.places ≤ 2 ^ 32) :
    ∃ arena later, Holds arena (Record.ofRequests requests).tree ∧
      Holds later (Record.ofRequests (requests ++ [request])).tree ∧
      (taken = false → later = arena) ∧
      ∀ rounds, later.nodes.size < rounds →
        ofRequests rounds requests = pure arena ∧
        arena.insert rounds request.1 request.2 = pure (later, taken, events) ∧
        ofRequests rounds (requests ++ [request]) = pure later := by
  have hfaithful := Record.faithful_ofRequests requests
  have hgrowing : (Record.ofRequests requests).tree.places ≤
      (Record.ofRequests (requests ++ [request])).tree.places := by
    rw [Record.ofRequests_concat]
    exact places_le_offerAll hfaithful [request]
  obtain ⟨arena, hholds, harena⟩ := exists_ofRequests requests (hgrowing.trans hfit)
  obtain ⟨later, hlater, hheld, hsame⟩ := hholds.insert_eq hfaithful.wellFormed hinsert hfit
  refine ⟨arena, later, hholds, hheld, hsame, fun rounds hrounds => ?_⟩
  rw [hheld.size_eq] at hrounds
  have hmade := harena rounds (hgrowing.trans_lt hrounds)
  have hanswer := hlater rounds hrounds
  refine ⟨hmade, hanswer, ?_⟩
  rw [ofRequests_concat, hmade, pure_bind, offer, if_neg (by simpa using hne), hanswer, pure_bind]

/-- After any sequence of requests, a further one is refused exactly if its signature is the
start of an accepted one, or is one itself; wildcards count as symbols.  A refusal is reported
and leaves tree and record as they are.  Otherwise the request is accepted without a report:
then its signature is bound to its function, and every other signature is bound as before.
Whoever asked for a signature before, with or without success, is refused when asking again.

As long as its nodes can be numbered, an arena answers alike: after the same requests it holds
the same tree, and where the request is refused no node of it has changed. -/
theorem insert_taken_unless_starts (requests : List Overload) (slot : TypeSlot)
    (rest : Signature) (function : Token) :
    let record := Record.ofRequests requests
    let signature := slot :: rest
    let following := Record.ofRequests (requests ++ [(signature, function)])
    ∃ taken events,
      record.tree.insert signature function = .ok (following.tree, taken, events) ∧
      (taken = false ↔ ∃ overload ∈ record.accepted, signature <+: overload.1) ∧
      (taken = false → following = record ∧
        events = [(record.tree.refusalOf signature).event signature]) ∧
      (taken = true → following.accepted = record.accepted ++ [(signature, function)] ∧
        events = [] ∧ ∀ other, following.tree.bound? other =
          if other = signature then some function else record.tree.bound? other) ∧
      ((∃ asked, (signature, asked) ∈ requests) → taken = false) ∧
      (following.tree.places ≤ 2 ^ 32 → ∃ arena later,
        Holds arena record.tree ∧ Holds later following.tree ∧
        (taken = false → later = arena) ∧
        ∀ rounds, later.nodes.size < rounds →
          ofRequests rounds requests = pure arena ∧
          arena.insert rounds signature function = pure (later, taken, events) ∧
          ofRequests rounds (requests ++ [(signature, function)]) = pure later) := by
  intro record signature following
  have hne : signature ≠ [] := by simp [signature]
  have hempty : ({} : Record).Faithful := Record.faithful_ofRequests []
  obtain ⟨hrefused, haccepted⟩ := insert_ofRequests requests slot rest function
  by_cases hstarts : record.Starts signature
  · have hinsert := hrefused hstarts
    have hsame : following = record := by
      rw [show following = record.offer (signature, function) from
        Record.ofRequests_concat _ _, Record.offer, hinsert]
    have hnext : record.tree.insert signature function = .ok (following.tree, false,
        [(record.tree.refusalOf signature).event signature]) := by rw [hsame, hinsert]
    refine ⟨false, _, hnext, ⟨fun _ => hstarts, fun _ => rfl⟩, fun _ => ⟨hsame, rfl⟩, ?_,
      fun _ => rfl, exists_insert_ofRequests requests (signature, function) hne hnext⟩
    exact fun haccept => absurd haccept Bool.false_ne_true
  · obtain ⟨added, hinsert, hfollowing, hbound⟩ :=
      haccepted fun overload hmem hprefix => hstarts ⟨overload, hmem, hprefix⟩
    have htree : following.tree = added := congrArg Record.tree hfollowing
    have hnext : record.tree.insert signature function = .ok (following.tree, true, []) := by
      rw [htree, hinsert]
    refine ⟨true, [], hnext, ⟨?_, fun h => absurd h hstarts⟩, ?_,
      fun _ => ⟨congrArg Record.accepted hfollowing, rfl, htree ▸ hbound⟩, ?_,
      exists_insert_ofRequests requests (signature, function) hne hnext⟩
    · exact fun hrefuse => absurd hrefuse.symm Bool.false_ne_true
    · exact fun hrefuse => absurd hrefuse.symm Bool.false_ne_true
    · rintro ⟨asked, hmem⟩
      exact absurd (hempty.starts_of_mem hmem hne) hstarts

/-- After an overload for two operands, one for the upper operand alone is refused when it is
requested again and leaves the three nodes as they are.  One for three operands is accepted
and gets three nodes more. -/
theorem insert_taken_unless_starts_longer :
    let requests : List Overload := [([.any, .exactly .integer], .mark), ([.any], .void)]
    let longer : Signature := [.any, .exactly .double, .any]
    ((Record.ofRequests (requests ++ [([.any], .void)])).tree.places ≤ 2 ^ 32 ∧
      ∃ arena, arena.nodes.size = 3 ∧ ofRequests 4 requests = pure arena ∧
        arena.insert 4 [.any] .void = pure (arena, false, [.overloadIsStart [.any]])) ∧
    (Record.ofRequests (requests ++ [(longer, .void)])).tree.places ≤ 2 ^ 32 ∧
      ∃ arena later, later.nodes.size = 6 ∧ ofRequests 7 requests = pure arena ∧
        arena.insert 7 longer .void = pure (later, true, []) := by
  intro requests longer
  have hfew : (Record.ofRequests (requests ++ [([.any], .void)])).tree.places = 3 := by decide
  have hmore : (Record.ofRequests (requests ++ [(longer, .void)])).tree.places = 6 := by decide
  have hfirst : (Record.ofRequests requests).accepted = [([.any, .exactly .integer], .mark)] :=
    rfl
  refine ⟨⟨by rw [hfew]; decide, ?_⟩, by rw [hmore]; decide, ?_⟩
  · obtain ⟨taken, events, -, -, hrefused, -, hasked, hnodes⟩ :=
      insert_taken_unless_starts requests .any [] .void
    obtain ⟨arena, later, -, hheld, hsame, hruns⟩ := hnodes (by rw [hfew]; decide)
    obtain rfl := hasked ⟨.void, by simp [requests]⟩
    obtain rfl := hsame rfl
    have hsize : later.nodes.size = 3 := hheld.size_eq.trans hfew
    obtain ⟨hmade, hanswer, -⟩ := hruns 4 (by rw [hsize]; decide)
    rw [(hrefused rfl).2] at hanswer
    exact ⟨later, hsize, hmade, hanswer⟩
  · obtain ⟨taken, events, -, hstarts, -, haccepted, -, hnodes⟩ :=
      insert_taken_unless_starts requests .any [.exactly .double, .any] .void
    obtain ⟨arena, later, -, hheld, -, hruns⟩ := hnodes (by rw [hmore]; decide)
    obtain rfl : taken = true := Bool.eq_true_of_not_eq_false fun hno => by
      simpa [hfirst] using hstarts.1 hno
    have hsize : later.nodes.size = 6 := hheld.size_eq.trans hmore
    obtain ⟨hmade, hanswer, -⟩ := hruns 7 (by rw [hsize]; decide)
    rw [(haccepted rfl).2.1] at hanswer
    exact ⟨arena, later, hsize, hmade, hanswer⟩

/-! ## What an arena answers -/

/-- The arena that requests make selects an answer, as long as its nodes can be numbered. -/
def Selects (requests : List Overload) (stack : TokenStack) (answer : Except Error Token) :
    Prop :=
  (Record.ofRequests requests).tree.places ≤ 2 ^ 32 → ∃ arena, ∀ rounds,
    arena.nodes.size < rounds →
      ofRequests rounds requests = pure arena ∧ arena.select rounds stack = pure answer

theorem selects_of_select {requests : List Overload} {stack : TokenStack}
    {answer : Except Error Token}
    (hselect : (Record.ofRequests requests).tree.select stack.operandTypes = answer) :
    Selects requests stack answer := by
  intro hfit
  obtain ⟨arena, hholds, harena⟩ := exists_ofRequests requests hfit
  refine ⟨arena, fun rounds hrounds => ⟨harena rounds (hholds.size_eq ▸ hrounds), ?_⟩⟩
  rw [(hholds.reads hrounds).1 stack, hselect]

/-- After any sequence of requests, selection is selection among the accepted overloads, in
the tree and, as long as its nodes can be numbered, in the arena.  A sequence that makes
another tree or arena accept the same overloads makes it select the same functions. -/
theorem select_ofRequests (requests : List Overload) (stack : TokenStack) :
    let accepted := (Record.ofRequests requests).accepted
    let answer := selectAmong stack.load 0 none accepted stack.operandTypes
    (Record.ofRequests requests).tree.select stack.operandTypes = answer ∧
      Selects requests stack answer ∧
      ∀ others : List Overload,
        (∀ overload, overload ∈ (Record.ofRequests others).accepted ↔ overload ∈ accepted) →
        (Record.ofRequests others).tree.select stack.operandTypes =
            (Record.ofRequests requests).tree.select stack.operandTypes ∧
          Selects others stack answer := by
  intro accepted answer
  have hown : (Record.ofRequests requests).tree.select stack.operandTypes = answer :=
    select_eq_selectAmong requests stack fun _ => Iff.rfl
  refine ⟨hown, selects_of_select hown, fun others hsame => ?_⟩
  have hother : (Record.ofRequests others).tree.select stack.operandTypes = answer :=
    select_eq_selectAmong others stack fun overload => (hsame overload).symm
  exact ⟨hother.trans hown.symm, selects_of_select hother⟩

/-- A wildcard that comes before a type and one that comes after it select alike. -/
theorem select_wildcard_first_or_last :
    let first : List Overload := [([.any], .void), ([.exactly .integer], .mark)]
    let last : List Overload := [([.exactly .integer], .mark), ([.any], .void)]
    let stack : TokenStack := TokenStack.empty.push (.integer 1)
    (∀ overload, overload ∈ (Record.ofRequests last).accepted ↔
        overload ∈ (Record.ofRequests first).accepted) ∧
      (Record.ofRequests last).tree.select stack.operandTypes =
        (Record.ofRequests first).tree.select stack.operandTypes ∧
      Selects first stack (.ok .mark) ∧ Selects last stack (.ok .mark) := by
  intro first last stack
  have hlast : (Record.ofRequests last).accepted = last := rfl
  have hfirst : (Record.ofRequests first).accepted = first := rfl
  have hsame : ∀ overload, overload ∈ (Record.ofRequests last).accepted ↔
      overload ∈ (Record.ofRequests first).accepted := by
    intro overload
    rw [hlast, hfirst]
    simp only [first, last, List.mem_cons, List.not_mem_nil, or_false]
    exact or_comm
  obtain ⟨-, hselects, hothers⟩ := select_ofRequests first stack
  obtain ⟨halike, hselected⟩ := hothers last hsame
  exact ⟨hsame, halike, hselects, hselected⟩

/-- After any sequence of requests for functions, the tree is listed as `Listing` says, and so
is the arena, as long as its nodes can be numbered. -/
theorem listings_ofRequests (requests : List Overload)
    (hfunctions : ∀ request ∈ requests, request.2.isA .function) :
    let record := Record.ofRequests requests
    ∃ listed, Listing record.tree record.accepted listed ∧
      (record.tree.places ≤ 2 ^ 32 → ∃ arena, ∀ rounds, arena.nodes.size < rounds →
        ofRequests rounds requests = pure arena ∧
        (∀ expand, arena.info rounds expand = pure (record.tree.info expand)) ∧
        arena.toArray rounds = pure record.tree.toArray) := by
  intro record
  refine ⟨_, listing_overloads requests hfunctions, fun hfit => ?_⟩
  obtain ⟨arena, hholds, harena⟩ := exists_ofRequests requests hfit
  exact ⟨arena, fun rounds hrounds =>
    ⟨harena rounds (hholds.size_eq ▸ hrounds), (hholds.reads hrounds).2⟩⟩

/-- Two types come after the wildcard, whose chain moves behind theirs; one signature is
refused, for it starts others. -/
theorem listings_ofRequests_moved :
    let requests : List Overload :=
      [([.any, .exactly .integer], .function "f" .pop), ([.any, .any], .function "g" .dup),
        ([.exactly .integer], .function "h" .exch), ([.any], .function "refused" .exec),
        ([.exactly .integer, .any], .function "i" .pop),
        ([.exactly .double], .function "j" .dup)]
    (∀ request ∈ requests, request.2.isA .function) ∧
      ∃ listed, readChain? [] (Record.ofRequests requests).tree.toArray = some listed ∧
        listed.map Prod.fst = [[.exactly .integer], [.exactly .integer, .any], [.exactly .double],
          [.any, .exactly .integer], [.any, .any]] ∧
        listed.Perm (Record.ofRequests requests).accepted ∧
        (listed.Pairwise fun above below => Precedes above.1 below.1) ∧
        ∃ arena rounds, ofRequests rounds requests = pure arena ∧
          arena.toArray rounds = pure (Record.ofRequests requests).tree.toArray := by
  intro requests
  have hfunctions : ∀ request ∈ requests, request.2.isA .function := by
    simp [requests, Token.function, Token.isA, Value.tag]
  obtain ⟨listed, hlisting, hreads⟩ := listings_ofRequests requests hfunctions
  have hsignatures : (readChain? [] (Record.ofRequests requests).tree.toArray).map
      (List.map Prod.fst) = some [[.exactly .integer], [.exactly .integer, .any],
        [.exactly .double], [.any, .exactly .integer], [.any, .any]] := rfl
  rw [hlisting.read] at hsignatures
  have hplaces : (Record.ofRequests requests).tree.places ≤ 2 ^ 32 := by decide
  obtain ⟨arena, hreads⟩ := hreads hplaces
  obtain ⟨hmade, -, harray⟩ := hreads (arena.nodes.size + 1) (Nat.lt_succ_self _)
  exact ⟨hfunctions, listed, hlisting.read, Option.some.inj hsignatures, hlisting.perm,
    hlisting.precedes, arena, _, hmade, harray⟩

end StackLang.OverloadArena
