import StackLang.Proofs.Overload.Bindings
import StackLang.Stack

/-!
# Longest matches

Several accepted signatures may fit the operands.  Selection prefers the longest
of those that it does not lose sight of: once a chain has a branch for the type
of an operand, it never looks behind the wildcard of that chain, so a signature
with the wildcard there is shadowed.  The longest signature that fits is
selected as long as it is not shadowed, and only then can selection be relied on
to find it.
-/

namespace StackLang

/-- Whether the operands, from the top down, are of the types that a signature
asks for.  There may be more operands than it asks for. -/
def Signature.Fits : Signature → List (Option TypeTag) → Prop
  | [], _ => True
  | _ :: _, [] => False
  | slot :: rest, operand :: below =>
    (∃ tag, operand = some tag ∧ slot.accepts tag) ∧ Signature.Fits rest below

namespace OverloadTree

/-- A signature is shadowed where it has the wildcard, and some bound signature
that begins alike has the type of the operand itself. -/
def Shadowed (bound : Signature → Prop) (operands : List (Option TypeTag))
    (signature : Signature) : Prop :=
  ∃ start rest tag more, signature = start ++ .any :: rest ∧
    operands[start.length]? = some (some tag) ∧ bound (start ++ .exactly tag :: more)

/-- The branch that selection takes for an operand: that of its own type, or else
that of the wildcard. -/
def Takes (tree : OverloadTree) (tag : TypeTag) (slot : TypeSlot) (next : OverloadTree) : Prop :=
  tree.child? slot = some next ∧
    (slot = .exactly tag ∨ slot = .any ∧ tree.child? (.exactly tag) = none)

/-- Selection passes over the end of a signature: in every chain on the way it
takes the branch of the signature. -/
def Passes : OverloadTree → List (Option TypeTag) → Signature → Prop
  | _, _, [] => True
  | _, [], _ :: _ => False
  | tree, operand :: below, slot :: rest =>
    ∃ tag next, operand = some tag ∧ tree.Takes tag slot next ∧ next.Passes below rest

/-- Whether a tree binds a signature. -/
def Binds (tree : OverloadTree) (signature : Signature) : Prop :=
  ∃ function, tree.bound? signature = some function

theorem not_shadowed_nil (bound : Signature → Prop) (operands : List (Option TypeTag)) :
    ¬ Shadowed bound operands [] := by
  rintro ⟨start, rest, tag, more, heq, -⟩
  simp at heq

/-- A signature is shadowed at its first slot or behind it. -/
theorem shadowed_cons {bound : Signature → Prop} {operand : Option TypeTag}
    {below : List (Option TypeTag)} {slot : TypeSlot} {rest : Signature} :
    Shadowed bound (operand :: below) (slot :: rest) ↔
      (slot = .any ∧ ∃ tag, operand = some tag ∧ ∃ more, bound (.exactly tag :: more)) ∨
        Shadowed (fun signature => bound (slot :: signature)) below rest := by
  constructor
  · rintro ⟨start, more, tag, longer, heq, hoperand, hbound⟩
    cases start with
    | nil =>
      obtain ⟨rfl, rfl⟩ : slot = .any ∧ rest = more := by simpa using heq
      exact .inl ⟨rfl, tag, by simpa using hoperand, longer, hbound⟩
    | cons first start =>
      obtain ⟨rfl, rfl⟩ : slot = first ∧ rest = start ++ .any :: more := by simpa using heq
      exact .inr ⟨start, more, tag, longer, rfl, by simpa using hoperand, hbound⟩
  · rintro (⟨rfl, tag, rfl, longer, hbound⟩ | ⟨start, more, tag, longer, rfl, hoperand, hbound⟩)
    · exact ⟨[], rest, tag, longer, rfl, rfl, hbound⟩
    · exact ⟨slot :: start, more, tag, longer, rfl, by simpa using hoperand, hbound⟩

theorem WellFormed.child?_eq_none_iff {tree : OverloadTree} (hwf : tree.WellFormed)
    (slot : TypeSlot) : tree.child? slot = none ↔ ∀ rest, ¬ tree.Binds (slot :: rest) := by
  constructor
  · rintro hchild rest ⟨function, hbound⟩
    simp [bound?, hchild] at hbound
  · intro hnone
    cases hchild : tree.child? slot with
    | none => rfl
    | some next =>
      obtain ⟨hwfNext, hne⟩ := hwf.of_child? hchild
      obtain ⟨rest, function, hbound⟩ := hwfNext.exists_bound hne
      exact absurd ⟨function, bound?_cons.2 ⟨next, hchild, hbound⟩⟩ (hnone rest)

/-- Selection passes over a bound signature exactly if the signature fits the
operands and is not shadowed. -/
theorem WellFormed.passes_iff {tree : OverloadTree} {operands : List (Option TypeTag)}
    {signature : Signature} (hwf : tree.WellFormed) (hbinds : tree.Binds signature) :
    tree.Passes operands signature ↔
      signature.Fits operands ∧ ¬ Shadowed tree.Binds operands signature := by
  induction signature generalizing tree operands with
  | nil => simp [Passes, Signature.Fits, not_shadowed_nil]
  | cons slot rest ih =>
    cases operands with
    | nil => simp [Passes, Signature.Fits]
    | cons operand below =>
      obtain ⟨function, hbound⟩ := hbinds
      obtain ⟨next, hchild, hnext⟩ := bound?_cons.1 hbound
      have hbelow : next.Passes below rest ↔
          Signature.Fits rest below ∧ ¬ Shadowed next.Binds below rest :=
        ih (hwf.of_child? hchild).1 ⟨function, hnext⟩
      have hbehind : (fun signature => tree.Binds (slot :: signature)) = next.Binds := by
        funext signature
        simp [Binds, bound?, hchild]
      rw [shadowed_cons, hbehind, Signature.Fits, Passes]
      cases operand with
      | none => simp
      | some tag =>
        cases slot with
        | exactly own => simp [Takes, hchild, hbelow, TypeSlot.accepts, and_assoc]
        | any =>
          -- The wildcard is followed only where nothing is bound behind the operand's own type,
          -- which is what shadowing says of the first slot.
          have hfree : tree.child? (.exactly tag) = none ↔
              ¬ ∃ longer, tree.Binds (.exactly tag :: longer) := by
            rw [hwf.child?_eq_none_iff, not_exists]
          have htakes : (∃ own other, some tag = some own ∧ tree.Takes own .any other ∧
              other.Passes below rest) ↔
              tree.child? (.exactly tag) = none ∧ next.Passes below rest := by
            simp [Takes, hchild, and_assoc]
          have hfits : (∃ own, some tag = some own ∧ TypeSlot.any.accepts own) := by
            simp [TypeSlot.accepts]
          have hshadowed : (TypeSlot.any = .any ∧ ∃ own, some tag = some own ∧
              ∃ longer, tree.Binds (.exactly own :: longer)) ↔
              ∃ longer, tree.Binds (.exactly tag :: longer) := by
            simp
          rw [htakes, hshadowed, hfree, hbelow, not_or]
          constructor
          · rintro ⟨hnone, hrest, hvisible⟩
            exact ⟨⟨hfits, hrest⟩, hnone, hvisible⟩
          · rintro ⟨⟨-, hrest⟩, hnone, hvisible⟩
            exact ⟨hnone, hrest, hvisible⟩

theorem Takes.unique {tree next other : OverloadTree} {tag : TypeTag} {slot first : TypeSlot}
    (hslot : tree.Takes tag slot next) (hfirst : tree.Takes tag first other) :
    slot = first ∧ next = other := by
  obtain ⟨hchild, hslot⟩ := hslot
  obtain ⟨hother, hfirst⟩ := hfirst
  have hsame : slot = first := by
    obtain rfl | ⟨rfl, hnone⟩ := hslot
    · obtain rfl | ⟨-, hnone⟩ := hfirst
      · rfl
      · simp [hnone] at hchild
    · obtain rfl | ⟨rfl, -⟩ := hfirst
      · simp [hnone] at hother
      · rfl
  subst hsame
  exact ⟨rfl, by simpa [hchild] using hother⟩

theorem WellFormed.takes_of_follow? {tree next : OverloadTree} {tag : TypeTag}
    (hwf : tree.WellFormed) (hfollow : tree.follow? tag = some next) :
    ∃ slot, tree.Takes tag slot next := by
  rw [hwf.follow?_eq, Option.or_eq_some_iff] at hfollow
  obtain hown | ⟨hnone, hany⟩ := hfollow
  · exact ⟨_, hown, .inl rfl⟩
  · exact ⟨_, hany, .inr ⟨rfl, hnone⟩⟩

theorem WellFormed.not_takes_of_follow? {tree next : OverloadTree} {tag : TypeTag}
    {slot : TypeSlot} (hwf : tree.WellFormed) (hfollow : tree.follow? tag = none) :
    ¬ tree.Takes tag slot next := by
  rintro ⟨hchild, hslot⟩
  rw [hwf.follow?_eq, Option.or_eq_none_iff] at hfollow
  obtain rfl | ⟨rfl, -⟩ := hslot
  · simp [hfollow.1] at hchild
  · simp [hfollow.2] at hchild

/-- Selection passes over one signature of each length. -/
theorem Passes.eq_of_length_eq {tree : OverloadTree} {operands : List (Option TypeTag)}
    {signature other : Signature} (hpasses : tree.Passes operands signature)
    (hother : tree.Passes operands other) (hlength : signature.length = other.length) :
    signature = other := by
  induction signature generalizing tree operands other with
  | nil => exact (List.eq_nil_of_length_eq_zero hlength.symm).symm
  | cons slot rest ih =>
    cases other with
    | nil => simp at hlength
    | cons first below =>
      cases operands with
      | nil => exact hpasses.elim
      | cons operand deeper =>
        obtain ⟨tag, next, rfl, htakes, hrest⟩ := hpasses
        obtain ⟨tag', next', htag, htakes', hbelow⟩ := hother
        obtain rfl : tag = tag' := by simpa using htag
        obtain ⟨rfl, rfl⟩ := htakes.unique htakes'
        rw [ih hrest hbelow (by simpa using hlength)]

/-- What selection from a chain comes to, given what it would fall back on: the
function of the longest bound signature that it passes over, if there is one. -/
def Outcome (tree : OverloadTree) (fallback : Option Token) (operands : List (Option TypeTag))
    (answer : Except Error Token) : Prop :=
  (∃ signature function, tree.bound? signature = some function ∧
      tree.Passes operands signature ∧
      (∀ other, tree.Binds other → tree.Passes operands other →
        other.length ≤ signature.length) ∧
      answer = .ok function) ∨
    (∀ other, tree.Binds other → ¬ tree.Passes operands other) ∧
      ∀ function, answer = .ok function ↔ fallback = some function

/-- Selection that passes over nothing behind a chain answers with what is bound
at the chain, or else with what it would fall back on. -/
theorem outcome_of_stop {tree : OverloadTree} {fallback : Option Token}
    {operands : List (Option TypeTag)} {answer : Except Error Token}
    (hanswer : ∀ function, answer = .ok function ↔ tree.head?.or fallback = some function)
    (hstop : ∀ slot rest, tree.Binds (slot :: rest) →
      ¬ tree.Passes operands (slot :: rest)) :
    tree.Outcome fallback operands answer := by
  cases hhead : tree.head? with
  | some function =>
    refine .inl ⟨[], function, hhead, by simp [Passes], ?_, by simp [hanswer, hhead]⟩
    rintro (- | ⟨slot, rest⟩) hbinds hpasses
    · simp
    · exact absurd hpasses (hstop slot rest hbinds)
  | none =>
    refine .inr ⟨?_, by simp [hanswer, hhead]⟩
    rintro (- | ⟨slot, rest⟩) hbinds
    · simp [Binds, hhead] at hbinds
    · exact hstop slot rest hbinds

/-- Selection answers with the function of the longest bound signature that it
passes over. -/
theorem WellFormed.outcome_selectFrom {tree : OverloadTree} (hwf : tree.WellFormed)
    (level : Nat) (fallback : Option Token) (operands : List (Option TypeTag)) :
    tree.Outcome fallback operands (tree.selectFrom level fallback operands) := by
  induction operands generalizing tree level fallback with
  | nil =>
    refine outcome_of_stop (fun function => ?_) fun _ _ _ hpasses => hpasses
    rw [selectFrom]
    cases tree.head?.or fallback <;> simp
  | cons operand below ih =>
    rw [selectFrom]
    cases hfollow : operand.bind fun tag => tree.follow? tag with
    | none =>
      refine outcome_of_stop (fun function => ?_) ?_
      · cases tree.head?.or fallback <;> simp
      · rintro slot rest - ⟨tag, next, rfl, htakes, -⟩
        exact hwf.not_takes_of_follow? hfollow htakes
    | some next =>
      obtain ⟨tag, rfl, hfollow⟩ := Option.bind_eq_some_iff.1 hfollow
      obtain ⟨slot, htakes⟩ := hwf.takes_of_follow? hfollow
      -- Passing over a signature is passing over the rest of it behind the one branch that fits.
      have hbehind : ∀ first rest, tree.Binds (first :: rest) →
          tree.Passes (some tag :: below) (first :: rest) →
          next.Binds rest ∧ next.Passes below rest := by
        rintro first rest ⟨function, hbound⟩ ⟨tag', other, htag, hfirst, hrest⟩
        obtain rfl : tag = tag' := by simpa using htag
        obtain ⟨rfl, rfl⟩ := htakes.unique hfirst
        obtain ⟨next', hchild, hbound⟩ := bound?_cons.1 hbound
        obtain rfl : next = next' := by simpa [htakes.1] using hchild
        exact ⟨⟨function, hbound⟩, hrest⟩
      obtain ⟨rest, function, hbound, hpasses, hlongest, hanswer⟩ | ⟨hnone, hanswer⟩ :=
        ih (hwf.of_child? htakes.1).1 (level + 1) (tree.head?.or fallback)
      · refine .inl ⟨slot :: rest, function, bound?_cons.2 ⟨next, htakes.1, hbound⟩,
          ⟨tag, next, rfl, htakes, hpasses⟩, ?_, hanswer⟩
        rintro (- | ⟨first, rest'⟩) hbinds hover
        · simp
        · obtain ⟨hbinds, hrest⟩ := hbehind first rest' hbinds hover
          simpa using hlongest rest' hbinds hrest
      · refine outcome_of_stop hanswer fun first rest hbinds hover => ?_
        obtain ⟨hbinds, hrest⟩ := hbehind first rest hbinds hover
        exact hnone rest hbinds hrest

/-! ## The accepted overloads -/

/-- Whether a signature is that of an accepted overload. -/
def Accepted (accepted : List Overload) (signature : Signature) : Prop :=
  ∃ function, (signature, function) ∈ accepted

/-- A longest accepted overload among those that fit the operands. -/
structure LongestFit (accepted : List Overload) (operands : List (Option TypeTag))
    (overload : Overload) : Prop where
  mem : overload ∈ accepted
  fits : overload.1.Fits operands
  longest : ∀ other ∈ accepted, other.1.Fits operands → other.1.length ≤ overload.1.length

/-- A longest accepted overload among those that fit the operands and that no
other accepted overload shadows. -/
structure Preferred (accepted : List Overload) (operands : List (Option TypeTag))
    (overload : Overload) : Prop where
  mem : overload ∈ accepted
  fits : overload.1.Fits operands
  visible : ¬ Shadowed (Accepted accepted) operands overload.1
  longest : ∀ other ∈ accepted, other.1.Fits operands →
    ¬ Shadowed (Accepted accepted) operands other.1 → other.1.length ≤ overload.1.length

/-- The rule that the longest match wins: if an accepted overload fits, the answer
is the function of a longest one that does. -/
def LongestWins (accepted : List Overload) (operands : List (Option TypeTag))
    (answer : Except Error Token) : Prop :=
  (∃ overload ∈ accepted, overload.1.Fits operands) →
    ∃ longest, LongestFit accepted operands longest ∧ answer = .ok longest.2

/-- A longest fit that is not shadowed is preferred. -/
theorem LongestFit.preferred {accepted : List Overload} {operands : List (Option TypeTag)}
    {overload : Overload} (hlongest : LongestFit accepted operands overload)
    (hvisible : ¬ Shadowed (Accepted accepted) operands overload.1) :
    Preferred accepted operands overload :=
  ⟨hlongest.mem, hlongest.fits, hvisible, fun other hmem hfits _ =>
    hlongest.longest other hmem hfits⟩

theorem Record.Faithful.binds_eq {record : Record} (hfaithful : record.Faithful) :
    record.tree.Binds = Accepted record.accepted := by
  funext signature
  simp [Binds, Accepted, hfaithful.mem_accepted_iff]

/-- Selection passes over an accepted overload exactly if it fits and is not shadowed. -/
theorem Record.Faithful.passes_iff {record : Record} (hfaithful : record.Faithful)
    {overload : Overload} (hmem : overload ∈ record.accepted)
    (operands : List (Option TypeTag)) :
    record.tree.Passes operands overload.1 ↔
      overload.1.Fits operands ∧ ¬ Shadowed (Accepted record.accepted) operands overload.1 := by
  rw [← hfaithful.binds_eq]
  exact hfaithful.wellFormed.passes_iff
    ⟨overload.2, (hfaithful.mem_accepted_iff _ _).1 hmem⟩

/-- At most one overload is preferred. -/
theorem Record.Faithful.preferred_unique {record : Record} (hfaithful : record.Faithful)
    {operands : List (Option TypeTag)} {overload other : Overload}
    (hpreferred : Preferred record.accepted operands overload)
    (hother : Preferred record.accepted operands other) : overload = other := by
  have hlength : overload.1.length = other.1.length :=
    Nat.le_antisymm (hother.longest _ hpreferred.mem hpreferred.fits hpreferred.visible)
      (hpreferred.longest _ hother.mem hother.fits hother.visible)
  have hpasses := (hfaithful.passes_iff hpreferred.mem operands).2
    ⟨hpreferred.fits, hpreferred.visible⟩
  have hpasses' := (hfaithful.passes_iff hother.mem operands).2 ⟨hother.fits, hother.visible⟩
  have hsignature := hpasses.eq_of_length_eq hpasses' hlength
  have hbound := (hfaithful.mem_accepted_iff _ _).1 hpreferred.mem
  have hbound' := (hfaithful.mem_accepted_iff _ _).1 hother.mem
  rw [hsignature, hbound', Option.some.injEq] at hbound
  exact Prod.ext hsignature hbound.symm

/-- Selection answers with the function of the preferred overload, and fails if
there is none. -/
theorem Record.Faithful.select_cases {record : Record} (hfaithful : record.Faithful)
    (operands : List (Option TypeTag)) :
    (∃ overload, Preferred record.accepted operands overload ∧
        record.tree.select operands = .ok overload.2) ∨
      (∀ overload ∈ record.accepted, overload.1.Fits operands →
        Shadowed (Accepted record.accepted) operands overload.1) ∧
        ∃ error, record.tree.select operands = .error error := by
  obtain ⟨signature, function, hbound, hpasses, hlongest, hanswer⟩ | ⟨hnone, hanswer⟩ :=
    hfaithful.wellFormed.outcome_selectFrom 0 none operands
  · have hmem := (hfaithful.mem_accepted_iff signature function).2 hbound
    obtain ⟨hfits, hvisible⟩ := (hfaithful.passes_iff hmem operands).1 hpasses
    refine .inl ⟨(signature, function), ⟨hmem, hfits, hvisible, ?_⟩, hanswer⟩
    intro other hother hfits' hvisible'
    exact hlongest other.1 ⟨other.2, (hfaithful.mem_accepted_iff _ _).1 hother⟩
      ((hfaithful.passes_iff hother operands).2 ⟨hfits', hvisible'⟩)
  · refine .inr ⟨fun overload hmem hfits => ?_, ?_⟩
    · refine Classical.byContradiction fun hvisible => ?_
      exact hnone overload.1 ⟨overload.2, (hfaithful.mem_accepted_iff _ _).1 hmem⟩
        ((hfaithful.passes_iff hmem operands).2 ⟨hfits, hvisible⟩)
    · cases hselect : record.tree.select operands with
      | error error => exact ⟨error, rfl⟩
      | ok function => simpa using (hanswer function).1 hselect

/-- After any sequence of requests, selection finds the longest fitting overload
among those that are not shadowed, and fails exactly if every fitting one is.
So the longest match wins as long as it is not shadowed; in general it wins
exactly if the preferred overload has the function of a longest fit. -/
theorem select_ofRequests_preferred (requests : List Overload) (stack : TokenStack) :
    let accepted := (Record.ofRequests requests).accepted
    let operands := stack.operandTypes
    let answer := (Record.ofRequests requests).tree.select operands
    (∀ function, answer = .ok function ↔
        ∃ overload, Preferred accepted operands overload ∧ overload.2 = function) ∧
      ((∃ error, answer = .error error) ↔
        ∀ overload ∈ accepted, overload.1.Fits operands →
          Shadowed (Accepted accepted) operands overload.1) ∧
      (∀ longest, LongestFit accepted operands longest →
        ¬ Shadowed (Accepted accepted) operands longest.1 → answer = .ok longest.2) ∧
      (LongestWins accepted operands answer ↔
        ((∃ overload ∈ accepted, overload.1.Fits operands) →
          ∃ longest preferred, LongestFit accepted operands longest ∧
            Preferred accepted operands preferred ∧ preferred.2 = longest.2)) := by
  intro accepted operands answer
  have hfaithful := Record.faithful_ofRequests requests
  have hcases := hfaithful.select_cases operands
  have hok : ∀ function, answer = .ok function ↔
      ∃ overload, Preferred accepted operands overload ∧ overload.2 = function := by
    intro function
    obtain ⟨overload, hpreferred, hanswer⟩ | ⟨hshadowed, error, hanswer⟩ := hcases
    · constructor
      · intro hfunction
        exact ⟨overload, hpreferred, Except.ok.inj (hanswer.symm.trans hfunction)⟩
      · rintro ⟨other, hother, rfl⟩
        rw [hfaithful.preferred_unique hother hpreferred]
        exact hanswer
    · constructor
      · intro hfunction
        cases hanswer.symm.trans hfunction
      · rintro ⟨other, hother, -⟩
        exact absurd (hshadowed other hother.mem hother.fits) hother.visible
  refine ⟨hok, ?_, fun longest hlongest hvisible => ?_, ?_⟩
  · obtain ⟨overload, hpreferred, hanswer⟩ | ⟨hshadowed, error, hanswer⟩ := hcases
    · constructor
      · rintro ⟨error, herror⟩
        cases hanswer.symm.trans herror
      · intro hshadowed
        exact absurd (hshadowed overload hpreferred.mem hpreferred.fits) hpreferred.visible
    · exact ⟨fun _ => hshadowed, fun _ => ⟨error, hanswer⟩⟩
  · exact (hok longest.2).2 ⟨longest, hlongest.preferred hvisible, rfl⟩
  · constructor
    · intro hwins hfits
      obtain ⟨longest, hlongest, hanswer⟩ := hwins hfits
      obtain ⟨preferred, hpreferred, hfunction⟩ := (hok longest.2).1 hanswer
      exact ⟨longest, preferred, hlongest, hpreferred, hfunction⟩
    · intro hagree hfits
      obtain ⟨longest, preferred, hlongest, hpreferred, hfunction⟩ := hagree hfits
      exact ⟨longest, hlongest, (hok longest.2).2 ⟨preferred, hpreferred, hfunction⟩⟩

/-- A wildcard on top of an integer fits two integers, but selection commits to
the overload that asks for a double behind the first integer, and fails. -/
theorem select_misses_fitting_wildcard :
    ¬ ∀ (requests : List Overload) (stack : TokenStack),
      LongestWins (Record.ofRequests requests).accepted stack.operandTypes
        ((Record.ofRequests requests).tree.select stack.operandTypes) := by
  intro hwins
  have hmissed := hwins
    [([.exactly .integer, .exactly .double], .mark), ([.any, .exactly .integer], .void)]
    ((TokenStack.empty.push (.integer 1)).push (.integer 2))
  obtain ⟨longest, -, hanswer⟩ := hmissed
    ⟨([.any, .exactly .integer], .void), List.mem_cons_of_mem _ (List.mem_singleton_self _),
      ⟨_, rfl, rfl⟩, ⟨_, rfl, rfl⟩, trivial⟩
  cases hanswer

end OverloadTree

end StackLang
