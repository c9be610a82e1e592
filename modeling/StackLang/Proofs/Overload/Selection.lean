import StackLang.Proofs.Overload.Bindings
import StackLang.Stack

/-!
# Selection from the accepted overloads

What a tree selects depends on the overloads that it accepted and on nothing
else: neither their order nor the way the chains were rearranged shows.  The
rule is stated here on the accepted overloads alone.  Level by level it narrows
a list of candidates by the type of the operand, and the function of the last
candidate that ended on the way is what it falls back on.
-/

namespace StackLang.OverloadTree

/-- The function to fall back on from a level on: that of a candidate that ends
there, or else the one known so far. -/
def fallbackAt (level : Nat) (candidates : List Overload) (fallback : Option Token) :
    Option Token :=
  ((candidates.find? fun overload => overload.1.length == level).map Prod.snd).or fallback

/-- The candidates that have a slot at a level. -/
def having (level : Nat) (slot : TypeSlot) (candidates : List Overload) : List Overload :=
  candidates.filter fun overload => overload.1[level]? == some slot

/-- The candidates that an operand leaves: those with its own type, or else those
with the wildcard.  A void operand leaves none. -/
def narrow (level : Nat) (candidates : List Overload) : Option TypeTag → List Overload
  | none => []
  | some tag =>
    match having level (.exactly tag) candidates with
    | [] => having level .any candidates
    | overload :: rest => overload :: rest

/-- The answer when selection cannot go deeper. -/
def settle (error : Error) : Option Token → Except Error Token
  | some function => .ok function
  | none => .error error

/-- Selects among candidates from a level on; `load` is the number of all
operands and `fallback` the function known so far. -/
def selectAmong (load level : Nat) (fallback : Option Token) (candidates : List Overload) :
    List (Option TypeTag) → Except Error Token
  | [] =>
    settle (.stackUnderflow (level + 1) load) (fallbackAt level candidates fallback)
  | operand :: below =>
    match narrow level candidates operand with
    | [] => settle (.argumentType level) (fallbackAt level candidates fallback)
    | overload :: rest =>
      selectAmong load (level + 1) (fallbackAt level candidates fallback)
        (overload :: rest) below

/-- The candidates at the level that `path` leads to are the accepted overloads
that begin with `path`, and the chain there binds what is left of them. -/
def Remaining (path : Signature) (tree : OverloadTree) (candidates : List Overload) : Prop :=
  ∀ signature function, (signature, function) ∈ candidates ↔
    ∃ rest, signature = path ++ rest ∧ tree.bound? rest = some function

theorem Remaining.fallbackAt_eq {path : Signature} {tree : OverloadTree}
    {candidates : List Overload} (hremaining : Remaining path tree candidates)
    (fallback : Option Token) :
    fallbackAt path.length candidates fallback = tree.head?.or fallback := by
  unfold fallbackAt
  congr 1
  cases hfind : candidates.find? fun overload => overload.1.length == path.length with
  | none =>
    cases hhead : tree.head? with
    | none => rfl
    | some function =>
      have hmem : (path, function) ∈ candidates :=
        (hremaining path function).2 ⟨[], by simp, hhead⟩
      simpa using List.find?_eq_none.1 hfind _ hmem
  | some overload =>
    have hlength : overload.1.length = path.length := by
      simpa using List.find?_some hfind
    obtain ⟨rest, hsignature, hbound⟩ :=
      (hremaining overload.1 overload.2).1 (List.mem_of_find?_eq_some hfind)
    obtain rfl : rest = [] := by
      rw [hsignature, List.length_append] at hlength
      exact List.eq_nil_of_length_eq_zero (by omega)
    simpa using hbound.symm

theorem mem_having {level : Nat} {slot : TypeSlot} {candidates : List Overload}
    {overload : Overload} :
    overload ∈ having level slot candidates ↔
      overload ∈ candidates ∧ overload.1[level]? = some slot := by
  simp [having]

/-- Behind the branch for a slot remain the candidates that have the slot. -/
theorem Remaining.having {path : Signature} {tree next : OverloadTree}
    {candidates : List Overload} {slot : TypeSlot}
    (hremaining : Remaining path tree candidates) (hchild : tree.child? slot = some next) :
    Remaining (path ++ [slot]) next (having path.length slot candidates) := by
  intro signature function
  rw [mem_having, hremaining]
  constructor
  · rintro ⟨⟨rest, rfl, hbound⟩, hslot⟩
    cases rest with
    | nil => simp at hslot
    | cons first below =>
      obtain rfl : first = slot := by simpa using hslot
      obtain ⟨other, hother, hbelow⟩ := bound?_cons.1 hbound
      obtain rfl : other = next := by simpa [hother] using hchild
      exact ⟨below, by simp, hbelow⟩
  · rintro ⟨below, rfl, hbelow⟩
    exact ⟨⟨slot :: below, by simp, bound?_cons.2 ⟨next, hchild, hbelow⟩⟩, by simp⟩

/-- No candidate has a slot that the chain has no branch for. -/
theorem Remaining.having_eq_nil {path : Signature} {tree : OverloadTree}
    {candidates : List Overload} {slot : TypeSlot}
    (hremaining : Remaining path tree candidates) (hchild : tree.child? slot = none) :
    OverloadTree.having path.length slot candidates = [] := by
  apply List.eq_nil_iff_forall_not_mem.2
  rintro ⟨signature, function⟩ hmem
  obtain ⟨hcandidate, hslot⟩ := mem_having.1 hmem
  obtain ⟨rest, rfl, hbound⟩ := (hremaining signature function).1 hcandidate
  cases rest with
  | nil => simp at hslot
  | cons first below =>
    obtain rfl : first = slot := by simpa using hslot
    simp [bound?, hchild] at hbound

theorem Remaining.ne_nil {path : Signature} {tree : OverloadTree}
    {candidates : List Overload} (hremaining : Remaining path tree candidates)
    (hwf : tree.WellFormed) (hne : tree ≠ empty) : candidates ≠ [] := by
  rintro rfl
  obtain ⟨rest, function, hbound⟩ := hwf.exists_bound hne
  simpa using (hremaining (path ++ rest) function).2 ⟨rest, rfl, hbound⟩

/-- An operand whose type or whose stand-in, the wildcard, has a branch leaves
the candidates behind the branch that selection follows. -/
theorem Remaining.narrow {path : Signature} {tree next : OverloadTree}
    {candidates : List Overload} {tag : TypeTag}
    (hremaining : Remaining path tree candidates) (hwf : tree.WellFormed)
    (hfollow : tree.follow? tag = some next) :
    ∃ slot, Remaining (path ++ [slot]) next
      (OverloadTree.narrow path.length candidates (some tag)) := by
  rw [hwf.follow?_eq] at hfollow
  cases hown : tree.child? (.exactly tag) with
  | some own =>
    obtain rfl : own = next := by simpa [hown] using hfollow
    obtain ⟨hwfOwn, hne⟩ := hwf.of_child? hown
    have hkept := hremaining.having hown
    refine ⟨.exactly tag, ?_⟩
    rw [OverloadTree.narrow]
    cases hlist : OverloadTree.having path.length (.exactly tag) candidates with
    | nil => exact absurd hlist (hkept.ne_nil hwfOwn hne)
    | cons overload rest =>
      rw [hlist] at hkept
      exact hkept
  | none =>
    have hany : tree.child? .any = some next := by simpa [hown] using hfollow
    refine ⟨.any, ?_⟩
    rw [OverloadTree.narrow, hremaining.having_eq_nil hown]
    exact hremaining.having hany

/-- An operand without a branch leaves nothing. -/
theorem Remaining.narrow_eq_nil {path : Signature} {tree : OverloadTree}
    {candidates : List Overload} {tag : TypeTag}
    (hremaining : Remaining path tree candidates) (hwf : tree.WellFormed)
    (hfollow : tree.follow? tag = none) :
    OverloadTree.narrow path.length candidates (some tag) = [] := by
  rw [hwf.follow?_eq, Option.or_eq_none_iff] at hfollow
  rw [OverloadTree.narrow, hremaining.having_eq_nil hfollow.1]
  exact hremaining.having_eq_nil hfollow.2

/-- Selection from a chain is selection among the candidates that remain. -/
theorem Remaining.selectFrom_eq {path : Signature} {tree : OverloadTree}
    {candidates : List Overload} (hremaining : Remaining path tree candidates)
    (hwf : tree.WellFormed) (fallback : Option Token) (operands : List (Option TypeTag)) :
    tree.selectFrom path.length fallback operands =
      selectAmong (path.length + operands.length) path.length fallback candidates operands := by
  induction operands generalizing path tree candidates fallback with
  | nil =>
    rw [selectFrom, selectAmong, hremaining.fallbackAt_eq]
    cases tree.head?.or fallback <;> rfl
  | cons operand below ih =>
    rw [selectFrom, selectAmong, hremaining.fallbackAt_eq]
    cases operand with
    | none =>
      rw [OverloadTree.narrow]
      cases tree.head?.or fallback <;> rfl
    | some tag =>
      cases hfollow : tree.follow? tag with
      | none =>
        rw [hremaining.narrow_eq_nil hwf hfollow]
        cases tree.head?.or fallback <;> simp [hfollow, settle]
      | some next =>
        have hbehind := hwf.of_follow? hfollow
        -- The branch that is followed leads to just the candidates that are kept.
        obtain ⟨slot, hnext⟩ := hremaining.narrow hwf hfollow
        have hdeeper := ih hnext hbehind.1 (tree.head?.or fallback)
        cases hnarrow : OverloadTree.narrow path.length candidates (some tag) with
        | nil => exact absurd hnarrow (hnext.ne_nil hbehind.1 hbehind.2)
        | cons overload rest =>
          rw [hnarrow] at hdeeper
          simp only [Option.bind_some, hfollow]
          rw [List.length_append, List.length_singleton] at hdeeper
          rw [hdeeper]
          congr 1
          simp
          omega

/-- Before the first operand every accepted overload is a candidate. -/
theorem Record.Faithful.remaining {record : Record} (hfaithful : record.Faithful)
    {candidates : List Overload}
    (hsame : ∀ overload, overload ∈ candidates ↔ overload ∈ record.accepted) :
    Remaining [] record.tree candidates := by
  intro signature function
  rw [hsame, hfaithful.mem_accepted_iff]
  simp

/-- After any sequence of requests, selection is selection among the accepted overloads, in
any order. -/
theorem select_eq_selectAmong (requests : List Overload) (stack : TokenStack)
    {candidates : List Overload}
    (hsame : ∀ overload, overload ∈ candidates ↔
      overload ∈ (Record.ofRequests requests).accepted) :
    (Record.ofRequests requests).tree.select stack.operandTypes =
      selectAmong stack.load 0 none candidates stack.operandTypes := by
  have hfaithful := Record.faithful_ofRequests requests
  have hload : ([] : Signature).length + stack.operandTypes.length = stack.load := by
    simp [TokenStack.operandTypes, stack.load_eq]
  rw [← hload]
  exact (hfaithful.remaining hsame).selectFrom_eq hfaithful.wellFormed none stack.operandTypes

end StackLang.OverloadTree
