import StackLang.Proofs.Control.ReadOnly
import StackLang.Proofs.Overload.Registered

/-!
# Operators on operands that fit

An operator that is reached through an overload table takes its operands as if it knew
their types, and it does: the signature that it was selected by fits them.  So none of its
operands is missing or of another type, and it does not fail, unless it is the one that
binds names and the name is bound read-only.
-/

namespace StackLang

variable {α β : Type}

/-- An operation does not fail, though it may fault, and what it leaves satisfies a
condition. -/
inductive Succeeds (post : α → Machine → Prop) : EStateM.Result Failure Machine α → Prop where
  | ok {value : α} {machine : Machine} (hpost : post value machine) :
    Succeeds post (.ok value machine)
  | fault {fault : Fault} {machine : Machine} : Succeeds post (.error (.fault fault) machine)

namespace Succeeds

variable {machine : Machine}

theorem bind {first : Operation α} {next : α → Operation β} {mid : α → Machine → Prop}
    {post : β → Machine → Prop} (hfirst : Succeeds mid (first machine))
    (hnext : ∀ value machine, mid value machine → Succeeds post (next value machine)) :
    Succeeds post ((first >>= next) machine) := by
  simp only [Bind.bind, EStateM.bind]
  generalize first machine = ended at hfirst
  cases hfirst with
  | ok hmid => exact hnext _ _ hmid
  | fault => exact .fault

/-- What an operation does with the machine that it reads. -/
theorem get {next : Machine → Operation β} {post : β → Machine → Prop}
    (hsucceeds : Succeeds post (next machine machine)) :
    Succeeds post ((MonadState.get >>= next) machine) :=
  hsucceeds

theorem discard {first : Operation α} {mid : α → Machine → Prop} {post : Machine → Prop}
    (hfirst : Succeeds mid (first machine))
    (hpost : ∀ value machine, mid value machine → post machine) :
    Succeeds (fun _ => post) ((Functor.discard first) machine) := by
  rw [Operation.discard_eq_bind]
  exact hfirst.bind fun value machine hmid => .ok (hpost value machine hmid)

end Succeeds

namespace Signature

variable {rest : Signature} {operands : List (Option TypeTag)}

theorem fits_any : Fits (.any :: rest) operands ↔
    ∃ tag below, operands = some tag :: below ∧ Fits rest below := by
  cases operands with
  | nil => simp [Fits]
  | cons operand below => cases operand <;> simp [Fits, TypeSlot.accepts]

theorem fits_exactly {tag : TypeTag} : Fits (.exactly tag :: rest) operands ↔
    ∃ below, operands = some tag :: below ∧ Fits rest below := by
  cases operands with
  | nil => simp [Fits]
  | cons operand below =>
    cases operand with
    | none => simp [Fits]
    | some own => simp [Fits, TypeSlot.accepts, @eq_comm _ own tag]

end Signature

/-- The signatures by which an operator of the language may be selected. -/
def Operator.signatures : Operator → List Signature
  | .pop | .dup | .exec => [[.any]]
  | .exch => [[.any, .any]]
  | .define => [[.any, .exactly .literal]]
  | .addIntegers | .subIntegers | .mulIntegers | .gtIntegers =>
    [[.exactly .integer, .exactly .integer]]
  | .addDoubles | .subDoubles | .mulDoubles | .gtDoubles =>
    [[.exactly .double, .exactly .double]]
  | .ifTrue => [[.exactly .procedure, .exactly .boolean]]
  | .loop => [[.exactly .procedure]]
  | .repetition => [[.exactly .procedure, .exactly .integer]]
  | .counting =>
    [[.exactly .procedure, .exactly .integer, .exactly .integer, .exactly .integer]]
  | .forAll | .forAllIndexed =>
    [[.exactly .procedure, .exactly .array], [.exactly .procedure, .exactly .string]]
  | .exit | .host _ => []

/-- An overload is registered under one of the signatures of its operator. -/
def Registration.listed : Registration → Bool
  | .plain _ _ => true
  | .typed _ signature operator => decide (signature ∈ operator.signatures)

theorem Operator.Takes.mem_signatures {operator : Operator} {signature : Signature}
    (htakes : operator.Takes Registration.standard signature) :
    signature ∈ operator.signatures := by
  have hall : Registration.standard.all Registration.listed = true := by decide
  obtain ⟨name, hmem⟩ := htakes
  simpa [Registration.listed] using List.all_eq_true.1 hall _ hmem

/-- Every token of a type can be read as a kind. -/
def Kind.Reads (kind : Kind) (tag : TypeTag) : Prop :=
  ∀ alive token, Token.tag? token = some tag → ∃ value, kind.ofToken alive token = .ok value

namespace Kind

theorem reads_integer : integer.Reads .integer := by
  intro alive token htag
  cases token with
  | void => cases htag
  | datum value attributes => cases value <;> cases htag; exact ⟨_, rfl⟩

theorem reads_double : double.Reads .double := by
  intro alive token htag
  cases token with
  | void => cases htag
  | datum value attributes => cases value <;> cases htag; exact ⟨_, rfl⟩

theorem reads_boolean : boolean.Reads .boolean := by
  intro alive token htag
  cases token with
  | void => cases htag
  | datum value attributes => cases value <;> cases htag; exact ⟨_, rfl⟩

theorem reads_procedure : procedure.Reads .procedure := by
  intro alive token htag
  cases token with
  | void => cases htag
  | datum value attributes => cases value <;> cases htag; exact ⟨_, rfl⟩

theorem reads_literal : name.Reads .literal := by
  intro alive token htag
  cases token with
  | void => cases htag
  | datum value attributes => cases value <;> cases htag; exact ⟨_, rfl⟩

end Kind

namespace Machine

variable {machine : Machine}

/-- The types of the operands from the top down. -/
def operandTypes (machine : Machine) : List (Option TypeTag) :=
  machine.operands.operandTypes

theorem exists_of_operandTypes {operand : Option TypeTag} {below : List (Option TypeTag)}
    (htypes : machine.operandTypes = operand :: below) :
    ∃ token rest, machine.operands.items = token :: rest ∧ token.tag? = operand ∧
      rest.map Token.tag? = below := by
  obtain ⟨token, rest, hitems, htag, hrest⟩ := List.map_eq_cons_iff.1 htypes
  exact ⟨token, rest, hitems, htag, hrest⟩

/-! ## Storage -/

theorem claim_succeeds (inHand : List Holding) :
    Succeeds (fun _ next => next.operands = machine.operands) (claim inHand machine) := by
  obtain ⟨next, hclaim, hnext⟩ | ⟨fault, hclaim, -⟩ := Restated.claim inHand machine
  · rw [hclaim]
    exact .ok hnext.operands
  · rw [hclaim]
    exact .fault

theorem pushNew_succeeds (token : Token) (inHand : List Holding) :
    Succeeds (fun _ _ => True) (pushNew token inHand machine) :=
  (claim_succeeds _).bind fun _ _ _ => .ok trivial

theorem scheduleNew_succeeds (token : Token) (inHand : List Holding) :
    Succeeds (fun _ _ => True) (scheduleNew token inHand machine) :=
  (claim_succeeds _).bind fun _ _ _ => .ok trivial

theorem openFrame_succeeds (primitive : Primitive) (parts : List Holding) :
    Succeeds (fun _ _ => True) (openFrame primitive parts machine) := by
  induction parts generalizing machine with
  | nil => exact (scheduleNew_succeeds _ _).bind fun _ _ _ => .ok trivial
  | cons part rest ih =>
    cases part with
    | token token => exact ih
    | value value => exact (scheduleNew_succeeds _ _).bind fun _ _ _ => ih

/-! ## Operands -/

theorem pop_succeeds {operand : Option TypeTag} {below : List (Option TypeTag)}
    (htypes : machine.operandTypes = operand :: below) :
    Succeeds (fun token next => token.tag? = operand ∧ next.operandTypes = below)
      (pop machine) := by
  obtain ⟨token, rest, hitems, htag, hrest⟩ := exists_of_operandTypes htypes
  rw [pop_eq, hitems]
  refine .ok ⟨htag, ?_⟩
  simpa [operandTypes, TokenStack.operandTypes, hitems] using hrest

theorem popAs_succeeds {kind : Kind} {tag : TypeTag} {below : List (Option TypeTag)}
    (hreads : kind.Reads tag) (htypes : machine.operandTypes = some tag :: below) :
    Succeeds (fun _ next => next.operandTypes = below) (popAs kind machine) := by
  obtain ⟨token, rest, hitems, htag, hrest⟩ := exists_of_operandTypes htypes
  obtain ⟨value, hvalue⟩ := hreads machine.isAlive token htag
  have htop : machine.operands.top = .ok token := by
    rw [TokenStack.top, TokenStack.pick, hitems]
    rfl
  apply Succeeds.get
  rw [htop]
  simp only [orFail, pure_bind, hvalue]
  refine (claim_succeeds _).bind fun _ next hclaimed => ?_
  have hnext : next.operandTypes = some tag :: below := by rw [operandTypes, hclaimed]; exact htypes
  exact ((pop_succeeds hnext).discard fun _ _ hpopped => hpopped.2).bind fun _ _ hdone => .ok hdone

/-! ## Operators -/

theorem binary_succeeds {kind : Kind} {tag : TypeTag} {below : List (Option TypeTag)}
    (hreads : kind.Reads tag) {f : kind.Carrier → kind.Carrier → Token}
    (htypes : machine.operandTypes = some tag :: some tag :: below) :
    Succeeds (fun _ _ => True) (binary kind f machine) :=
  (popAs_succeeds hreads htypes).bind fun _ _ hupper =>
    (popAs_succeeds hreads hupper).bind fun _ _ _ => pushNew_succeeds _ _

theorem openLoop_succeeds (body : Procedure) :
    Succeeds (fun _ _ => True) (openLoop body machine) := by
  unfold openLoop
  split
  · exact .ok trivial
  · exact openFrame_succeeds _ _

theorem runForAll_succeeds {indexed : Bool} {tag : TypeTag} {below : List (Option TypeTag)}
    (htag : tag = .array ∨ tag = .string)
    (htypes : machine.operandTypes = some .procedure :: some tag :: below) :
    Succeeds (fun _ _ => True) (runForAll indexed machine) := by
  refine (popAs_succeeds Kind.reads_procedure htypes).bind fun body next hbody => ?_
  refine (pop_succeeds hbody).bind fun object next ⟨hobject, _⟩ => ?_
  obtain ⟨count, primitive, helements⟩ :
      ∃ count primitive, elementsOf indexed object = some (count, primitive) := by
    cases object with
    | void => cases hobject
    | datum value attributes =>
      rcases htag with rfl | rfl <;> cases value <;> cases hobject <;> exact ⟨_, _, rfl⟩
  simp only [openForAll, helements]
  exact openFrame_succeeds _ _

/-- Binding a name fails only where the name is bound read-only. -/
theorem runDefine_cases {operand : Option TypeTag} {below : List (Option TypeTag)}
    (htypes : machine.operandTypes = operand :: some .literal :: below) :
    Succeeds (fun _ _ => True) (runDefine machine) ∨
      ∃ token named rest name bound next, machine.operands.items = token :: named :: rest ∧
        Kind.name.ofToken machine.isAlive named = .ok name ∧
        (machine.store.dictionary machine.scopes.top).peek? name = some bound ∧
        bound.isReadOnly ∧ runDefine machine = .error (.error (.readOnly name.text)) next := by
  obtain ⟨token, rest, hitems, -, hrest⟩ := exists_of_operandTypes htypes
  obtain ⟨named, last, rfl, htag, -⟩ := List.map_eq_cons_iff.1 hrest
  obtain ⟨name, hname⟩ := Kind.reads_literal machine.isAlive named htag
  rw [runDefine_eq hitems hname]
  cases hbound : (machine.store.dictionary machine.scopes.top).peek? name with
  | none =>
    left
    apply Succeeds.get
    simp only [hbound]
    exact .ok trivial
  | some bound =>
    by_cases hreadOnly : bound.isReadOnly = true
    · exact .inr ⟨token, named, last, name, bound, _, hitems, hname, hbound, hreadOnly,
        define_readOnly hbound hreadOnly⟩
    · left
      apply Succeeds.get
      simp only [hbound, hreadOnly]
      exact .ok trivial

/-- An operator of the language that was selected by a signature succeeds on operands that
the signature fits. -/
theorem runOperator_succeeds {operator : Operator} {signature : Signature}
    (hmem : signature ∈ operator.signatures) (hfits : signature.Fits machine.operandTypes)
    (hdefine : operator ≠ .define) :
    Succeeds (fun _ _ => True) (runOperator operator machine) := by
  cases operator with
  | pop =>
    obtain rfl := List.mem_singleton.1 hmem
    obtain ⟨tag, below, htypes, -⟩ := Signature.fits_any.1 hfits
    exact (pop_succeeds htypes).discard fun _ _ _ => trivial
  | dup =>
    obtain rfl := List.mem_singleton.1 hmem
    obtain ⟨tag, below, htypes, -⟩ := Signature.fits_any.1 hfits
    obtain ⟨token, rest, hitems, -⟩ := exists_of_operandTypes htypes
    apply Succeeds.get
    simp only [TokenStack.top, TokenStack.pick, hitems]
    exact pushNew_succeeds token []
  | exch =>
    obtain rfl := List.mem_singleton.1 hmem
    obtain ⟨tag, below, htypes, hbelow⟩ := Signature.fits_any.1 hfits
    obtain ⟨lower, last, rfl, -⟩ := Signature.fits_any.1 hbelow
    refine (pop_succeeds htypes).bind fun _ next hpopped => ?_
    exact (pop_succeeds hpopped.2).bind fun _ _ _ => .ok trivial
  | exec =>
    obtain rfl := List.mem_singleton.1 hmem
    obtain ⟨tag, below, htypes, -⟩ := Signature.fits_any.1 hfits
    exact (pop_succeeds htypes).bind fun _ _ _ => .ok trivial
  | define => exact absurd rfl hdefine
  | addIntegers | subIntegers | mulIntegers | gtIntegers =>
    obtain rfl := List.mem_singleton.1 hmem
    obtain ⟨below, htypes, hbelow⟩ := Signature.fits_exactly.1 hfits
    obtain ⟨last, rfl, -⟩ := Signature.fits_exactly.1 hbelow
    exact binary_succeeds Kind.reads_integer htypes
  | addDoubles | subDoubles | mulDoubles | gtDoubles =>
    obtain rfl := List.mem_singleton.1 hmem
    obtain ⟨below, htypes, hbelow⟩ := Signature.fits_exactly.1 hfits
    obtain ⟨last, rfl, -⟩ := Signature.fits_exactly.1 hbelow
    exact binary_succeeds Kind.reads_double htypes
  | ifTrue =>
    obtain rfl := List.mem_singleton.1 hmem
    obtain ⟨below, htypes, hbelow⟩ := Signature.fits_exactly.1 hfits
    obtain ⟨last, rfl, -⟩ := Signature.fits_exactly.1 hbelow
    refine (popAs_succeeds Kind.reads_procedure htypes).bind fun body next hnext => ?_
    refine (popAs_succeeds Kind.reads_boolean hnext).bind fun condition next _ => ?_
    cases condition with
    | false => exact .ok trivial
    | true => exact scheduleNew_succeeds _ _
  | loop =>
    obtain rfl := List.mem_singleton.1 hmem
    obtain ⟨below, htypes, -⟩ := Signature.fits_exactly.1 hfits
    exact (popAs_succeeds Kind.reads_procedure htypes).bind fun body _ _ => openLoop_succeeds body
  | repetition =>
    obtain rfl := List.mem_singleton.1 hmem
    obtain ⟨below, htypes, hbelow⟩ := Signature.fits_exactly.1 hfits
    obtain ⟨last, rfl, -⟩ := Signature.fits_exactly.1 hbelow
    refine (popAs_succeeds Kind.reads_procedure htypes).bind fun body next hnext => ?_
    exact (popAs_succeeds Kind.reads_integer hnext).bind fun _ _ _ => openFrame_succeeds _ _
  | counting =>
    obtain rfl := List.mem_singleton.1 hmem
    obtain ⟨below, htypes, hbelow⟩ := Signature.fits_exactly.1 hfits
    obtain ⟨second, rfl, hsecond⟩ := Signature.fits_exactly.1 hbelow
    obtain ⟨third, rfl, hthird⟩ := Signature.fits_exactly.1 hsecond
    obtain ⟨last, rfl, -⟩ := Signature.fits_exactly.1 hthird
    -- The operands are counted before the first one is taken.
    have hload : ¬ machine.operands.load < 4 := by
      rw [machine.operands.load_eq, ← List.length_map Token.tag?]
      simp [show machine.operands.items.map Token.tag? = _ from htypes]
    apply Succeeds.get
    simp only [TokenStack.require, hload, if_false, orFail, pure_bind]
    refine (popAs_succeeds Kind.reads_procedure htypes).bind fun body next hnext => ?_
    refine (popAs_succeeds Kind.reads_integer hnext).bind fun limit next hnext => ?_
    refine (popAs_succeeds Kind.reads_integer hnext).bind fun increment next hnext => ?_
    exact (popAs_succeeds Kind.reads_integer hnext).bind fun _ _ _ => openFrame_succeeds _ _
  | forAll | forAllIndexed =>
    simp only [Operator.signatures, List.mem_cons, List.not_mem_nil, or_false] at hmem
    rcases hmem with rfl | rfl
    · obtain ⟨below, htypes, hbelow⟩ := Signature.fits_exactly.1 hfits
      obtain ⟨last, rfl, -⟩ := Signature.fits_exactly.1 hbelow
      exact runForAll_succeeds (.inl rfl) htypes
    · obtain ⟨below, htypes, hbelow⟩ := Signature.fits_exactly.1 hfits
      obtain ⟨last, rfl, -⟩ := Signature.fits_exactly.1 hbelow
      exact runForAll_succeeds (.inr rfl) htypes
  | exit | host => cases hmem

end Machine

end StackLang
