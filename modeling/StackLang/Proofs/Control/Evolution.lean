import StackLang.Proofs.Control.Steps
import StackLang.Proofs.Ownership.Writes
import StackLang.Proofs.Store.Bindings

/-!
# What a step can change

Whatever is on the stacks, also frames out of order, a step of the language changes the
dictionaries through one guarded write alone, it brings no operator into play that was
nowhere before, it sets no callback, and it does not change when frames are eliminated.  All
this is kept by every operation, whether it succeeds or fails, so one walk over the
operations shows it together.
-/

namespace StackLang

/-! ## The operators among data -/

/-- Whether an operator is one of the language. -/
def Operator.inLanguage : Operator → Bool
  | .host _ => false
  | _ => true

theorem Operator.not_host_of_inLanguage {operator : Operator} (hlanguage : operator.inLanguage)
    (own : Name) : operator ≠ .host own := by
  rintro rfl
  cases hlanguage

/-- Which operators and which overload tables there may be among data. -/
structure Callable where
  operator : Operator → Bool
  table : TableId → Bool := fun _ => true

/-- The operators of the language and all tables. -/
def Callable.language : Callable where
  operator := Operator.inLanguage

variable {allowed : Callable} {α β : Type}

/-- Whether a value is no operator or overload table but an allowed one; what is inside it
does not matter. -/
def Value.callsOnly (allowed : Callable) : Value → Bool
  | .function _ operator => allowed.operator operator
  | .table _ id => allowed.table id
  | _ => true

/-- The operators and overload tables inside the token are allowed ones. -/
def Token.CallsOnly (allowed : Callable) (token : Token) : Prop :=
  token.every (Value.callsOnly allowed)

instance (token : Token) : Decidable (token.CallsOnly allowed) :=
  inferInstanceAs (Decidable (_ = true))

namespace Token

theorem callsOnly_integer (n : Int64) : (integer n).CallsOnly allowed := rfl

theorem callsOnly_primitive (own : Primitive) : (primitive own).CallsOnly allowed := rfl

theorem callsOnly_procedure {procedure : Procedure} :
    (Token.procedure procedure).CallsOnly allowed ↔
      ∀ token ∈ procedure.body, token.CallsOnly allowed := by
  simp [Token.procedure, Token.ofValue, CallsOnly, every, Value.every, Value.callsOnly,
    everyOf_iff]

theorem CallsOnly.body {id : BodyId} {body : List Token} {attributes : Attributes}
    (hcalls : (datum (.litProcedure id body) attributes).CallsOnly allowed) :
    (Token.procedure ⟨id, body⟩).CallsOnly allowed := by
  simpa [Token.procedure, Token.ofValue, CallsOnly, every, Value.every, Value.callsOnly]
    using hcalls

theorem CallsOnly.action {action : Token} {attributes : Attributes}
    (hcalls : (datum (.callback action) attributes).CallsOnly allowed) :
    action.CallsOnly allowed := by
  simpa [CallsOnly, every, Value.every, Value.callsOnly] using hcalls

theorem CallsOnly.operator {name : Name} {operator : Operator} {attributes : Attributes}
    (hcalls : (datum (.function name operator) attributes).CallsOnly allowed) :
    allowed.operator operator := by
  simpa [CallsOnly, every, Value.every, Value.callsOnly] using hcalls

theorem CallsOnly.table {name : Name} {id : TableId} {attributes : Attributes}
    (hcalls : (datum (.table name id) attributes).CallsOnly allowed) : allowed.table id := by
  simpa [CallsOnly, every, Value.every, Value.callsOnly] using hcalls

theorem CallsOnly.items {items : List Token} {attributes : Attributes}
    (hcalls : (datum (.array items) attributes).CallsOnly allowed) :
    ∀ item ∈ items, item.CallsOnly allowed := by
  simpa [CallsOnly, every, Value.every, Value.callsOnly, everyOf_iff] using hcalls

theorem CallsOnly.mono {other : Callable} {token : Token} (hcalls : token.CallsOnly allowed)
    (hoperator : ∀ operator, allowed.operator operator → other.operator operator)
    (htable : ∀ id, allowed.table id → other.table id) : token.CallsOnly other := by
  refine every_mono (fun value hvalue => ?_) token hcalls
  cases value with
  | function name operator => exact hoperator operator hvalue
  | table name id => exact htable id hvalue
  | _ => rfl

theorem CallsOnly.setWriteable {token : Token} (hcalls : token.CallsOnly allowed)
    (writeable : Bool) : (token.setWriteable writeable).CallsOnly allowed := by
  cases token <;> exact hcalls

end Token

/-- Selection never answers with an operator of the host. -/
def OverloadTree.SelectsInLanguage (tree : OverloadTree) : Prop :=
  ∀ operands known operator attributes,
    tree.select operands = .ok (.datum (.function known operator) attributes) →
      operator.inLanguage

/-- The operators and tables in the dictionaries are allowed ones. -/
def Store.CallsOnly (allowed : Callable) (store : Store) : Prop :=
  ∀ id, ∀ token ∈ (store.dictionary id).tokens, token.CallsOnly allowed

instance (store : Store) : Decidable (store.CallsOnly allowed) :=
  decidable_of_iff' _ Store.forall_tokens_iff

theorem Store.callsOnly_accepted {store : Store} {target : DictId} {token : Token}
    (htoken : token.CallsOnly allowed) : (store.accepted target token).CallsOnly allowed := by
  unfold accepted
  split
  · exact htoken
  · cases token <;> rfl

theorem Store.CallsOnly.insert {store : Store} (hstore : store.CallsOnly allowed) {token : Token}
    (htoken : token.CallsOnly allowed) (target : DictId) (name : Name) :
    (store.insert target name token).CallsOnly allowed := by
  intro id bound hmem
  obtain hold | ⟨-, rfl⟩ := mem_tokens_of_insert hmem
  · exact hstore id bound hold
  · exact callsOnly_accepted htoken

/-- The operators and tables that a machine has outside its tables are allowed ones. -/
structure Machine.CallsOnly (allowed : Callable) (machine : Machine) : Prop where
  operands : ∀ token ∈ machine.operands.items, token.CallsOnly allowed
  execution : ∀ token ∈ machine.execution.items, token.CallsOnly allowed
  callback : machine.callback.CallsOnly allowed
  store : machine.store.CallsOnly allowed

instance (machine : Machine) : Decidable (machine.CallsOnly allowed) :=
  decidable_of_iff
    ((∀ token ∈ machine.operands.items, token.CallsOnly allowed) ∧
      (∀ token ∈ machine.execution.items, token.CallsOnly allowed) ∧
      machine.callback.CallsOnly allowed ∧ machine.store.CallsOnly allowed)
    ⟨fun ⟨hoperands, hexecution, hcallback, hstore⟩ =>
        ⟨hoperands, hexecution, hcallback, hstore⟩,
      fun hcalls => ⟨hcalls.operands, hcalls.execution, hcalls.callback, hcalls.store⟩⟩

/-! ## What operations keep -/

/-- From one machine to another the scopes stay, the dictionaries are spared, and only
allowed operators are in play. -/
structure Persists (allowed : Callable) (start machine : Machine) : Prop where
  scopes : machine.scopes = start.scopes
  spared : Store.Spares start.scopes.top start.store machine.store
  calls : machine.CallsOnly allowed

/-- All this persists in an operation, and so do the callback and whether frames are
eliminated early. -/
structure Evolves (allowed : Callable) (start machine : Machine) : Prop
    extends Persists allowed start machine where
  callback : machine.callback = start.callback
  elimination : machine.config.tailElimination = start.config.tailElimination

/-- An operation ends with a machine that has evolved, if it succeeds with a value that
satisfies a condition. -/
inductive Leads (allowed : Callable) (start : Machine) (post : α → Prop) :
    EStateM.Result Failure Machine α → Prop where
  | ok {value : α} {machine : Machine} (hpost : post value)
    (hevolves : Evolves allowed start machine) : Leads allowed start post (.ok value machine)
  | error {failure : Failure} {machine : Machine} (hevolves : Evolves allowed start machine) :
    Leads allowed start post (.error failure machine)

variable {start machine : Machine}

namespace Leads

variable {post : β → Prop}

theorem bind {first : Operation α} {next : α → Operation β} {mid : α → Prop}
    (hfirst : Leads allowed start mid (first machine))
    (hnext : ∀ value machine, mid value → Evolves allowed start machine →
      Leads allowed start post (next value machine)) :
    Leads allowed start post ((first >>= next) machine) := by
  simp only [Bind.bind, EStateM.bind]
  generalize first machine = ended at hfirst
  cases hfirst with
  | ok hmid hevolves => exact hnext _ _ hmid hevolves
  | error hevolves => exact .error hevolves

/-- What an operation does with the machine that it reads. -/
theorem get {next : Machine → Operation β}
    (hleads : Leads allowed start post (next machine machine)) :
    Leads allowed start post ((MonadState.get >>= next) machine) :=
  hleads

/-- What an operation does after it has changed the machine. -/
theorem modify {change : Machine → Machine} {next : Unit → Operation β}
    (hleads : Leads allowed start post (next () (change machine))) :
    Leads allowed start post
      (((fun machine => .ok () (change machine) : Operation Unit) >>= next) machine) :=
  hleads

theorem discard {first : Operation α} {mid : α → Prop}
    (hleads : Leads allowed start mid (first machine)) :
    Leads allowed start (fun _ => True) ((Functor.discard first) machine) := by
  rw [Operation.discard_eq_bind]
  exact hleads.bind fun _ _ _ hevolves => .ok trivial hevolves

end Leads

namespace Persists

theorem refl (hcalls : machine.CallsOnly allowed) : Persists allowed machine machine :=
  ⟨rfl, .refl _ _, hcalls⟩

theorem trans {last : Machine} (hfirst : Persists allowed start machine)
    (hsecond : Persists allowed machine last) : Persists allowed start last where
  scopes := hsecond.scopes.trans hfirst.scopes
  spared := hfirst.spared.trans (by rw [← hfirst.scopes]; exact hsecond.spared)
  calls := hsecond.calls

end Persists

namespace Evolves

theorem refl (hcalls : machine.CallsOnly allowed) : Evolves allowed machine machine :=
  ⟨.refl hcalls, rfl, rfl⟩

theorem withStore (hevolves : Evolves allowed start machine) {store : Store}
    (hspared : Store.Spares machine.scopes.top machine.store store)
    (hstore : store.CallsOnly allowed) : Evolves allowed start { machine with store } where
  scopes := hevolves.scopes
  spared := hevolves.spared.trans (by rw [← hevolves.scopes]; exact hspared)
  calls := { hevolves.calls with store := hstore }
  callback := hevolves.callback
  elimination := hevolves.elimination

theorem restated (hevolves : Evolves allowed start machine) {next : Machine}
    (hnext : Restated machine next) : Evolves allowed start next where
  scopes := hnext.scopes.trans hevolves.scopes
  spared := hevolves.spared.trans (Store.spares_of_quiet hnext.store)
  calls :=
    { operands := by rw [hnext.operands]; exact hevolves.calls.operands
      execution := by rw [hnext.execution]; exact hevolves.calls.execution
      callback := by rw [hnext.callback]; exact hevolves.calls.callback
      store := by
        have hquiet : next.store.quiet.CallsOnly allowed := by
          rw [hnext.store]
          exact hevolves.calls.store
        exact hquiet }
  callback := hnext.callback.trans hevolves.callback
  elimination := by rw [hnext.config]; exact hevolves.elimination

theorem withControl (hevolves : Evolves allowed start machine) {execution : TokenStack}
    (hitems : ∀ token ∈ execution.items, token.CallsOnly allowed) (depth : Nat) :
    Evolves allowed start { machine with execution, depth } where
  scopes := hevolves.scopes
  spared := hevolves.spared
  calls := { hevolves.calls with execution := hitems }
  callback := hevolves.callback
  elimination := hevolves.elimination

theorem withHeld (hevolves : Evolves allowed start machine) (held : List Holding) :
    Evolves allowed start { machine with held } :=
  ⟨⟨hevolves.scopes, hevolves.spared, { hevolves.calls with }⟩, hevolves.callback,
    hevolves.elimination⟩

theorem dropTop (hevolves : Evolves allowed start machine) (n depth : Nat) :
    Evolves allowed start
      { machine with execution := machine.execution.dropTop n, depth } :=
  hevolves.withControl (fun token hmem =>
    hevolves.calls.execution token (List.mem_of_mem_drop hmem)) depth

theorem orFail (hevolves : Evolves allowed start machine) (result : Except Error α) :
    Leads allowed start (fun value => result = .ok value) (Machine.orFail result machine) := by
  cases result with
  | ok value => exact .ok rfl hevolves
  | error error => exact .error hevolves

/-! ### Operands -/

theorem claim (hevolves : Evolves allowed start machine) (inHand : List Holding) :
    Leads allowed start (fun _ => True) (Machine.claim inHand machine) := by
  obtain ⟨next, hclaim, hnext⟩ | ⟨fault, hclaim, -⟩ := Restated.claim inHand machine
  · rw [hclaim]
    exact .ok trivial (hevolves.restated hnext)
  · rw [hclaim]
    exact .error hevolves

theorem push (hevolves : Evolves allowed start machine) {token : Token}
    (htoken : token.CallsOnly allowed) : Evolves allowed start (machine.push token) where
  scopes := hevolves.scopes
  spared := hevolves.spared
  calls :=
    { hevolves.calls with
      operands := by
        intro other hmem
        obtain rfl | hbelow := List.mem_cons.1 hmem
        · exact htoken
        · exact hevolves.calls.operands other hbelow }
  callback := hevolves.callback
  elimination := hevolves.elimination

theorem pushNew (hevolves : Evolves allowed start machine) {token : Token}
    (htoken : token.CallsOnly allowed) (inHand : List Holding) :
    Leads allowed start (fun _ => True) (Machine.pushNew token inHand machine) :=
  (hevolves.claim _).bind fun _ _ _ hclaimed => .ok trivial (hclaimed.push htoken)

theorem schedule (hevolves : Evolves allowed start machine) {token : Token}
    (htoken : token.CallsOnly allowed) : Evolves allowed start (machine.schedule token) := by
  refine hevolves.withControl (fun other hmem => ?_) machine.depth
  obtain rfl | hbelow := List.mem_cons.1 hmem
  · exact htoken
  · exact hevolves.calls.execution other hbelow

theorem scheduleNew (hevolves : Evolves allowed start machine) {token : Token}
    (htoken : token.CallsOnly allowed) (inHand : List Holding) :
    Leads allowed start (fun _ => True) (Machine.scheduleNew token inHand machine) :=
  (hevolves.claim _).bind fun _ _ _ hclaimed => .ok trivial (hclaimed.schedule htoken)

theorem pop (hevolves : Evolves allowed start machine) :
    Leads allowed start (fun token => token.CallsOnly allowed) (Machine.pop machine) := by
  rw [Machine.pop_eq]
  cases hitems : machine.operands.items with
  | nil => exact .error hevolves
  | cons token below =>
    refine .ok (hevolves.calls.operands token (by simp [hitems])) ?_
    refine ⟨⟨hevolves.scopes, hevolves.spared, { hevolves.calls with operands := ?_ }⟩,
      hevolves.callback, hevolves.elimination⟩
    exact fun token hmem => hevolves.calls.operands token (List.mem_of_mem_drop hmem)

/-- A popped value was that of a token with allowed operators. -/
theorem popAs (hevolves : Evolves allowed start machine) (kind : Kind) :
    Leads allowed start
      (fun value => ∃ token alive, token.CallsOnly allowed ∧ kind.ofToken alive token = .ok value)
      (Machine.popAs kind machine) := by
  apply Leads.get
  refine (hevolves.orFail _).bind fun token next htop hnext => ?_
  refine (hnext.orFail _).bind fun value next hread hnext => ?_
  refine (hnext.claim _).bind fun _ next _ hnext => ?_
  refine hnext.pop.discard.bind fun _ next _ hnext => ?_
  have htoken := hevolves.calls.operands token (TokenStack.mem_of_top htop)
  exact .ok ⟨token, _, htoken, hread⟩ hnext

theorem popBody (hevolves : Evolves allowed start machine) :
    Leads allowed start (fun body => (Token.procedure body).CallsOnly allowed)
      (Machine.popAs .procedure machine) := by
  have hpopped := hevolves.popAs .procedure
  generalize Machine.popAs .procedure machine = ended at hpopped
  cases hpopped with
  | error hnext => exact .error hnext
  | ok hbody hnext =>
    obtain ⟨token, alive, htoken, hread⟩ := hbody
    exact .ok (Token.callsOnly_procedure.2 (Procedure.every_of_ofToken hread htoken)) hnext

/-- The one write of the language. -/
theorem define (hevolves : Evolves allowed start machine) (name : Name) {token : Token}
    (htoken : token.CallsOnly allowed) :
    Leads allowed start (fun _ => True) (Machine.define name token machine) := by
  have hcalls := hevolves.calls.store.insert htoken machine.scopes.top name
  apply Leads.get
  simp only
  cases hbound : (machine.store.dictionary machine.scopes.top).peek? name with
  | none => exact .ok trivial (hevolves.withStore (Store.spares_insert (by simp [hbound])) hcalls)
  | some bound =>
    simp only
    split
    · exact .error hevolves
    · rename_i hwriteable
      refine .ok trivial (hevolves.withStore (Store.spares_insert ?_) hcalls)
      intro found hfound
      rw [hbound] at hfound
      obtain rfl := Option.some.inj hfound
      exact hwriteable

theorem lookup (hevolves : Evolves allowed start machine) (name : Name) :
    Leads allowed start (fun found => ∀ token ∈ found, token.CallsOnly allowed)
      (Machine.lookup name machine) := by
  apply Leads.get
  simp only [Scopes.lookup_eq]
  cases machine.scopes.whereDefined? machine.store name with
  | none => exact .ok (by simp) hevolves
  | some id =>
    simp only [Option.bind_some]
    cases hfound : machine.store.slot? id name with
    | none => exact .ok (by simp) hevolves
    | some slot =>
      have hstore := hevolves.calls.store
      have htoken := hstore id _ (Dictionary.mem_tokens_of_get? hfound)
      have htouched : (machine.store.touch id name).CallsOnly allowed := by
        intro other token hmem
        obtain hold | hnew := Store.mem_tokens_of_modifyDictionary hmem
        · exact hstore other token hold
        · rw [Dictionary.tokens_touch] at hnew
          exact hstore id token hnew
      refine ((hevolves.withStore Store.spares_touch htouched).claim [.token slot.token]).bind
        fun _ next _ hnext => .ok ?_ hnext
      simpa using htoken

/-! ### Operators -/

theorem openFrame (hevolves : Evolves allowed start machine) (primitive : Primitive)
    {parts : List Holding} (hparts : ∀ part ∈ parts, part.asToken.CallsOnly allowed) :
    Leads allowed start (fun _ => True) (Machine.openFrame primitive parts machine) := by
  induction parts generalizing machine with
  | nil =>
    have hprimitive : Token.CallsOnly allowed (.primitive primitive) :=
      Token.callsOnly_primitive primitive
    refine (hevolves.scheduleNew hprimitive []).bind fun _ next _ hnext => .ok trivial ?_
    exact hnext.withControl hnext.calls.execution (next.depth + 1)
  | cons part rest ih =>
    have hpart := hparts part (by simp)
    have hrest : ∀ other ∈ rest, other.asToken.CallsOnly allowed :=
      fun other hmem => hparts other (by simp [hmem])
    cases part with
    | token token => exact ih (hevolves.schedule hpart) hrest
    | value value => exact (hevolves.scheduleNew hpart rest).bind fun _ _ _ hnext => ih hnext hrest

theorem openLoop (hevolves : Evolves allowed start machine) {body : Procedure}
    (hbody : (Token.procedure body).CallsOnly allowed) :
    Leads allowed start (fun _ => True) (Machine.openLoop body machine) := by
  unfold Machine.openLoop
  split
  · exact .ok trivial hevolves
  · refine hevolves.openFrame _ fun part hpart => ?_
    simp only [List.mem_cons, List.not_mem_nil, or_false] at hpart
    rcases hpart with rfl | rfl | rfl <;> first | exact hbody | rfl

theorem openRepetition (hevolves : Evolves allowed start machine) (rounds : Int64)
    {body : Procedure} (hbody : (Token.procedure body).CallsOnly allowed) :
    Leads allowed start (fun _ => True) (Machine.openRepetition rounds body machine) := by
  refine hevolves.openFrame _ fun part hpart => ?_
  simp only [List.mem_cons, List.not_mem_nil, or_false] at hpart
  rcases hpart with rfl | rfl | rfl | rfl <;> first | exact hbody | rfl

theorem openCounting (hevolves : Evolves allowed start machine) (first increment limit : Int64)
    {body : Procedure} (hbody : (Token.procedure body).CallsOnly allowed) :
    Leads allowed start (fun _ => True)
      (Machine.openCounting first increment limit body machine) := by
  refine hevolves.openFrame _ fun part hpart => ?_
  simp only [List.mem_cons, List.not_mem_nil, or_false] at hpart
  rcases hpart with rfl | rfl | rfl | rfl | rfl | rfl <;> first | exact hbody | rfl

theorem openForAll (hevolves : Evolves allowed start machine) (indexed : Bool) {object : Token}
    (hobject : object.CallsOnly allowed) {body : Procedure}
    (hbody : (Token.procedure body).CallsOnly allowed) :
    Leads allowed start (fun _ => True) (Machine.openForAll indexed object body machine) := by
  unfold Machine.openForAll
  cases Machine.elementsOf indexed object with
  | none => exact .error hevolves
  | some found =>
    refine hevolves.openFrame _ fun part hpart => ?_
    simp only [List.mem_cons, List.not_mem_nil, or_false] at hpart
    rcases hpart with rfl | rfl | rfl | rfl | rfl <;> first | exact hbody | exact hobject | rfl

theorem binary (hevolves : Evolves allowed start machine) {kind : Kind}
    {f : kind.Carrier → kind.Carrier → Token} (hf : ∀ a b, (f a b).CallsOnly allowed) :
    Leads allowed start (fun _ => True) (Machine.binary kind f machine) := by
  refine (hevolves.popAs kind).bind fun upper next _ hnext => ?_
  refine (hnext.popAs kind).bind fun lower next _ hnext => ?_
  exact hnext.pushNew (hf _ _) _

theorem exitLoop (hevolves : Evolves allowed start machine) :
    Leads allowed start (fun _ => True) (Machine.exitLoop machine) := by
  rw [Machine.exitLoop_of_span rfl]
  split
  · exact .error hevolves
  · exact .ok trivial (hevolves.dropTop _ _)

/-- Every operator of the language lets the machine evolve. -/
theorem runOperator (hevolves : Evolves allowed start machine) (operator : Operator) :
    Leads allowed start (fun _ => True) (Machine.runOperator operator machine) := by
  cases operator with
  | pop => exact hevolves.pop.discard
  | dup =>
    apply Leads.get
    refine (hevolves.orFail _).bind fun token next htop hnext => ?_
    exact hnext.pushNew (hevolves.calls.operands token (TokenStack.mem_of_top htop)) _
  | exch =>
    refine hevolves.pop.bind fun upper next hupper hnext => ?_
    refine hnext.pop.bind fun lower next hlower hnext => ?_
    exact .ok trivial ((hnext.push hupper).push hlower)
  | exec =>
    exact hevolves.pop.bind fun token next htoken hnext => .ok trivial (hnext.schedule htoken)
  | define =>
    apply Leads.get
    refine (hevolves.orFail _).bind fun _ next _ hnext => ?_
    apply Leads.get
    refine (hnext.orFail _).bind fun named next _ hnext => ?_
    refine (hnext.orFail _).bind fun name next _ hnext => ?_
    refine hnext.pop.bind fun token next htoken hnext => ?_
    exact hnext.pop.discard.bind fun _ next _ hnext => hnext.define name htoken
  | addIntegers | subIntegers | mulIntegers | gtIntegers => exact hevolves.binary fun _ _ => rfl
  | addDoubles | subDoubles | mulDoubles | gtDoubles => exact hevolves.binary fun _ _ => rfl
  | ifTrue =>
    refine hevolves.popBody.bind fun body next hbody hnext => ?_
    refine (hnext.popAs .boolean).bind fun condition next _ hnext => ?_
    cases condition with
    | false => exact .ok trivial hnext
    | true => exact hnext.scheduleNew hbody _
  | loop => exact hevolves.popBody.bind fun body next hbody hnext => hnext.openLoop hbody
  | exit => exact hevolves.exitLoop
  | repetition =>
    refine hevolves.popBody.bind fun body next hbody hnext => ?_
    exact (hnext.popAs .integer).bind fun rounds next _ hnext => hnext.openRepetition rounds hbody
  | counting =>
    apply Leads.get
    refine (hevolves.orFail _).bind fun _ next _ hnext => ?_
    refine hnext.popBody.bind fun body next hbody hnext => ?_
    refine (hnext.popAs .integer).bind fun limit next _ hnext => ?_
    refine (hnext.popAs .integer).bind fun increment next _ hnext => ?_
    exact (hnext.popAs .integer).bind fun first next _ hnext =>
      hnext.openCounting first increment limit hbody
  | forAll | forAllIndexed =>
    refine hevolves.popBody.bind fun body next hbody hnext => ?_
    exact hnext.pop.bind fun object next hobject hnext => hnext.openForAll _ hobject hbody
  | host name => exact .ok trivial hevolves

/-! ### Frames -/

theorem pickFrame (hevolves : Evolves allowed start machine) (position : Nat) :
    Leads allowed start (fun token => token.CallsOnly allowed)
      (Machine.orFail (machine.execution.pick position) machine) := by
  rw [TokenStack.pick]
  split
  · rename_i token hitem
    exact .ok (hevolves.calls.execution token (List.mem_of_getElem? hitem)) hevolves
  · exact .error hevolves

theorem readFrame (hevolves : Evolves allowed start machine) (kind : Kind) (position : Nat) :
    Leads allowed start
      (fun value => ∃ token alive, token.CallsOnly allowed ∧ kind.ofToken alive token = .ok value)
      (Machine.readFrame kind position machine) := by
  apply Leads.get
  refine (hevolves.pickFrame position).bind fun token next htoken hnext => ?_
  have hread := hnext.orFail (kind.ofToken machine.isAlive token)
  generalize Machine.orFail (kind.ofToken machine.isAlive token) next = ended at hread
  cases hread with
  | ok hvalue hlast => exact .ok ⟨token, _, htoken, hvalue⟩ hlast
  | error hlast => exact .error hlast

theorem readBody (hevolves : Evolves allowed start machine) (position : Nat) :
    Leads allowed start (fun body => ∀ token ∈ body.body, token.CallsOnly allowed)
      (Machine.readFrame .procedure position machine) := by
  have hread := hevolves.readFrame .procedure position
  generalize Machine.readFrame .procedure position machine = ended at hread
  cases hread with
  | error hnext => exact .error hnext
  | ok hbody hnext =>
    obtain ⟨token, alive, htoken, hbody⟩ := hbody
    exact .ok (Procedure.every_of_ofToken hbody htoken) hnext

theorem writeFrame (hevolves : Evolves allowed start machine) (position : Nat) (n : Int64) :
    Leads allowed start (fun _ => True) (Machine.writeFrame position n machine) := by
  apply Leads.get
  refine (hevolves.pickFrame position).bind fun token next _ hnext => ?_
  split
  · refine (hnext.orFail _).bind fun execution last hreplace hlast => .ok trivial ?_
    rw [TokenStack.replace] at hreplace
    split at hreplace
    · obtain rfl := Except.ok.inj hreplace
      refine hevolves.withControl (fun other hmem => ?_) machine.depth
      obtain hold | rfl := List.mem_or_eq_of_mem_set hmem
      · exact hevolves.calls.execution other hold
      · rfl
    · cases hreplace
  · exact .error hnext

theorem closeFrame (hevolves : Evolves allowed start machine) (primitive : Primitive) :
    Leads allowed start (fun _ => True) (Machine.closeFrame primitive machine) := by
  apply Leads.get
  refine (hevolves.orFail _).bind fun execution next hpop _ => .ok trivial ?_
  refine hevolves.withControl (fun token hmem => ?_) (machine.depth - 1)
  simp only [TokenStack.popMany, TokenStack.require, bind, Except.bind] at hpop
  split at hpop
  · cases hpop
  · obtain rfl := Except.ok.inj hpop
    exact hevolves.calls.execution token (List.mem_of_mem_drop hmem)

theorem speak (hevolves : Evolves allowed start machine) {operation : Operation Unit}
    (hspeaks : Machine.Speaks operation) :
    Leads allowed start (fun _ => True) (operation machine) := by
  obtain ⟨next, hnext, hsaid | ⟨hsilent, -⟩⟩ := hspeaks machine
  · rw [hsaid]
    exact .ok trivial (hevolves.restated hnext)
  · rw [hsilent]
    exact .error (hevolves.restated hnext)

theorem remark (hevolves : Evolves allowed start machine) (text : Store → Option String) :
    Leads allowed start (fun _ => True) (Machine.note text machine) :=
  hevolves.speak (Machine.speaks_note text)

theorem handOut (hevolves : Evolves allowed start machine) (body : List Token) (position : Int64)
    {element : Token} (helement : element.CallsOnly allowed) :
    Leads allowed start (fun _ => True) (Machine.handOut body position element machine) := by
  refine (hevolves.claim _).bind fun _ _ _ hnext => ?_
  refine (hnext.speak (Machine.speaks_pause body position)).bind fun _ _ _ hpaused => ?_
  exact (hpaused.writeFrame _ _).bind fun _ _ _ hwritten =>
    .ok trivial (hwritten.schedule helement)

theorem advanceProcedure (hevolves : Evolves allowed start machine) :
    Leads allowed start (fun _ => True) (Machine.advanceProcedure machine) := by
  refine (hevolves.readBody 2).bind fun body next hbody hnext => ?_
  refine (hnext.readFrame .integer 1).bind fun position next _ hnext => ?_
  cases helement : Machine.elementAt body.body position with
  | none => exact hnext.closeFrame _
  | some element =>
    have htoken := hbody element (Machine.elementAt_eq_some helement).1
    refine (hnext.claim _).bind fun _ _ _ hnext => ?_
    refine (hnext.speak (Machine.speaks_pause body.body position)).bind fun _ _ _ hpaused => ?_
    apply Leads.get
    split
    · exact (hpaused.closeFrame _).bind fun _ _ _ hlast => .ok trivial (hlast.schedule htoken)
    · exact (hpaused.writeFrame _ _).bind fun _ _ _ hlast => .ok trivial (hlast.schedule htoken)

theorem advanceLoop (hevolves : Evolves allowed start machine) :
    Leads allowed start (fun _ => True) (Machine.advanceLoop machine) := by
  refine (hevolves.readBody 2).bind fun body next hbody hnext => ?_
  refine (hnext.readFrame .integer 1).bind fun position next _ hnext => ?_
  cases helement : Machine.elementAt body.body position with
  | some element => exact hnext.handOut _ _ (hbody element (Machine.elementAt_eq_some helement).1)
  | none => exact (hnext.writeFrame _ _).bind fun _ _ _ hlast => hlast.remark _

theorem advanceRepetition (hevolves : Evolves allowed start machine) :
    Leads allowed start (fun _ => True) (Machine.advanceRepetition machine) := by
  refine (hevolves.readBody 2).bind fun body next hbody hnext => ?_
  refine (hnext.readFrame .integer 1).bind fun position next _ hnext => ?_
  cases helement : Machine.elementAt body.body position with
  | some element => exact hnext.handOut _ _ (hbody element (Machine.elementAt_eq_some helement).1)
  | none =>
    refine (hnext.readFrame .integer 3).bind fun rounds next _ hnext => ?_
    split
    · refine (hnext.writeFrame _ _).bind fun _ _ _ hlast => ?_
      exact (hlast.writeFrame _ _).bind fun _ _ _ hlast => hlast.remark _
    · exact hnext.closeFrame _

theorem advanceCounting (hevolves : Evolves allowed start machine) :
    Leads allowed start (fun _ => True) (Machine.advanceCounting machine) := by
  refine (hevolves.readBody 2).bind fun body next hbody hnext => ?_
  refine (hnext.readFrame .integer 1).bind fun position next _ hnext => ?_
  cases helement : Machine.elementAt body.body position with
  | some element => exact hnext.handOut _ _ (hbody element (Machine.elementAt_eq_some helement).1)
  | none =>
    refine (hnext.readFrame .integer 3).bind fun counter next _ hnext => ?_
    refine (hnext.readFrame .integer 4).bind fun limit next _ hnext => ?_
    refine (hnext.readFrame .integer 5).bind fun increment next _ hnext => ?_
    split
    · refine (hnext.writeFrame _ _).bind fun _ _ _ hlast => ?_
      refine (hlast.pushNew (Token.callsOnly_integer counter) _).bind fun _ _ _ hlast => ?_
      cases Machine.addExactly counter increment with
      | some sum => exact (hlast.writeFrame _ _).bind fun _ _ _ hlast => hlast.remark _
      | none => exact (hlast.writeFrame _ _).bind fun _ _ _ hlast => hlast.remark _
    · exact hnext.closeFrame _

theorem callsOnly_of_objectElement? {object element : Token} {position : Int64}
    (hobject : object.CallsOnly allowed)
    (helement : Machine.objectElement? object position = some element) :
    element.CallsOnly allowed := by
  unfold Machine.objectElement? at helement
  split at helement
  · exact hobject.items element (Machine.elementAt_eq_some helement).1
  · split at helement
    · cases helement
    · obtain ⟨byte, -, rfl⟩ := Option.map_eq_some_iff.1 helement
      rfl
  · cases helement

theorem advanceForAll (hevolves : Evolves allowed start machine) (primitive : Primitive) :
    Leads allowed start (fun _ => True) (Machine.advanceForAll primitive machine) := by
  refine (hevolves.readFrame .integer 2).bind fun position next _ hnext => ?_
  refine (hnext.readFrame .integer 3).bind fun limit next _ hnext => ?_
  split
  · exact hnext.closeFrame _
  · apply Leads.get
    refine (hnext.pickFrame 4).bind fun object next hobject hnext => ?_
    cases helement : Machine.objectElement? object position with
    | none => exact .error hnext
    | some element =>
      -- With its operands in place, the body is scheduled.
      have hrest : ∀ {next : Machine}, Evolves allowed start next →
          Leads allowed start (fun _ => True) ((do
            Machine.writeFrame 2 (position + 1)
            Machine.scheduleNew (← Machine.orFail ((← get).execution.pick 1)) [] :
              Operation Unit) next) := by
        intro next hnext
        refine (hnext.writeFrame _ _).bind fun _ next _ hwritten => ?_
        apply Leads.get
        exact (hwritten.pickFrame 1).bind fun token next htoken hlast => hlast.scheduleNew htoken _
      have htoken := callsOnly_of_objectElement? hobject helement
      refine (hnext.claim _).bind fun _ _ _ hnext => ?_
      refine (hnext.remark _).bind fun _ _ _ hnoted => Leads.modify ?_
      split
      · exact ((hnoted.push htoken).pushNew (Token.callsOnly_integer position) _).bind
          fun _ _ _ hlast => hrest hlast
      · exact hrest (hnoted.push htoken)

theorem advance (hevolves : Evolves allowed start machine) (primitive : Primitive) :
    Leads allowed start (fun _ => True) (Machine.advance primitive machine) := by
  cases primitive with
  | iterate => exact hevolves.advanceProcedure
  | loop => exact hevolves.advanceLoop
  | repetition => exact hevolves.advanceRepetition
  | counting => exact hevolves.advanceCounting
  | forAllArray | forAllIndexedArray | forAllString | forAllIndexedString =>
    exact hevolves.advanceForAll _

/-! ### Steps -/

theorem resolveTop (hevolves : Evolves allowed start machine) (name : Name) :
    Leads allowed start (fun _ => True) (Machine.resolveTop name machine) := by
  refine (hevolves.lookup name).bind fun found next hfound hnext => ?_
  cases found with
  | none => exact .error hnext
  | some token =>
    apply Leads.get
    refine (hnext.orFail _).bind fun execution last hreplace _ => .ok trivial ?_
    rw [TokenStack.replace] at hreplace
    split at hreplace
    · obtain rfl := Except.ok.inj hreplace
      refine hnext.withControl (fun other hmem => ?_) next.depth
      obtain hold | rfl := List.mem_or_eq_of_mem_set hmem
      · exact hnext.calls.execution other hold
      · exact hfound other rfl
    · cases hreplace

theorem call (hevolves : Evolves allowed start machine) (host : HostOperators)
    {operator : Operator} (hlanguage : ∀ name, operator ≠ .host name) :
    ∃ outcome, Machine.call host operator machine = .finished outcome ∧
      Leads allowed start (fun _ => True) outcome := by
  refine ⟨Machine.runOperator operator machine, ?_, hevolves.runOperator operator⟩
  cases operator with
  | host name => exact absurd rfl (hlanguage name)
  | _ => rfl

theorem selectOverload (hevolves : Evolves allowed start machine) (name : Name) (id : TableId)
    (htable : (machine.store.table id).SelectsInLanguage) :
    Leads allowed start (fun operator => ∀ own, operator ≠ .host own)
      (Machine.selectOverload name id machine) := by
  rw [Machine.selectOverload_eq]
  split
  · exact .error (hevolves.restated (.report _ _))
  · rename_i hselect
    exact .ok (Operator.not_host_of_inLanguage (htable _ _ _ _ hselect)) hevolves
  · exact .error hevolves

theorem dispatch (hevolves : Evolves allowed start machine) (host : HostOperators)
    (name : Name) (id : TableId) (htable : (machine.store.table id).SelectsInLanguage) :
    ∃ outcome, Machine.dispatch host name id machine = .finished outcome ∧
      Leads allowed start (fun _ => True) outcome := by
  have hselected := hevolves.selectOverload name id htable
  unfold Machine.dispatch
  simp only [EStateM.run]
  generalize Machine.selectOverload name id machine = selected at hselected
  cases hselected with
  | error hnext => exact ⟨_, rfl, .error hnext⟩
  | @ok operator next hoperator hnext =>
    obtain ⟨outcome, hcall, houtcome⟩ :=
      (hnext.withHeld (.token (.table name id) :: next.held)).call host hoperator
    refine ⟨Machine.mapOutcome Machine.releasing outcome, ?_, ?_⟩
    · exact congrArg (Effect.mapOutcome (Machine.mapOutcome Machine.releasing)) hcall
    · cases houtcome with
      | ok _ hlast => exact .ok trivial (hlast.withHeld _)
      | error hlast => exact .error (hlast.withHeld _)

end Evolves

/-- Whatever is to be done next, a step lets the machine evolve, whether it succeeds or
not, as long as no operator comes from the host. -/
theorem Evolves.step (hevolves : Evolves allowed start machine)
    (hoperator : ∀ operator, allowed.operator operator → operator.inLanguage)
    (htable : ∀ id, allowed.table id → (machine.store.table id).SelectsInLanguage)
    (host : HostOperators) :
    ∃ outcome, Machine.step host machine = .finished outcome ∧
      Leads allowed start (fun _ => True) outcome := by
  have hbelow : Evolves allowed start machine.unscheduled := hevolves.dropTop 1 machine.depth
  unfold Machine.step
  split
  · exact ⟨_, rfl, .error hevolves⟩
  · exact ⟨_, rfl, .ok trivial hbelow⟩
  · rename_i value attributes below hitems
    have htop : (Token.datum value attributes).CallsOnly allowed :=
      hevolves.calls.execution _ (by simp [hitems])
    cases value with
    | name name => exact ⟨_, rfl, hevolves.resolveTop name⟩
    | procedure id body =>
      refine ⟨_, rfl, hevolves.openFrame _ fun part hpart => ?_⟩
      obtain rfl := List.mem_singleton.1 hpart
      rfl
    | litProcedure id body => exact ⟨_, rfl, hbelow.pushNew htop.body _⟩
    | function name operator =>
      exact hbelow.call host (Operator.not_host_of_inLanguage (hoperator _ htop.operator))
    | table name id => exact hbelow.dispatch host name id (htable id htop.table)
    | primitive primitive => exact ⟨_, rfl, hevolves.advance primitive⟩
    | callback action => exact ⟨_, rfl, hbelow.scheduleNew htop.action _⟩
    | integer | double | boolean | string | literal | array | dictionary | mark =>
      exact ⟨_, rfl, .ok trivial (hbelow.push htop)⟩

end StackLang
