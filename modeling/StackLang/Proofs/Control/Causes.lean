import StackLang.Proofs.Control.Fitting
import StackLang.Proofs.Control.Isolation
import StackLang.Proofs.Control.Statements

/-!
# Why a statement may fail

The code takes frames apart by offsets and operands without looking at their types.  On a
machine with the operators that registration has installed, and no others, this never
goes wrong.  A statement fails only where the program itself is to blame: a name is not
bound, no overload fits the operands, a loop is left where there is none, or a read-only
name is to be bound anew.
-/

namespace StackLang

open Relation (ReflTransGen)

/-- What registration has installed in a machine: the operator that leaves loops, and the
overload tables. -/
def Callable.installed (fresh : Machine) : Callable where
  operator := fun operator => operator == .exit
  table := fun id => decide (id.index < fresh.store.tables.size)

/-- Between statements, the data of a machine contain no primitive and no operators and
tables but those that registration had installed in a new machine. -/
structure Machine.Standard (machine fresh : Machine) : Prop where
  execution : machine.execution.items = []
  ordinary : machine.Ordinary
  calls : machine.CallsOnly (.installed fresh)
  tables : ∀ id : TableId, id.index < fresh.store.tables.size →
    machine.store.table id = fresh.store.table id

/-! ## New machines are standard -/

namespace Machine

variable {machine next : Machine}

theorem callable_of_size_eq
    (hsize : next.store.tables.size = machine.store.tables.size) :
    Callable.installed next = Callable.installed machine := by
  rw [Callable.installed, hsize]
  rfl

theorem CallsOnly.withStore (hcalls : machine.CallsOnly (.installed machine)) {store : Store}
    (hsize : store.tables.size = machine.store.tables.size)
    (hstore : store.CallsOnly (.installed machine)) :
    CallsOnly (.installed { machine with store }) { machine with store } := by
  rw [callable_of_size_eq hsize]
  exact { hcalls with store := hstore }

theorem callsOnly_registrable :
    Registrable Registration.standard fun machine => machine.CallsOnly (.installed machine) where
  restated := fun {machine next} hcalls hnext => by
    have htables : next.store.quiet.tables = machine.store.quiet.tables := by rw [hnext.store]
    rw [callable_of_size_eq (congrArg Array.size htables)]
    exact ((Evolves.refl hcalls).restated hnext).calls
  newTable := fun {machine} hcalls => by
    have hmore : ∀ token : Token, token.CallsOnly (.installed machine) →
        token.CallsOnly (.installed { machine with store := machine.store.newTable.2 }) := by
      intro token htoken
      refine htoken.mono (fun _ hoperator => hoperator) fun id hid => ?_
      have hlt : id.index < machine.store.tables.size := by simpa [Callable.installed] using hid
      simp [Callable.installed, Store.newTable]
      omega
    exact
      { operands := fun token hmem => hmore token (hcalls.operands token hmem)
        execution := fun token hmem => hmore token (hcalls.execution token hmem)
        callback := hmore _ hcalls.callback
        store := fun id token hmem => hmore token (hcalls.store id token hmem) }
  table := fun {machine} name id hknown hcalls => by
    have htable : (Token.table name id).CallsOnly (.installed machine) := by
      simpa [Token.table, Token.ofValue, Token.CallsOnly, Token.every, Value.every,
        Value.callsOnly, Callable.installed] using hknown
    exact hcalls.withStore (by rw [Store.tables_insert])
      (hcalls.store.insert (htable.setWriteable false) _ _)
  operator := fun {machine name operator} hmem hcalls => by
    obtain rfl : operator = .exit := by
      simp [Registration.standard] at hmem
      exact hmem.2
    have hexit : (Token.function name .exit).CallsOnly (.installed machine) := rfl
    exact hcalls.withStore (by rw [Store.tables_insert])
      (hcalls.store.insert (hexit.setWriteable false) _ _)
  overload := fun {machine name signature operator id accepted store} _ hcalls hadd => by
    obtain ⟨hdictionaries, hsize⟩ := Store.shape_of_addOverload hadd
    refine hcalls.withStore hsize fun id token hmem => hcalls.store id token ?_
    rwa [Store.dictionary, hdictionaries] at hmem

theorem tokens_bare (config : Config) (id : DictId) :
    ((bare config).store.dictionary id).tokens = [] := by
  obtain hnone | ⟨dictionary, hsome⟩ : (bare config).store.dictionaries[id.index]? = none ∨
      ∃ dictionary, (bare config).store.dictionaries[id.index]? = some dictionary :=
    Option.eq_none_or_eq_some _
  · simp [Store.dictionary, hnone, Dictionary.empty, Dictionary.tokens]
  · have hmem : dictionary ∈ [Dictionary.empty, Dictionary.empty] :=
      Array.mem_toList_iff.2 (Array.mem_of_getElem? hsome)
    obtain rfl : dictionary = .empty := by simpa using hmem
    rw [Store.dictionary, hsome]
    rfl

/-- A new machine with the operators of the language is standard. -/
theorem Standard.of_create {config : Config}
    (hcreate : create config Registration.standard = .ok machine) :
    machine.Standard machine := by
  have hblank := blank_of_create_standard hcreate
  refine ⟨hblank.execution, ?_, ?_, fun _ _ => rfl⟩
  · exact
      { operands := fun token hmem => (hblank.plain.operands token hmem).ordinary
        callback := hblank.plain.callback.ordinary
        store := fun id token hmem => (hblank.plain.store.dictionaries id token hmem).ordinary }
  · refine callsOnly_registrable.of_create ?_ hcreate
    exact
      { operands := by intro token hmem; cases hmem
        execution := by intro token hmem; cases hmem
        callback := rfl
        store := by
          intro id token hmem
          rw [tokens_bare] at hmem
          cases hmem }

end Machine

/-! ## Causes -/

/-- Why the step of a program fails in a state. -/
inductive Cause (state : Machine) : Error → Prop where
  /-- The name to be executed is bound nowhere. -/
  | unbound {name : Name} {attributes : Attributes} {below : List Token}
    (hitems : state.execution.items = .datum (.name name) attributes :: below)
    (hunknown : state.scopes.knows state.store name = false) :
    Cause state (.undefinedName name.text)
  /-- No overload of the table to be executed fits the operands. -/
  | unmatched {name : Name} {id : TableId} {attributes : Attributes} {below : List Token}
    {error : Error}
    (hitems : state.execution.items = .datum (.table name id) attributes :: below)
    (hselect : (state.store.table id).select state.operands.operandTypes = .error error)
    (hkind : (∃ needed found, error = .stackUnderflow needed found) ∨
      ∃ position, error = .argumentType position) : Cause state error
  /-- A loop is to be left, and there is none. -/
  | noLoop (hcalls : state.Calls .exit) (hunmarked : state.control.Unmarked) :
    Cause state .invalidExit
  /-- A name is to be bound that is bound read-only in the innermost dictionary. -/
  | readOnly {token named bound : Token} {below : List Token} {name : Name}
    (hcalls : state.Calls .define)
    (hoperands : state.operands.items = token :: named :: below)
    (hname : Kind.name.ofToken state.isAlive named = .ok name)
    (hbound : (state.store.dictionary state.scopes.top).peek? name = some bound)
    (hreadOnly : bound.isReadOnly) : Cause state (.readOnly name.text)

/-- No cause is an operand or a part of a frame that is not of the type expected. -/
theorem Cause.ne_typeMismatch {state : Machine} {error : Error} (hcause : Cause state error)
    (expected found : String) : error ≠ .typeMismatch expected found := by
  rintro rfl
  cases hcause with
  | unmatched _ _ hkind => obtain ⟨_, _, hkind⟩ | ⟨_, hkind⟩ := hkind <;> cases hkind

/-- An outcome is no failure, or one that has a cause in a state. -/
inductive Accounted {α : Type} (state : Machine) : EStateM.Result Failure Machine α → Prop where
  | ok {value : α} {machine : Machine} : Accounted state (.ok value machine)
  | error {error : Error} {machine : Machine} (hcause : Cause state error) :
    Accounted state (.error (.error error) machine)
  | fault {fault : Fault} {machine : Machine} : Accounted state (.error (.fault fault) machine)

section Accounting

variable {α : Type} {state machine : Machine} {result : EStateM.Result Failure Machine α}
  {post : α → Machine → Prop}

theorem Succeeds.isAccounted (hsucceeds : Succeeds post result) : Accounted state result := by
  cases hsucceeds with
  | ok => exact .ok
  | fault => exact .fault

/-- What settles wherever it is said to have started does not fail. -/
theorem Settles.isAccounted (hsettles : ∀ start, Settles start post result) :
    Accounted state result := by
  cases result with
  | ok => exact .ok
  | error failure machine =>
    cases failure with
    | fault => exact .fault
    | error error =>
      cases hsettles ⟨[], machine.depth + 1⟩ with
      | error hstart =>
        have hdepth : machine.depth = machine.depth + 1 := congrArg Control.depth hstart.ahead
        exact absurd hdepth (Nat.ne_of_lt machine.depth.lt_succ_self)

theorem Accounted.releasing {outcome : Outcome} (haccounted : Accounted state outcome) :
    Accounted state (Machine.mapOutcome Machine.releasing outcome) := by
  cases haccounted with
  | ok => exact .ok
  | error hcause => exact .error hcause
  | fault => exact .fault

/-! ## Steps -/

namespace Machine

theorem knows_eq_false_of_lookup {name : Name}
    (hlookup : state.scopes.lookup state.store name = none) :
    state.scopes.knows state.store name = false := by
  rw [Scopes.lookup, List.findSome?_eq_none_iff] at hlookup
  rw [Scopes.knows, List.any_eq_false]
  intro id hmem
  rw [Dictionary.knows, ← Store.slot?, Option.map_eq_none_iff.1 (hlookup id hmem)]
  simp

/-- A look-up finds nothing only where the name is bound nowhere. -/
theorem lookup_cases (state : Machine) (name : Name) :
    Machine.lookup name state = .ok none state ∧ state.scopes.knows state.store name = false ∨
      (∃ token next, Machine.lookup name state = .ok (some token) next ∧
        next.execution = state.execution) ∨
      ∃ fault next, Machine.lookup name state = .error (.fault fault) next := by
  cases hlookup : state.scopes.lookup state.store name with
  | none =>
    refine .inl ⟨?_, knows_eq_false_of_lookup hlookup⟩
    simp only [Machine.lookup, bind, EStateM.bind, get, getThe, MonadStateOf.get, EStateM.get,
      hlookup]
    rfl
  | some found =>
    obtain ⟨token, store⟩ := found
    obtain ⟨next, hclaim, hnext⟩ | ⟨fault, hclaim, -⟩ :=
      Restated.claim [.token token] { state with store }
    · refine .inr (.inl ⟨token, next, ?_, hnext.execution⟩)
      simp only [lookup_eq_claim hlookup, bind, EStateM.bind, hclaim]
      rfl
    · refine .inr (.inr ⟨fault, { state with store }, ?_⟩)
      simp only [lookup_eq_claim hlookup, bind, EStateM.bind, hclaim]

/-- A name fails to be resolved only where it is bound nowhere. -/
theorem resolveTop_accounted {name : Name} {attributes : Attributes} {below : List Token}
    (hitems : state.execution.items = .datum (.name name) attributes :: below) :
    Accounted state (resolveTop name state) := by
  obtain ⟨hlookup, hunknown⟩ | ⟨token, next, hlookup, hexecution⟩ | ⟨fault, next, hlookup⟩ :=
    lookup_cases state name
  · simp only [resolveTop, bind, EStateM.bind, hlookup]
    exact .error (.unbound hitems hunknown)
  · have hload : 0 < next.execution.load := by
      rw [next.execution.load_eq, hexecution, hitems]
      simp
    simp only [resolveTop, bind, EStateM.bind, hlookup, get, getThe, MonadStateOf.get,
      EStateM.get, TokenStack.replace, hload, if_true]
    exact .ok
  · simp only [resolveTop, bind, EStateM.bind, hlookup]
    exact .fault

theorem unmarked_of_unscheduled {name : Name} {operator : Operator} {attributes : Attributes}
    {below : List Token}
    (hitems : state.execution.items = .datum (.function name operator) attributes :: below)
    (hunmarked : state.unscheduled.control.Unmarked) : state.control.Unmarked := by
  intro token hmem
  have hcontrol : state.control.items = .datum (.function name operator) attributes :: below :=
    hitems
  rw [hcontrol] at hmem
  obtain rfl | hbelow := List.mem_cons.1 hmem
  · rfl
  · refine hunmarked token ?_
    simpa [control, unscheduled, hitems] using hbelow

theorem exitLoop_accounted {name : Name} {attributes : Attributes} {below : List Token}
    (hitems : state.execution.items = .datum (.function name .exit) attributes :: below) :
    Accounted state (exitLoop state.unscheduled) := by
  cases hleft : state.unscheduled.control.left? with
  | none =>
    rw [exitLoop_eq_error hleft]
    exact .error (.noLoop (.function hitems)
      (unmarked_of_unscheduled hitems (Control.left?_eq_none_iff.1 hleft)))
  | some outer =>
    obtain ⟨execution, -, hrun⟩ := exitLoop_eq_ok hleft
    rw [hrun]
    exact .ok

/-- An operator that was selected by the types of the operands finds them. -/
theorem runOperator_accounted {operator : Operator} {signature : Signature}
    (hcalls : state.Calls operator) (hmem : signature ∈ operator.signatures)
    (hfits : signature.Fits state.operandTypes) (hoperands : machine.operands = state.operands)
    (hstore : machine.store = state.store) (hscopes : machine.scopes = state.scopes) :
    Accounted state (runOperator operator machine) := by
  have htypes : machine.operandTypes = state.operandTypes := by
    rw [operandTypes, hoperands, operandTypes]
  by_cases hdefine : operator = .define
  · subst hdefine
    obtain rfl := List.mem_singleton.1 hmem
    obtain ⟨tag, below, hupper, hbelow⟩ := Signature.fits_any.1 hfits
    obtain ⟨rest, rfl, -⟩ := Signature.fits_exactly.1 hbelow
    obtain hsucceeds | ⟨token, named, last, name, bound, next, hitems, hname, hbound, hreadOnly,
        hrun⟩ := runDefine_cases (htypes.trans hupper)
    · exact hsucceeds.isAccounted
    · rw [hoperands] at hitems
      rw [hstore, hscopes] at hbound
      rw [show runOperator .define machine = _ from hrun]
      exact .error (.readOnly hcalls hitems
        ((Kind.ofToken_congr (by decide) _ _ named).trans hname) hbound hreadOnly)
  · exact (runOperator_succeeds hmem (htypes ▸ hfits) hdefine).isAccounted

/-- A table fails to dispatch only where no overload fits. -/
theorem dispatch_accounted {host : HostOperators} {name : Name} {id : TableId}
    {attributes : Attributes} {below : List Token}
    (hitems : state.execution.items = .datum (.table name id) attributes :: below)
    (hserves : (state.store.table id).Serves Registration.standard) :
    ∀ outcome, dispatch host name id state.unscheduled = .finished outcome →
      Accounted state outcome := by
  intro outcome hdispatch
  have hselected : selectOverload name id state.unscheduled = _ := selectOverload_eq name id _
  rw [show state.unscheduled.store = state.store from rfl,
    show state.unscheduled.operands = state.operands from rfl] at hselected
  cases hselect : (state.store.table id).select state.operands.operandTypes with
  | error error =>
    rw [hselect] at hselected
    simp only [dispatch, EStateM.run, hselected] at hdispatch
    obtain rfl := Effect.finished.inj hdispatch
    exact .error (.unmatched hitems hselect (OverloadTree.error_of_selectFrom hselect))
  | ok function =>
    obtain ⟨own, operator, signature, rfl, htakes, hfits⟩ := hserves.select hselect
    rw [hselect] at hselected
    have hmem := htakes.mem_signatures
    have hcall : call host operator (state.unscheduled.holding (.table name id)) =
        .finished (runOperator operator (state.unscheduled.holding (.table name id))) := by
      cases operator with
      | host => cases hmem
      | _ => rfl
    simp only [dispatch, EStateM.run, hselected, Token.function, Token.ofValue, hcall] at hdispatch
    obtain rfl := Effect.finished.inj hdispatch
    have hrun : Accounted state
        (runOperator operator (state.unscheduled.holding (.table name id))) :=
      runOperator_accounted (.table hitems hselect) hmem hfits rfl rfl rfl
    exact hrun.releasing

/-- A token that is pending is executed with a cause for every failure. -/
theorem step_pending_accounted {fresh : Machine} {host : HostOperators} {control : Control}
    {token : Token} (hpoised : Poised (control.push token) state) (htoken : token.Ordinary)
    (hcalls : state.CallsOnly (.installed fresh))
    (hserves : ∀ id : TableId, id.index < fresh.store.tables.size →
      (state.store.table id).Serves Registration.standard) :
    ∀ outcome, step host state = .finished outcome → Accounted state outcome := by
  have hitems : state.execution.items = token :: control.items :=
    congrArg Control.items hpoised.ahead
  have hallowed := hcalls.execution token (by simp [hitems])
  have hbelow := hpoised.unscheduled
  intro outcome hstep
  rw [step, hitems] at hstep
  cases token with
  | void =>
    obtain rfl := Effect.finished.inj hstep
    exact .ok
  | datum value attributes =>
    cases value with
    | name name =>
      obtain rfl := Effect.finished.inj hstep
      exact resolveTop_accounted hitems
    | procedure id body =>
      obtain rfl := Effect.finished.inj hstep
      exact Settles.isAccounted fun _ => hpoised.openFrame _ _
    | litProcedure id body =>
      obtain rfl := Effect.finished.inj hstep
      exact (pushNew_succeeds _ _).isAccounted
    | function name operator =>
      -- Every operator but `exit` is called through a table.
      obtain rfl : operator = .exit := by simpa [Callable.installed] using hallowed.operator
      obtain rfl := Effect.finished.inj hstep
      exact exitLoop_accounted hitems
    | table name id =>
      have hknown : id.index < fresh.store.tables.size := by
        simpa [Callable.installed] using hallowed.table
      exact dispatch_accounted hitems (hserves id hknown) outcome hstep
    | primitive own => exact absurd htoken (Value.not_ordinary_primitive own)
    | callback action =>
      obtain rfl := Effect.finished.inj hstep
      exact (scheduleNew_succeeds _ _).isAccounted
    | integer | double | boolean | string | literal | array | dictionary | mark =>
      obtain rfl := Effect.finished.inj hstep
      exact .ok

end Machine

/-- A statement of such a machine is under way: it stands on what it found, and only what
registration has installed is called. -/
structure Underway (fresh : Machine) (base : Control) (state : Machine) : Prop where
  standing : Standing base state
  calls : state.CallsOnly (.installed fresh)
  serves : ∀ id : TableId, id.index < fresh.store.tables.size →
    (state.store.table id).Serves Registration.standard

namespace Underway

variable {fresh : Machine} {base : Control} {next : Machine} {host : HostOperators}

/-- Whatever is to be done next, only the program itself may fail. -/
theorem step_accounted (hunderway : Underway fresh base state)
    (hload : base.items.length < state.execution.load) :
    ∀ outcome, Machine.step host state = .finished outcome → Accounted state outcome := by
  obtain ⟨pending, frames, hpending, hframes, hpoised⟩ := hunderway.standing
  cases pending with
  | some token =>
    exact Machine.step_pending_accounted hpoised (hpending token rfl) hunderway.calls
      hunderway.serves
  | none =>
    cases frames with
    | nil =>
      have hitems : state.execution.items = base.items := congrArg Control.items hpoised.ahead
      rw [state.execution.load_eq, hitems] at hload
      exact absurd hload (Nat.lt_irrefl _)
    | cons frame rest =>
      intro outcome hstep
      rw [Machine.step_of_enter hpoised.ahead] at hstep
      obtain rfl := Effect.finished.inj hstep
      exact Settles.isAccounted fun _ => hpoised.advance (hframes frame (by simp))

theorem selects (hunderway : Underway fresh base state) {id : TableId}
    (hknown : (Callable.installed fresh).table id) :
    (state.store.table id).SelectsInLanguage := by
  intro operands known operator attributes hselect
  have hindex : id.index < fresh.store.tables.size := by simpa [Callable.installed] using hknown
  obtain ⟨own, selected, signature, hfunction, htakes, -⟩ :=
    (hunderway.serves id hindex).select hselect
  obtain ⟨-, rfl⟩ := Value.function.inj (Token.datum.inj hfunction).1
  have hmem := htakes.mem_signatures
  cases operator with
  | host => cases hmem
  | _ => rfl

theorem evolves_step (hunderway : Underway fresh base state) (host : HostOperators) :
    ∃ outcome, Machine.step host state = .finished outcome ∧
      Leads (.installed fresh) state (fun _ => True) outcome := by
  refine (Evolves.refl hunderway.calls).step (fun operator hallowed => ?_)
    (fun _ => hunderway.selects) host
  obtain rfl : operator = .exit := by simpa [Callable.installed] using hallowed
  rfl

/-- What the host offers makes no difference. -/
theorem step_inert (hunderway : Underway fresh base state) (host : HostOperators) :
    Machine.step host state = Machine.step .inert state := by
  have hcall : ∀ {operator : Operator} {own : Machine}, operator.inLanguage →
      Machine.call host operator own = Machine.call .inert operator own := by
    intro operator own hlanguage
    cases operator with
    | host => cases hlanguage
    | _ => rfl
  unfold Machine.step
  split
  · rfl
  · rfl
  · rename_i value attributes below hitems
    have hallowed := hunderway.calls.execution (.datum value attributes) (by simp [hitems])
    cases value with
    | function name operator =>
      obtain rfl : operator = .exit := by simpa [Callable.installed] using hallowed.operator
      rfl
    | table name id =>
      have hselects : (state.unscheduled.store.table id).SelectsInLanguage :=
        hunderway.selects hallowed.table
      simp only [Machine.dispatch, EStateM.run, Machine.selectOverload_eq]
      cases hselect : (state.unscheduled.store.table id).select
          state.unscheduled.operands.operandTypes with
      | error => rfl
      | ok function =>
        cases function with
        | void => rfl
        | datum own flags =>
          cases own with
          | function known operator => simp only [hcall (hselects _ _ _ _ hselect)]
          | _ => rfl
    | _ => rfl

theorem inert_tame : HostOperators.inert.Tame :=
  fun _ _ _ hpoised => .ok hpoised

/-- A statement that is under way stays so, turn by turn. -/
theorem of_turn (hunderway : Underway fresh base state) (hbase : base.left? = none)
    (hturn : Machine.Turn host base.items.length state next) : Underway fresh base next := by
  obtain ⟨outcome, hfinished, hleads⟩ := hunderway.evolves_step host
  cases hturn with
  | step hload hstep =>
    obtain rfl := Effect.finished.inj (hfinished.symm.trans hstep)
    have hleaves := hunderway.standing.step inert_tame hload
    rw [← hunderway.step_inert host, hstep] at hleaves
    cases hleads with
    | ok _ hevolves =>
      refine ⟨?_, hevolves.calls, fun id hknown => ?_⟩
      · cases hleaves with
        | standing hstanding => exact hstanding
        | departed hdeparted =>
          obtain ⟨outer, hleft, -⟩ := hdeparted
          cases hbase.symm.trans hleft
      · rw [Store.table, hevolves.spared.tables]
        exact hunderway.serves id hknown
  | nested _ hstep => cases hfinished.symm.trans hstep
  | callback hload =>
    have hpoised := hunderway.standing.drained hload
    refine ⟨hpoised.scheduleCallback.standing_pending hpoised.ordinary.callback, ?_,
      hunderway.serves⟩
    have hscheduled := (Evolves.refl hunderway.calls).schedule hunderway.calls.callback
    exact { hscheduled.calls with callback := rfl }

theorem of_turns (hunderway : Underway fresh base state) (hbase : base.left? = none)
    (hturns : ReflTransGen (Machine.Turn host base.items.length) state next) :
    Underway fresh base next := by
  induction hturns with
  | refl => exact hunderway
  | tail _ hturn ih => exact ih.of_turn hbase hturn

end Underway

end Accounting

namespace Machine

variable {config : Config} {fresh machine : Machine} {host : HostOperators} {token : Token}

theorem Standard.underway (hcreate : create config Registration.standard = .ok fresh)
    (hstandard : machine.Standard fresh) (htoken : token.Ordinary)
    (hcalls : token.CallsOnly (.installed fresh)) :
    Underway fresh machine.control (machine.schedule token) where
  standing :=
    ((Poised.schedule ⟨rfl, hstandard.ordinary⟩ token).standing_pending htoken)
  calls := ((Evolves.refl hstandard.calls).schedule hcalls).calls
  serves := fun id hknown => by
    have htable : (machine.schedule token).store.table id = fresh.store.table id :=
      hstandard.tables id hknown
    rw [htable]
    exact serves_of_create hcreate id

/-- A statement that fails has come to a state in which the next step fails with the same
error, and the error has its cause there: it is not that an operator finds an operand of
the wrong type or a frame out of order. -/
theorem execute_error_has_cause (hcreate : create config Registration.standard = .ok fresh)
    (hstandard : machine.Standard fresh) (htoken : token.Ordinary)
    (hcalls : token.CallsOnly (.installed fresh)) {fuel : Nat} {error : Error} {next : Machine}
    (hexecute : execute host fuel token machine = some (.error (.error error) next)) :
    (∀ expected found, error ≠ .typeMismatch expected found) ∧
      ∃ state failed, ReflTransGen (Turn host machine.execution.load) (machine.schedule token)
          state ∧
        step host state = .finished (.error (.error error) failed) ∧ Cause state error := by
  have hload : machine.execution.load = machine.control.items.length :=
    machine.execution.load_eq
  have hbase : machine.control.left? = none := by
    rw [Control.left?_eq_none_iff]
    intro own hmem
    rw [show machine.control.items = [] from hstandard.execution] at hmem
    cases hmem
  obtain ⟨ended, hrun, hended⟩ := Option.map_eq_some_iff.1 hexecute
  obtain ⟨failed, -, rfl, -⟩ := conclude_eq_error hended
  obtain ⟨last, hturns, hends⟩ := exists_run_iff.1 ⟨fuel, hrun⟩
  have hunderway : Underway fresh machine.control last :=
    (hstandard.underway hcreate htoken hcalls).of_turns hbase (hload ▸ hturns)
  cases hends with
  | failed hlast hstep =>
    cases hunderway.step_accounted (hload ▸ hlast) _ hstep with
    | error hcause => exact ⟨hcause.ne_typeMismatch, last, failed, hturns, hstep, hcause⟩
  | nested _ hstep =>
    obtain ⟨outcome, hfinished, -⟩ := hunderway.evolves_step host
    cases hfinished.symm.trans hstep

/-- The error that a run ends with. -/
def error? : Option Outcome → Option Error
  | some (.error (.error error) _) => some error
  | _ => none

theorem error?_eq_some {ended : Option Outcome} {error : Error}
    (herror : error? ended = some error) : ∃ next, ended = some (.error (.error error) next) := by
  unfold error? at herror
  split at herror
  · obtain rfl := Option.some.inj herror
    exact ⟨_, rfl⟩
  · cases herror

/-- In a new machine a number and a truth value are added, which no overload fits. -/
theorem execute_error_has_cause_add :
    ∃ fresh next, create {} Registration.standard = .ok fresh ∧ fresh.Standard fresh ∧
      execute .inert 8 (.procedure ⟨⟨0⟩, [.integer 1, .boolean true, .name "add"]⟩) fresh =
        some (.error (.error (.argumentType 0)) next) ∧
      ∃ state, Cause state (.argumentType 0) := by
  let statement : Token := .procedure ⟨⟨0⟩, [.integer 1, .boolean true, .name "add"]⟩
  have hchecked : (create {} Registration.standard).toOption.any
      (fun fresh => error? (execute .inert 8 statement fresh) == some (.argumentType 0)) =
        true := by
    decide +kernel
  obtain ⟨fresh, hfresh, hfails⟩ := (Option.any_eq_true _ _).1 hchecked
  have hcreate := eq_ok_of_toOption hfresh
  have hstandard := Standard.of_create hcreate
  obtain ⟨next, hexecute⟩ := error?_eq_some (eq_of_beq hfails)
  have hallowed : statement.CallsOnly (.installed fresh) := rfl
  obtain ⟨-, state, -, -, -, hcause⟩ :=
    execute_error_has_cause hcreate hstandard (by decide) hallowed hexecute
  exact ⟨fresh, next, hcreate, hstandard, hexecute, state, hcause⟩

end Machine

end StackLang
