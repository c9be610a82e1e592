import StackLang.Proofs.Control.Evolution
import StackLang.Proofs.Control.Statements

/-!
# Read-only bindings

A program binds names in the innermost dictionary only, and what is bound read-only there
it cannot bind anew.  So as long as all operators are those of the language, everything
that a host puts under a read-only binding stays there, whatever statements it runs.
-/

namespace StackLang

open Relation (ReflTransGen)

/-- The operators in the overload tables are those of the language. -/
def Store.TablesInLanguage (store : Store) : Prop :=
  ∀ id, ∀ token ∈ (store.table id).functions, token.CallsOnly .language

instance (store : Store) : Decidable store.TablesInLanguage :=
  decidable_of_iff' _ Store.forall_functions_iff

theorem Store.TablesInLanguage.selects {store : Store} (htables : store.TablesInLanguage)
    (id : TableId) : (store.table id).SelectsInLanguage := by
  intro operands known operator attributes hselect
  exact (htables id _ (OverloadTree.mem_functions_of_select hselect)).operator

/-- The only operators that a machine has are those of the language. -/
structure Machine.InLanguage (machine : Machine) : Prop where
  calls : machine.CallsOnly .language
  tables : machine.store.TablesInLanguage

instance (machine : Machine) : Decidable machine.InLanguage :=
  decidable_of_iff (machine.CallsOnly .language ∧ machine.store.TablesInLanguage)
    ⟨fun ⟨hcalls, htables⟩ => ⟨hcalls, htables⟩, fun hlanguage =>
      ⟨hlanguage.calls, hlanguage.tables⟩⟩

theorem Token.Plain.callsOnly {token : Token} (hplain : token.Plain) :
    token.CallsOnly .language := by
  refine Token.every_mono (fun value hvalue => ?_) token hplain
  cases value with
  | function name operator =>
    cases operator with
    | host own => cases hvalue
    | _ => rfl
  | _ => rfl

/-- A machine with plain data and nothing scheduled has no other operators. -/
theorem Machine.Blank.inLanguage {machine : Machine} (hblank : machine.Blank) :
    machine.InLanguage where
  calls :=
    { operands := fun token hmem => (hblank.plain.operands token hmem).callsOnly
      execution := by simp [hblank.execution]
      callback := hblank.plain.callback.callsOnly
      store := fun id token hmem => (hblank.plain.store.dictionaries id token hmem).callsOnly }
  tables := fun id token hmem => (hblank.plain.store.tables id token hmem).callsOnly

namespace Machine

/-- What may happen to a machine between two points of the runs of a host: the host hands
over data or a statement, a run makes a turn, or a step fails and the statement is given
up, or faults. -/
inductive Progress (host : HostOperators) : Machine → Machine → Prop where
  | prepared {machine next : Machine} (hstore : next.store = machine.store)
    (hscopes : next.scopes = machine.scopes)
    (hcalls : next.CallsOnly .language) : Progress host machine next
  | turn {machine next : Machine} {base : Nat} (hturn : Turn host base machine next) :
    Progress host machine next
  | failed {machine next last : Machine} {error : Error} {failure : Failure} {base depth : Nat}
    (hstep : step host machine = .finished (.error (.error error) next))
    (habandon : abandon base depth error next = .error failure last) :
    Progress host machine last
  | faulted {machine next : Machine} {fault : Fault}
    (hstep : step host machine = .finished (.error (.fault fault) next)) :
    Progress host machine next

variable {host : HostOperators} {machine next : Machine}

theorem InLanguage.step (hlanguage : machine.InLanguage) (host : HostOperators) :
    ∃ outcome, Machine.step host machine = .finished outcome ∧
      Leads .language machine (fun _ => True) outcome :=
  (Evolves.refl hlanguage.calls).step (fun _ hallowed => hallowed)
    (fun id _ => hlanguage.tables.selects id) host

theorem InLanguage.of_persists (hlanguage : machine.InLanguage)
    (hpersists : Persists .language machine next) : next.InLanguage where
  calls := hpersists.calls
  tables := by
    have htable : ∀ id, next.store.table id = machine.store.table id := by
      intro id
      rw [Store.table, Store.table, hpersists.spared.tables]
    intro id token hmem
    rw [htable] at hmem
    exact hlanguage.tables id token hmem

/-- The machine that an outcome leaves. -/
def ended : Outcome → Machine
  | .ok _ machine => machine
  | .error _ machine => machine

/-- A step leaves the callback alone. -/
theorem InLanguage.of_step (hlanguage : machine.InLanguage) {outcome : Outcome}
    (hstep : Machine.step host machine = .finished outcome) :
    (ended outcome).InLanguage ∧ (ended outcome).callback = machine.callback := by
  obtain ⟨other, hfinished, hleads⟩ := hlanguage.step host
  obtain rfl := Effect.finished.inj (hfinished.symm.trans hstep)
  cases hleads with
  | ok _ hevolves | error hevolves =>
    exact ⟨hlanguage.of_persists hevolves.toPersists, hevolves.callback⟩

/-- Above its base a run of a machine of the language just steps. -/
theorem InLanguage.step_of_turn {base : Nat} (hlanguage : machine.InLanguage)
    (hload : base < machine.execution.load) (hturn : Turn host base machine next) :
    Machine.step host machine = .finished (.ok () next) ∧ next.InLanguage := by
  obtain ⟨outcome, hfinished, -⟩ := hlanguage.step host
  cases hturn with
  | step _ hstep => exact ⟨hstep, (hlanguage.of_step hstep).1⟩
  | nested _ hstep => cases hfinished.symm.trans hstep
  | callback hdrained => exact absurd hload hdrained

theorem InLanguage.persists_abandon (hlanguage : machine.InLanguage) {base depth : Nat}
    {error : Error} {failure : Failure}
    (habandon : abandon base depth error machine = .error failure next) :
    Persists .language machine next := by
  rw [abandon_eq] at habandon
  split at habandon <;> cases habandon
  · exact ⟨rfl, Store.spares_of_quiet rfl, { hlanguage.calls with }⟩
  · exact ⟨rfl, Store.spares_of_quiet rfl, { hlanguage.calls with
      execution := fun token hmem =>
        hlanguage.calls.execution token (List.mem_of_mem_drop hmem) }⟩

theorem Turn.persists {base : Nat} (hturn : Turn host base machine next)
    (hlanguage : machine.InLanguage) : Persists .language machine next := by
  obtain ⟨outcome, hfinished, hleads⟩ := hlanguage.step host
  cases hturn with
  | step _ hstep =>
    obtain rfl := Effect.finished.inj (hfinished.symm.trans hstep)
    cases hleads with
    | ok _ hevolves => exact hevolves.toPersists
  | nested _ hstep => cases hfinished.symm.trans hstep
  | callback =>
    have hscheduled := (Evolves.refl hlanguage.calls).schedule hlanguage.calls.callback
    exact ⟨hscheduled.scopes, hscheduled.spared, { hscheduled.calls with callback := rfl }⟩

theorem Progress.persists (hprogress : Progress host machine next)
    (hlanguage : machine.InLanguage) : Persists .language machine next := by
  obtain ⟨outcome, hfinished, hleads⟩ := hlanguage.step host
  cases hprogress with
  | prepared hstore hscopes hcalls =>
    exact ⟨hscopes, by rw [hstore]; exact .refl _ _, hcalls⟩
  | turn hturn => exact hturn.persists hlanguage
  | failed hstep habandon =>
    obtain rfl := Effect.finished.inj (hfinished.symm.trans hstep)
    cases hleads with
    | error hevolves =>
      have hpersists := hevolves.toPersists
      exact hpersists.trans ((hlanguage.of_persists hpersists).persists_abandon habandon)
  | faulted hstep =>
    obtain rfl := Effect.finished.inj (hfinished.symm.trans hstep)
    cases hleads with
    | error hevolves => exact hevolves.toPersists

/-- Through all that happens the dictionaries are spared. -/
theorem persists_of_progress (hprogress : ReflTransGen (Progress host) machine next)
    (hlanguage : machine.InLanguage) : Persists .language machine next := by
  induction hprogress with
  | refl => exact .refl hlanguage.calls
  | tail _ hprogress ih => exact ih.trans (hprogress.persists (hlanguage.of_persists ih))

/-! ## Attempts to bind a name anew -/

theorem runDefine_eq {token named : Token} {below : List Token} {name : Name}
    (hitems : machine.operands.items = token :: named :: below)
    (hname : Kind.name.ofToken machine.isAlive named = .ok name) :
    runDefine machine =
      define name token { machine with operands := (machine.operands.dropTop 1).dropTop 1 } := by
  have hload : ¬ machine.operands.load < 2 := by
    rw [machine.operands.load_eq, hitems]
    simp
  have hpick : machine.operands.pick 1 = .ok named := by
    rw [TokenStack.pick, hitems]
    rfl
  simp only [runDefine, bind, EStateM.bind, get, getThe, MonadStateOf.get, EStateM.get,
    TokenStack.require, hload, if_false, orFail, pure, EStateM.pure, hpick, hname, pop_eq,
    hitems, Functor.discard, Functor.mapConst, Function.comp, Function.const, EStateM.map,
    TokenStack.items_dropTop, List.drop_succ_cons, List.drop_zero]

theorem define_readOnly {token bound : Token} {name : Name}
    (hbound : (machine.store.dictionary machine.scopes.top).peek? name = some bound)
    (hreadOnly : bound.isReadOnly) :
    define name token machine = .error (.error (.readOnly name.text)) machine := by
  simp only [define, bind, EStateM.bind, get, getThe, MonadStateOf.get, EStateM.get, hbound,
    hreadOnly, if_true]
  rfl

/-- An attempt to bind anew what is bound read-only fails and changes no dictionary. -/
theorem step_define_readOnly {token named bound : Token} {below : List Token} {name : Name}
    (hcalls : machine.Calls .define)
    (hitems : machine.operands.items = token :: named :: below)
    (hname : Kind.name.ofToken machine.isAlive named = .ok name)
    (hbound : (machine.store.dictionary machine.scopes.top).peek? name = some bound)
    (hreadOnly : bound.isReadOnly) :
    ∃ next, step host machine = .finished (.error (.error (.readOnly name.text)) next) ∧
      next.store = machine.store := by
  have hrun : ∀ own : Machine, own.operands = machine.operands → own.store = machine.store →
      own.scopes = machine.scopes → ∃ next,
        runDefine own = .error (.error (.readOnly name.text)) next ∧
          next.store = machine.store := by
    intro own hoperands hstore hscopes
    rw [runDefine_eq (by rw [hoperands]; exact hitems)
        ((Kind.ofToken_congr (by decide) _ _ named).trans hname),
      define_readOnly (by rw [hstore, hscopes]; exact hbound) hreadOnly]
    exact ⟨_, rfl, hstore⟩
  obtain hstep | ⟨own, id, hstep⟩ := hcalls.step_eq host
  · obtain ⟨next, hrefused, hstore⟩ := hrun machine.unscheduled rfl rfl rfl
    exact ⟨next, hstep.trans (congrArg Effect.finished hrefused), hstore⟩
  · obtain ⟨next, hrefused, hstore⟩ :=
      hrun (machine.unscheduled.holding (.table own id)) rfl rfl rfl
    exact ⟨next.releasing, hstep.trans
      (congrArg (fun outcome => Effect.finished (mapOutcome releasing outcome)) hrefused), hstore⟩

/-- Between any two points of the runs of any statements with the operators of the
language, a read-only binding stays, in whatever dictionary it is, and so do all bindings
of the dictionaries that are not the innermost one.  An attempt to bind anew what is bound
read-only in the innermost dictionary fails and changes no dictionary. -/
theorem readOnly_bindings_last (hlanguage : machine.InLanguage)
    (hprogress : ReflTransGen (Progress host) machine next) :
    next.scopes = machine.scopes ∧
      (∀ id ≠ machine.scopes.top,
        (next.store.dictionary id).bindings = (machine.store.dictionary id).bindings) ∧
      ∀ id name bound, (machine.store.dictionary id).peek? name = some bound →
        bound.isReadOnly →
        (next.store.dictionary id).peek? name = some bound ∧
          ∀ token named below, id = next.scopes.top → next.Calls .define →
            next.operands.items = token :: named :: below →
            Kind.name.ofToken next.isAlive named = .ok name →
            ∃ last, step host next = .finished (.error (.error (.readOnly name.text)) last) ∧
              last.store = next.store := by
  have hpersists := persists_of_progress hprogress hlanguage
  refine ⟨hpersists.scopes, hpersists.spared.others, fun id name bound hbound hreadOnly => ?_⟩
  have hlasts := hpersists.spared.readOnly id name bound hbound hreadOnly
  refine ⟨hlasts, fun token named below hid hcalls hitems hname => ?_⟩
  exact step_define_readOnly hcalls hitems hname (hid ▸ hlasts) hreadOnly

/-- A name is looked up that is bound to the operator for definitions, and the operator is
then called for a name that the host has bound read-only. -/
theorem readOnly_bindings_last_looked_up :
    ∃ machine next : Machine, machine.InLanguage ∧
      ReflTransGen (Progress .inert) machine next ∧ next.Calls .define ∧
      ∃ last, step .inert next = .finished (.error (.error (.readOnly "k")) last) ∧
        last.store = next.store := by
  let store : Store := { dictionaries :=
    #[Dictionary.empty.insert "def" (.function "def" .define),
      Dictionary.empty.insert "k" ((Token.integer 1).setWriteable false)] }
  let machine : Machine := { store, scopes := { system := ⟨0⟩, user := ⟨1⟩ } }
  let started := ((machine.push (.literal "k")).push (.integer 2)).schedule (.name "def")
  let next : Machine := { started with
    store := store.touch ⟨0⟩ "def"
    execution := { started.execution with items := [.function "def" .define] } }
  have hlanguage : machine.InLanguage := by decide
  have hprepared : Progress .inert machine started := .prepared rfl rfl (by decide)
  have hstep : step .inert started = .finished (.ok () next) := rfl
  have hprogress : ReflTransGen (Progress .inert) machine next :=
    .tail (.single hprepared) (.turn (.step (Nat.zero_lt_one) hstep))
  obtain ⟨-, -, hkept⟩ := readOnly_bindings_last hlanguage hprogress
  obtain ⟨-, hrefused⟩ := hkept ⟨1⟩ "k" ((Token.integer 1).setWriteable false) rfl rfl
  exact ⟨machine, next, hlanguage, hprogress, .function rfl,
    hrefused (.integer 2) (.literal "k") [] rfl (.function rfl) rfl rfl⟩

end Machine

end StackLang
