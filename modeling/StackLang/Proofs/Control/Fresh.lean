import StackLang.Proofs.Control.Agreement

/-!
# New machines

Registering operators of the language brings nothing but plain data into the
store, and it schedules nothing.  So a new machine with such operators is idle
and plain.
-/

namespace StackLang

theorem eq_ok_of_toOption {ε α : Type} {result : Except ε α} {value : α}
    (hsome : result.toOption = some value) : result = .ok value := by
  cases result with
  | ok own => exact congrArg Except.ok (Option.some.inj hsome)
  | error => cases hsome

/-- The value and the state of a result that is no failure. -/
def succeeded? {ε σ α : Type} : EStateM.Result ε σ α → Option (α × σ)
  | .ok value state => some (value, state)
  | .error _ _ => none

theorem eq_ok_of_succeeded? {ε σ α : Type} {result : EStateM.Result ε σ α} {value : α}
    {state : σ} (hsome : succeeded? result = some (value, state)) : result = .ok value state := by
  cases result with
  | ok own other =>
    obtain ⟨rfl, rfl⟩ := Prod.mk.inj (Option.some.inj hsome)
    rfl
  | error => cases hsome

theorem Token.isVoid_iff {token : Token} : token.isVoid ↔ token = .void := by
  cases token with
  | void => simp [Token.isVoid]
  | datum => simp [Token.isVoid]

namespace Store

theorem plain_empty : ({} : Store).Plain := by
  constructor
  · intro id token hmem
    simp [dictionary, Dictionary.empty, Dictionary.tokens] at hmem
  · intro id token hmem
    simp [table, OverloadTree.functions] at hmem

theorem Plain.setTable {store : Store} (hplain : store.Plain) (id : TableId)
    {tree : OverloadTree} (htree : ∀ token ∈ tree.functions, token.Plain) :
    (store.setTable id tree).Plain := by
  refine ⟨hplain.dictionaries, fun other token hmem => ?_⟩
  obtain hnew | hold := store.table_setTable id other tree
  · rw [hnew] at hmem
    exact htree token hmem
  · rw [hold] at hmem
    exact hplain.tables other token hmem

theorem Plain.addOverload {store added : Store} (hplain : store.Plain) {id : TableId}
    {signature : Signature} {function : Token} (hfunction : function.Plain) {accepted : Bool}
    (hadd : store.addOverload id signature function = .ok (accepted, added)) : added.Plain := by
  obtain ⟨tree, events, hinsert, rfl⟩ := addOverload_eq_ok hadd
  have htree : ∀ token ∈ tree.functions, token.Plain := by
    intro token hmem
    obtain ⟨-, ⟨hadded, -⟩ | ⟨refusal, -, rfl, -⟩⟩ := OverloadTree.insert_cases hinsert
    · have hperm := (OverloadTree.adds_of_add hadded).functions_perm
      obtain rfl | hold := List.mem_cons.1 (hperm.mem_iff.1 hmem)
      · exact hfunction
      · exact hplain.tables id token hold
    · exact hplain.tables id token hmem
  have hset := hplain.setTable id htree
  rw [reportAll_eq]
  exact ⟨hset.dictionaries, hset.tables⟩

theorem Plain.newDictionary {store : Store} (hplain : store.Plain) :
    store.newDictionary.2.Plain := by
  refine ⟨fun id token hmem => ?_, hplain.tables⟩
  rw [dictionary_newDictionary] at hmem
  exact hplain.dictionaries id token hmem

theorem Plain.newTable {store : Store} (hplain : store.Plain) : store.newTable.2.Plain := by
  refine ⟨hplain.dictionaries, fun id token hmem => ?_⟩
  rw [table_newTable] at hmem
  exact hplain.tables id token hmem

end Store

/-- The registered operator. -/
def Registration.operator : Registration → Operator
  | plain _ operator => operator
  | typed _ _ operator => operator

namespace Machine

/-- Nothing is scheduled, and all data are plain. -/
structure Blank (machine : Machine) : Prop where
  execution : machine.execution.items = []
  plain : machine.Plain

instance (machine : Machine) : Decidable machine.Blank :=
  decidable_of_iff (machine.execution.items.isEmpty ∧ machine.Plain)
    ⟨fun ⟨hempty, hplain⟩ => ⟨List.isEmpty_iff.1 hempty, hplain⟩,
      fun hblank => ⟨List.isEmpty_iff.2 hblank.execution, hblank.plain⟩⟩

theorem Blank.restated {machine next : Machine} (hblank : machine.Blank)
    (hrestated : Restated machine next) : next.Blank where
  execution := by rw [hrestated.execution, hblank.execution]
  plain :=
    { operands := by rw [hrestated.operands]; exact hblank.plain.operands
      callback := by rw [hrestated.callback]; exact hblank.plain.callback
      store := hblank.plain.store.of_quiet_eq hrestated.store }

theorem Blank.withStore {machine : Machine} (hblank : machine.Blank) {store : Store}
    (hplain : store.Plain) : Blank { machine with store } :=
  ⟨hblank.execution, { hblank.plain with store := hplain }⟩

theorem Blank.defineSystem {machine : Machine} (hblank : machine.Blank) (name : Name)
    {token : Token} (htoken : token.Plain) : (defineSystem name token machine).Blank :=
  hblank.withStore (hblank.plain.store.insert _ _ htoken)

/-- If an action of the host succeeds, it leaves a machine with a property. -/
def Keeps {α : Type} (property : Machine → Prop) (action : HostAction α) (machine : Machine) :
    Prop :=
  ∀ value next, action machine = .ok value next → property next

namespace Keeps

variable {α β : Type} {mid property : Machine → Prop} {machine : Machine}

theorem bind {action : HostAction α} {further : α → HostAction β}
    (haction : Keeps mid action machine)
    (hfurther : ∀ value next, mid next → Keeps property (further value) next) :
    Keeps property (action >>= further) machine := by
  intro value next hrun
  simp only [Bind.bind, EStateM.bind] at hrun
  split at hrun
  · rename_i result inner hinner
    exact hfurther result inner (haction result inner hinner) value next hrun
  · cases hrun

theorem pure (hproperty : property machine) (value : α) :
    Keeps property (Pure.pure value : HostAction α) machine := by
  intro result next hrun
  cases hrun
  exact hproperty

theorem of_change {change : Machine → Machine} (hchanged : property (change machine)) :
    Keeps property (modify change) machine := by
  intro value next hrun
  cases hrun
  exact hchanged

/-- What an action does with the machine it reads. -/
theorem of_get {further : Machine → HostAction β}
    (hfurther : Keeps property (further machine) machine) :
    Keeps property (MonadState.get >>= further) machine :=
  hfurther

end Keeps

/-- A property that the single writes of some registrations keep. -/
structure Registrable (registrations : List Registration) (property : Machine → Prop) :
    Prop where
  restated : ∀ {machine next}, property machine → Restated machine next → property next
  newTable : ∀ {machine}, property machine →
    property { machine with store := machine.store.newTable.2 }
  table : ∀ {machine} name {id : TableId}, id.index < machine.store.tables.size →
    property machine →
    property (defineSystem name ((Token.table name id).setWriteable false) machine)
  operator : ∀ {machine name operator}, .plain name operator ∈ registrations →
    property machine →
    property (defineSystem name ((Token.function name operator).setWriteable false) machine)
  overload : ∀ {machine name signature operator id accepted store},
    .typed name signature operator ∈ registrations → property machine →
    machine.store.addOverload id signature (.function name operator) = .ok (accepted, store) →
    property { machine with store }

namespace Registrable

variable {registrations : List Registration} {property : Machine → Prop} {machine : Machine}

theorem reserve (hregistrable : Registrable registrations property) (hproperty : property machine)
    (inHand : List Holding) :
    Keeps (fun next => property next ∧ Restated machine next) (Machine.reserve inHand)
      machine := by
  intro value next hrun
  obtain ⟨other, hgranted, hrestated⟩ | ⟨fault, hrefused, -⟩ := Restated.reserve inHand machine
  · rw [hgranted] at hrun
    cases hrun
    exact ⟨hregistrable.restated hproperty hrestated, hrestated⟩
  · rw [hrefused] at hrun
    cases hrun

/-- A new table may be bound to a name. -/
theorem bindTable (hregistrable : Registrable registrations property)
    (hproperty : property machine) (name : Name) :
    Keeps property (do
      let machine ← get
      let (id, store) := machine.store.newTable
      set { machine with store }
      let token := Token.table name id
      Machine.reserve [.token token]
      modify (Machine.defineSystem name (token.setWriteable false))
      return id) machine := by
  apply Keeps.of_get
  have hadded := hregistrable.newTable hproperty
  refine Keeps.bind (Keeps.of_change  rfl) fun _ next hnext => ?_
  subst hnext
  refine (hregistrable.reserve hadded _).bind fun _ next ⟨hnext, hrestated⟩ => ?_
  have hknown : machine.store.newTable.1.index < next.store.tables.size := by
    have htables : next.store.quiet.tables = machine.store.newTable.2.quiet.tables := by
      rw [hrestated.store]
    rw [show next.store.tables = machine.store.newTable.2.tables from htables]
    simp [Store.newTable]
  exact (Keeps.of_change (hregistrable.table name hknown hnext)).bind fun _ _ hlast =>
    Keeps.pure hlast _

theorem tableFor (hregistrable : Registrable registrations property)
    (hproperty : property machine) (name : Name) :
    Keeps property (Machine.tableFor name) machine := by
  unfold Machine.tableFor
  apply Keeps.of_get
  split
  · exact Keeps.pure hproperty _
  · split
    · rename_i found hfound
      have hreported := hregistrable.restated hproperty
        (.report (.bindingReplaced name found) machine)
      exact (Keeps.of_change hreported).bind fun _ _ hnext => hregistrable.bindTable hnext name
    · exact hregistrable.bindTable hproperty name

theorem registerTyped (hregistrable : Registrable registrations property)
    (hproperty : property machine) {name : Name} {signature : Signature} {operator : Operator}
    (hmem : .typed name signature operator ∈ registrations) :
    Keeps property (Machine.registerTyped name signature operator) machine := by
  refine (hregistrable.tableFor hproperty name).bind fun id next hnext => ?_
  refine (hregistrable.reserve hnext _).bind fun _ next ⟨hnext, _⟩ => Keeps.of_get ?_
  split
  · intro value last hrun
    cases hrun
  · rename_i accepted store hadd
    exact (Keeps.of_change (hregistrable.overload hmem hnext hadd)).bind fun _ _ hlast =>
      Keeps.pure hlast _

theorem install (hregistrable : Registrable registrations property)
    (hproperty : property machine) {registration : Registration}
    (hmem : registration ∈ registrations) :
    Keeps property (Machine.install registration) machine := by
  cases registration with
  | plain name operator =>
    exact (hregistrable.reserve hproperty _).bind fun _ _ ⟨hnext, _⟩ =>
      Keeps.of_change (hregistrable.operator hmem hnext)
  | typed name signature operator =>
    intro value next hrun
    simp only [Machine.install, Functor.discard, Functor.mapConst, Function.comp, Function.const,
      EStateM.map] at hrun
    split at hrun
    · rename_i accepted last hregister
      cases hrun
      exact hregistrable.registerTyped hproperty hmem _ _ hregister
    · cases hrun

theorem installAll (hregistrable : Registrable registrations property)
    (hproperty : property machine) {wanted : List Registration} (hsubset : wanted ⊆ registrations) :
    Keeps property (wanted.forM Machine.install) machine := by
  induction wanted generalizing machine with
  | nil => exact Keeps.pure hproperty ()
  | cons registration rest ih =>
    refine (hregistrable.install hproperty (hsubset (by simp))).bind fun _ _ hnext => ?_
    exact ih hnext fun other hmem => hsubset (by simp [hmem])

/-- What a bare machine has and the registrations keep, a new machine has. -/
theorem of_create (hregistrable : Registrable registrations property) {config : Config}
    (hbare : property (bare config)) (hcreate : create config registrations = .ok machine) :
    property machine := by
  simp only [create, Bind.bind, Except.bind] at hcreate
  split at hcreate
  · cases hcreate
  · split at hcreate
    · rename_i next hrun
      obtain rfl := Except.ok.inj hcreate
      exact hregistrable.installAll hbare (List.Subset.refl _) _ _ hrun
    · cases hcreate

end Registrable

/-- Registering operators of the language keeps a machine blank. -/
theorem Blank.registrable {registrations : List Registration}
    (hlanguage : ∀ registration ∈ registrations, ∀ own, registration.operator ≠ .host own) :
    Registrable registrations Blank := by
  have hplain : ∀ {name : Name} {operator : Operator}, (∀ own, operator ≠ .host own) →
      (Token.function name operator).Plain := by
    intro name operator hoperator
    cases operator with
    | host own => exact absurd rfl (hoperator own)
    | _ => rfl
  exact
    { restated := Blank.restated
      newTable := fun hblank => hblank.withStore hblank.plain.store.newTable
      table := fun name _ _ hblank => hblank.defineSystem name rfl
      operator := fun hmem hblank => hblank.defineSystem _
        (Token.plain_setWriteable.2 (hplain (hlanguage _ hmem)))
      overload := fun hmem hblank hadd => hblank.withStore
        (hblank.plain.store.addOverload (hplain (hlanguage _ hmem)) hadd) }

theorem blank_bare (config : Config) : (bare config).Blank where
  execution := rfl
  plain :=
    { operands := by
        intro token hmem
        cases hmem
      callback := rfl
      store := (Store.plain_empty.newDictionary.newDictionary).report _ }

/-- A new machine without operators of the host is blank. -/
theorem blank_of_create {config : Config} {registrations : List Registration}
    {machine : Machine}
    (hlanguage : ∀ registration ∈ registrations, ∀ own, registration.operator ≠ .host own)
    (hcreate : create config registrations = .ok machine) : machine.Blank :=
  (Blank.registrable hlanguage).of_create (blank_bare config) hcreate

/-- A new machine with the operators of the language is blank. -/
theorem blank_of_create_standard {config : Config} {machine : Machine}
    (hcreate : create config Registration.standard = .ok machine) : machine.Blank := by
  refine blank_of_create ?_ hcreate
  simp [Registration.standard, Registration.operator]

/-- A new machine whose pools cannot grow, with operands that were made one after the other. -/
def Crowded (drafts : List Draft) (machine : Machine) : Prop :=
  ∃ fresh tokens made, create { pools := ⟨32, 2 ^ 60⟩ } Registration.standard = .ok fresh ∧
    makeAll drafts fresh = .ok tokens made ∧
    machine = { made with operands := made.operands.pushAll tokens }

theorem exists_crowded (drafts : List Draft) (test : Machine → Bool)
    (hchecked : (create { pools := ⟨32, 2 ^ 60⟩ } Registration.standard).toOption.any
      (fun fresh => (succeeded? (makeAll drafts fresh)).any fun made =>
        decide ({ made.2 with operands := made.2.operands.pushAll made.1 } : Machine).Blank &&
          test { made.2 with operands := made.2.operands.pushAll made.1 }) = true) :
    ∃ machine, Crowded drafts machine ∧ machine.Blank ∧ test machine = true := by
  obtain ⟨fresh, hfresh, hmade⟩ := (Option.any_eq_true _ _).1 hchecked
  obtain ⟨⟨tokens, made⟩, hmake, htested⟩ := (Option.any_eq_true _ _).1 hmade
  obtain ⟨hblank, htest⟩ := Bool.and_eq_true_iff.1 htested
  exact ⟨_, ⟨fresh, tokens, made, eq_ok_of_toOption hfresh, eq_ok_of_succeeded? hmake, rfl⟩,
    of_decide_eq_true hblank, htest⟩

/-- A machine without operators, with a dictionary that is stored in itself inside an array. -/
def entangled : Machine where
  store := ({ dictionaries := #[.empty, .empty, .empty] } : Store).insert ⟨2⟩ "k"
    (.ofValue (.array [.ofValue (.dictionary (.owned ⟨2⟩))]))
  scopes := ⟨⟨0⟩, ⟨1⟩, []⟩

/-- A handle of the dictionary that is stored in itself. -/
def knot : Token :=
  .ofValue (.dictionary (.owned ⟨2⟩))

theorem blank_entangled : entangled.Blank := by
  decide +kernel

/-- A new machine with the operators of the language, for which nothing else has been chosen:
it has no operands and no callback, its pools can grow, and it is not in step mode. -/
structure IsNew (machine : Machine) : Prop where
  created : create {} Registration.standard = .ok machine
  operands : machine.operands.items = []
  callback : machine.callback = .void
  room : machine.room = none
  stepMode : machine.config.stepMode = false

theorem exists_new : ∃ fresh, IsNew fresh := by
  have hchecked : (create {} Registration.standard).toOption.any (fun fresh =>
      fresh.operands.items.isEmpty && fresh.callback.isVoid && fresh.room.isNone &&
        fresh.config.stepMode == false) = true := by
    decide +kernel
  obtain ⟨fresh, hfresh, htested⟩ := (Option.any_eq_true _ _).1 hchecked
  simp only [Bool.and_eq_true, and_assoc] at htested
  obtain ⟨hempty, hvoid, hroom, hstep⟩ := htested
  exact ⟨fresh,
    { created := eq_ok_of_toOption hfresh
      operands := List.isEmpty_iff.1 hempty
      callback := Token.isVoid_iff.1 hvoid
      room := Option.isNone_iff_eq_none.1 hroom
      stepMode := eq_of_beq hstep }⟩

theorem IsNew.blank {machine : Machine} (hnew : machine.IsNew) : machine.Blank :=
  blank_of_create_standard hnew.created

end Machine

end StackLang
