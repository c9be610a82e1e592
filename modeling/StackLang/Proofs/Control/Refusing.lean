import StackLang.Proofs.Control.Causes

/-!
# What operators that fail have taken

An operator that no overload is selected for, or that leaves a loop where there is none,
fails before it takes anything from the operand stack.  One that is selected finds the
operands that it takes and does not fail any more, with one exception: the operator that
binds names takes its operands first and looks at the binding afterwards.  Where that is
read-only it fails, and the two operands are gone.
-/

namespace StackLang

/-! ## What the names of a new machine are bound to -/

/-- The token calls an operator that registration has installed: the one that leaves loops,
or what an overload table selects. -/
inductive Token.Installed (fresh : Machine) : Token → Prop where
  | exit {name : Name} {attributes : Attributes} :
    Installed fresh (.datum (.function name .exit) attributes)
  | table {name : Name} {id : TableId} {attributes : Attributes}
    (hlt : id.index < fresh.store.tables.size) :
    Installed fresh (.datum (.table name id) attributes)

namespace Token.Installed

variable {fresh next : Machine} {token : Token}

theorem mono (hinstalled : token.Installed fresh)
    (hsize : fresh.store.tables.size ≤ next.store.tables.size) : token.Installed next := by
  cases hinstalled with
  | exit => exact .exit
  | table hlt => exact .table (Nat.lt_of_lt_of_le hlt hsize)

theorem setWriteable (hinstalled : token.Installed fresh) (writeable : Bool) :
    (token.setWriteable writeable).Installed fresh := by
  cases hinstalled with
  | exit => exact .exit
  | table hlt => exact .table hlt

theorem no_handle (hinstalled : token.Installed fresh) : token.ownedDictionary? = none := by
  cases hinstalled <;> rfl

end Token.Installed

namespace Machine

variable {machine fresh : Machine}

/-- All names are bound to installed operators. -/
def BindsInstalled (machine : Machine) : Prop :=
  ∀ id, ∀ token ∈ (machine.store.dictionary id).tokens, token.Installed machine

theorem bindsInstalled_withStore {store : Store}
    (htokens : ∀ id, ∀ token ∈ (store.dictionary id).tokens, token.Installed machine)
    (hsize : machine.store.tables.size ≤ store.tables.size) :
    BindsInstalled { machine with store } :=
  fun id token hmem => (htokens id token hmem).mono hsize

theorem BindsInstalled.defineSystem (hbinds : machine.BindsInstalled) (name : Name) {token : Token}
    (htoken : token.Installed machine) : (defineSystem name token machine).BindsInstalled := by
  refine bindsInstalled_withStore (fun id bound hmem => ?_) (by rw [Store.tables_insert])
  obtain hold | ⟨-, rfl⟩ := Store.mem_tokens_of_insert hmem
  · exact hbinds id bound hold
  · rw [Store.accepted_of_no_handle htoken.no_handle]
    exact htoken

theorem bindsInstalled_registrable : Registrable Registration.standard BindsInstalled where
  restated := fun {machine next} hbinds hnext id token hmem => by
    have hdictionary : next.store.quiet.dictionary id = machine.store.quiet.dictionary id := by
      rw [hnext.store]
    have htables : next.store.quiet.tables = machine.store.quiet.tables := by rw [hnext.store]
    have hold : token ∈ (machine.store.dictionary id).tokens := by
      rw [show next.store.dictionary id = machine.store.dictionary id from hdictionary] at hmem
      exact hmem
    exact (hbinds id token hold).mono (Nat.le_of_eq (congrArg Array.size htables).symm)
  newTable := fun hbinds => bindsInstalled_withStore hbinds (by simp [Store.newTable])
  table := fun name _ hlt hbinds =>
    hbinds.defineSystem name ((Token.Installed.table hlt).setWriteable false)
  operator := fun {machine name operator} hmem hbinds => by
    obtain rfl : operator = .exit := by
      simp [Registration.standard] at hmem
      exact hmem.2
    exact hbinds.defineSystem name (Token.Installed.exit.setWriteable false)
  overload := fun {machine name signature operator id accepted store} _ hbinds hadd => by
    obtain ⟨hdictionaries, hsize⟩ := Store.shape_of_addOverload hadd
    refine bindsInstalled_withStore (fun id token hmem => hbinds id token ?_)
      (Nat.le_of_eq hsize.symm)
    rwa [Store.dictionary, hdictionaries] at hmem

/-- What a new machine binds a name to calls an installed operator. -/
theorem installed_of_create {config : Config}
    (hcreate : create config Registration.standard = .ok fresh) {id : DictId} {name : Name}
    {token : Token} (hbound : (fresh.store.dictionary id).peek? name = some token) :
    token.Installed fresh := by
  have hbinds : fresh.BindsInstalled := by
    refine bindsInstalled_registrable.of_create (fun id token hmem => ?_) hcreate
    rw [tokens_bare] at hmem
    cases hmem
  obtain ⟨slot, hslot, rfl⟩ := Option.map_eq_some_iff.1 hbound
  exact hbinds id slot.token (Dictionary.mem_tokens_of_get? hslot)

end Machine

/-! ## What is left of the operands -/

/-- An outcome is no failure, or one that has left all operands.  Only an attempt to bind a
read-only name anew has taken two of them. -/
inductive LeavesOperands {α : Type} (operands : TokenStack) :
    EStateM.Result Failure Machine α → Prop where
  | ok {value : α} {machine : Machine} : LeavesOperands operands (.ok value machine)
  | error {error : Error} {machine : Machine} (hkind : ∀ name, error ≠ .readOnly name)
    (hoperands : machine.operands = operands) :
    LeavesOperands operands (.error (.error error) machine)
  | readOnly {name : String} {machine : Machine}
    (hoperands : machine.operands = operands.dropTop 2) :
    LeavesOperands operands (.error (.error (.readOnly name)) machine)
  | fault {fault : Fault} {machine : Machine} :
    LeavesOperands operands (.error (.fault fault) machine)

namespace LeavesOperands

variable {α : Type} {operands : TokenStack} {machine : Machine}

theorem of_succeeds {post : α → Machine → Prop} {result : EStateM.Result Failure Machine α}
    (hsucceeds : Succeeds post result) : LeavesOperands operands result := by
  cases hsucceeds with
  | ok => exact .ok
  | fault => exact .fault

theorem releasing {outcome : Outcome} (hleaves : LeavesOperands operands outcome) :
    LeavesOperands operands (Machine.mapOutcome Machine.releasing outcome) := by
  cases hleaves with
  | ok => exact .ok
  | error hkind hoperands => exact .error hkind hoperands
  | readOnly hoperands => exact .readOnly hoperands
  | fault => exact .fault

/-- Binding a name takes both operands before it finds that the name is bound read-only. -/
theorem runDefine {operand : Option TypeTag} {below : List (Option TypeTag)}
    (htypes : machine.operandTypes = operand :: some .literal :: below) :
    LeavesOperands machine.operands (Machine.runDefine machine) := by
  obtain hsucceeds | ⟨token, named, last, name, bound, -, hitems, hname, hbound, hreadOnly, -⟩ :=
    Machine.runDefine_cases htypes
  · exact of_succeeds hsucceeds
  · have hrun : Machine.runDefine machine = .error (.error (.readOnly name.text))
        { machine with operands := (machine.operands.dropTop 1).dropTop 1 } :=
      (Machine.runDefine_eq hitems hname).trans (Machine.define_readOnly hbound hreadOnly)
    rw [hrun]
    apply LeavesOperands.readOnly
    simp [TokenStack.dropTop, Nat.sub_sub]

/-- An operator that was selected by the types of the operands fails only in binding a name. -/
theorem runOperator {operator : Operator} {signature : Signature}
    (hmem : signature ∈ operator.signatures) (hfits : signature.Fits machine.operandTypes) :
    LeavesOperands machine.operands (Machine.runOperator operator machine) := by
  by_cases hdefine : operator = .define
  · subst hdefine
    obtain rfl := List.mem_singleton.1 hmem
    obtain ⟨tag, below, hupper, hbelow⟩ := Signature.fits_any.1 hfits
    obtain ⟨rest, rfl, -⟩ := Signature.fits_exactly.1 hbelow
    exact runDefine hupper
  · exact of_succeeds (Machine.runOperator_succeeds hmem hfits hdefine)

theorem exitLoop : LeavesOperands machine.operands (Machine.exitLoop machine) := by
  cases hleft : machine.control.left? with
  | none =>
    rw [Machine.exitLoop_eq_error hleft]
    exact .error (fun _ => Error.noConfusion) rfl
  | some outer =>
    obtain ⟨execution, -, hrun⟩ := Machine.exitLoop_eq_ok hleft
    rw [hrun]
    exact .ok

/-- A table that finds no overload takes nothing, and what it selects finds its operands. -/
theorem dispatch {host : HostOperators} {name : Name} {id : TableId}
    (hserves : (machine.store.table id).Serves Registration.standard) {outcome : Outcome}
    (hdispatch : Machine.dispatch host name id machine = .finished outcome) :
    LeavesOperands machine.operands outcome := by
  simp only [Machine.dispatch, EStateM.run, Machine.selectOverload_eq] at hdispatch
  cases hselect : (machine.store.table id).select machine.operands.operandTypes with
  | error error =>
    rw [hselect] at hdispatch
    obtain rfl := Effect.finished.inj hdispatch
    refine .error (fun own => ?_) rfl
    obtain ⟨_, _, rfl⟩ | ⟨_, rfl⟩ := OverloadTree.error_of_selectFrom hselect <;>
      exact Error.noConfusion
  | ok function =>
    obtain ⟨own, operator, signature, rfl, htakes, hfits⟩ := hserves.select hselect
    have hmem := htakes.mem_signatures
    have hcall : Machine.call host operator (machine.holding (.table name id)) =
        .finished (Machine.runOperator operator (machine.holding (.table name id))) := by
      cases operator with
      | host => cases hmem
      | _ => rfl
    simp only [hselect, Token.function, Token.ofValue, hcall] at hdispatch
    obtain rfl := Effect.finished.inj hdispatch
    have hheld : signature.Fits (machine.holding (.table name id)).operandTypes := hfits
    exact (runOperator hmem hheld).releasing

end LeavesOperands

namespace Machine

variable {config : Config} {fresh machine failed : Machine} {host : HostOperators}
  {name : Name} {token : Token} {below : List Token} {error : Error}

/-- Whatever the machine is about to do and whatever it holds, when a standard operator has
been looked up by its name and the step that calls it fails, then for one of the causes, and
the operands are as they were before the step.  Only an attempt to bind anew what is bound
read-only has taken its two operands. -/
theorem step_error_operands (hcreate : create config Registration.standard = .ok fresh)
    (hbound : (fresh.store.dictionary fresh.scopes.system).peek? name = some token)
    (htables : ∀ id : TableId, id.index < fresh.store.tables.size →
      machine.store.table id = fresh.store.table id)
    (hitems : machine.execution.items = token :: below)
    (hstep : step host machine = .finished (.error (.error error) failed)) :
    Cause machine error ∧
      ((∀ own, error ≠ .readOnly own) → failed.operands = machine.operands) ∧
      ((∃ own, error = .readOnly own) → failed.operands = machine.operands.dropTop 2) := by
  obtain ⟨haccounted, hleaves⟩ : Accounted machine (.error (.error error) failed : Outcome) ∧
      LeavesOperands machine.operands (.error (.error error) failed : Outcome) := by
    cases installed_of_create hcreate hbound with
    | exit =>
      have hleaves : LeavesOperands machine.unscheduled.operands (exitLoop machine.unscheduled) :=
        .exitLoop
      rw [step, hitems] at hstep
      rw [← Effect.finished.inj hstep]
      exact ⟨exitLoop_accounted hitems, hleaves⟩
    | @table own id attributes hlt =>
      have hserves : (machine.unscheduled.store.table id).Serves Registration.standard := by
        rw [show machine.unscheduled.store = machine.store from rfl, htables id hlt]
        exact serves_of_create hcreate id
      rw [step, hitems] at hstep
      exact ⟨dispatch_accounted hitems hserves _ hstep, LeavesOperands.dispatch hserves hstep⟩
  cases haccounted with
  | error hcause =>
    refine ⟨hcause, fun hkind => ?_, ?_⟩
    · cases hleaves with
      | error _ hoperands => exact hoperands
      | readOnly => exact absurd rfl (hkind _)
    · rintro ⟨own, hown⟩
      cases hleaves with
      | error hkind => exact absurd hown (hkind own)
      | readOnly hoperands => exact hoperands

/-- The error that a step fails with, and the machine that it leaves. -/
def failure? : Effect → Option (Error × Machine)
  | .finished (.error (.error error) failed) => some (error, failed)
  | _ => none

theorem failure?_eq_some {effect : Effect} (hfailure : failure? effect = some (error, failed)) :
    effect = .finished (.error (.error error) failed) := by
  unfold failure? at hfailure
  split at hfailure
  · obtain ⟨rfl, rfl⟩ := Prod.mk.inj (Option.some.inj hfailure)
    rfl
  · cases hfailure

/-- In a new machine a number and a truth value are to be added.  No overload fits, and both
stay where they are. -/
theorem step_error_operands_add :
    ∃ fresh token failed, create {} Registration.standard = .ok fresh ∧
      (fresh.store.dictionary fresh.scopes.system).peek? "add" = some token ∧
      let machine := ((fresh.push (.integer 1)).push (.boolean true)).schedule token
      step .inert machine = .finished (.error (.error (.argumentType 0)) failed) ∧
        failed.operands = machine.operands := by
  have hchecked : (create {} Registration.standard).toOption.any (fun fresh =>
      ((fresh.store.dictionary fresh.scopes.system).peek? "add").any fun token =>
        (failure? (step .inert
          (((fresh.push (.integer 1)).push (.boolean true)).schedule token))).any fun failure =>
            decide (failure.1 = .argumentType 0)) = true := by
    decide +kernel
  obtain ⟨fresh, hfresh, hfound⟩ := (Option.any_eq_true _ _).1 hchecked
  obtain ⟨token, hbound, hfails⟩ := (Option.any_eq_true _ _).1 hfound
  obtain ⟨⟨error, failed⟩, hfailure, herror⟩ := (Option.any_eq_true _ _).1 hfails
  obtain rfl : error = .argumentType 0 := of_decide_eq_true herror
  have hcreate := eq_ok_of_toOption hfresh
  have hstep := failure?_eq_some hfailure
  let machine := ((fresh.push (.integer 1)).push (.boolean true)).schedule token
  have htables : ∀ id : TableId, id.index < fresh.store.tables.size →
      machine.store.table id = fresh.store.table id := fun _ _ => rfl
  have hitems : machine.execution.items = token :: fresh.execution.items := rfl
  have hrefused := step_error_operands hcreate hbound htables hitems hstep
  exact ⟨fresh, token, failed, hcreate, hbound, hstep, hrefused.2.1 fun _ => Error.noConfusion⟩

/-- Not every operator that fails leaves its operands: an attempt to bind a read-only name
anew takes the name and the token. -/
theorem step_define_takes_operands :
    ¬ ∀ (fresh machine failed : Machine) (name : Name) (token : Token) (below : List Token)
      (error : Error), create {} Registration.standard = .ok fresh →
        (fresh.store.dictionary fresh.scopes.system).peek? name = some token →
        (∀ id : TableId, id.index < fresh.store.tables.size →
          machine.store.table id = fresh.store.table id) →
        machine.execution.items = token :: below →
        step .inert machine = .finished (.error (.error error) failed) →
        failed.operands = machine.operands := by
  intro hleaves
  let attempt (fresh : Machine) (token : Token) : Machine :=
    (((fresh.redefine "k" ((Token.integer 1).setWriteable false)).push (.literal "k")).push
      (.integer 2)).schedule token
  have hchecked : (create {} Registration.standard).toOption.any (fun fresh =>
      ((fresh.store.dictionary fresh.scopes.system).peek? "def").any fun token =>
        (failure? (step .inert (attempt fresh token))).any fun failure =>
          decide (failure.2.operands.load = 0)) = true := by
    decide +kernel
  obtain ⟨fresh, hfresh, hfound⟩ := (Option.any_eq_true _ _).1 hchecked
  obtain ⟨token, hbound, hfails⟩ := (Option.any_eq_true _ _).1 hfound
  obtain ⟨⟨error, failed⟩, hfailure, htaken⟩ := (Option.any_eq_true _ _).1 hfails
  have htables : ∀ id : TableId, id.index < fresh.store.tables.size →
      (attempt fresh token).store.table id = fresh.store.table id := by
    intro id _
    exact congrArg (fun tables => tables[id.index]?.getD .empty) Store.tables_insert
  have hsame := hleaves fresh (attempt fresh token) failed "def" token _ error
    (eq_ok_of_toOption hfresh) hbound htables rfl (failure?_eq_some hfailure)
  have hload : failed.operands.load = fresh.operands.load + 2 :=
    congrArg TokenStack.load hsame
  have hzero : failed.operands.load = 0 := of_decide_eq_true htaken
  omega

end Machine

end StackLang
