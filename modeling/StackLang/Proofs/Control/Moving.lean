import StackLang.Proofs.Control.Leaving
import StackLang.Proofs.Control.ReadOnly

/-!
# One turn with the operators of the language

Where all operators are those of the language, a turn is one of few things: the token on top
is executed, the frame on top makes its step, or the callback is scheduled.  A procedure is
opened only by the step of the procedure itself, and operators open loops only.
-/

namespace StackLang

variable {host : HostOperators} {base control : Control} {machine next : Machine}
  {token : Token} {operands : List Token} {operator : Operator}

/-- What the step of a token above `control` comes to, where `operands` were the operands
before: it leaves what an operator may leave, it is a procedure that is opened, or it leaves
a loop. -/
inductive Performs (control : Control) (operands : List Token) :
    Token → Machine → Prop where
  | offered {token : Token} {next : Machine} (hoffers : Offers control operands next) :
    Performs control operands token next
  | entered {attributes : Attributes} {body : Procedure} {next : Machine} (hbody : body.Ordinary)
    (hpoised : Poised (control.enter (.procedure attributes body 0)) next) :
    Performs control operands (.datum (.procedure body.id body.body) attributes) next
  | left {token : Token} {outer : Control} {next : Machine}
    (hleft : control.left? = some outer) (hpoised : Poised outer next) :
    Performs control operands token next

/-- What a turn comes to: the token on top of the frames is executed, the frame on top makes
its step, or with nothing left the callback is scheduled. -/
inductive Moves (base : Control) (machine : Machine) :
    Option Token → List Frame → Machine → Prop where
  | performed {token : Token} {frames : List Frame} {next : Machine}
    (hperforms : Performs (base.within frames) machine.operands.items token next) :
    Moves base machine (some token) frames next
  | proceeded {attributes : Attributes} {body : Procedure} {position : Int64}
    {rest : List Frame} {next : Machine}
    (hproceeds : Proceeds (base.within rest) attributes body position
      machine.config.tailElimination machine.operands.items next) :
    Moves base machine none (.procedure attributes body position :: rest) next
  | advanced {frame : Frame} {rest : List Frame} {next : Machine}
    (hloop : frame.isLoop = true)
    (hadvances : Advances (base.within rest) frame machine.operands.items next) :
    Moves base machine none (frame :: rest) next
  | called {next : Machine} (hcallback : machine.callback.Ordinary)
    (hpoised : Poised (base.push machine.callback) next) : Moves base machine none [] next

/-! ## Turns with the operators of the language -/

namespace Machine

theorem InLanguage.schedule (hlanguage : machine.InLanguage) (htoken : token.CallsOnly .language) :
    (machine.schedule token).InLanguage :=
  hlanguage.of_persists ((Evolves.refl hlanguage.calls).schedule htoken).toPersists

/-- A turn does not change when frames are eliminated. -/
theorem InLanguage.elimination_of_turn {load : Nat} (hlanguage : machine.InLanguage)
    (hturn : Turn host load machine next) :
    next.config.tailElimination = machine.config.tailElimination := by
  obtain ⟨outcome, hfinished, hleads⟩ := hlanguage.step host
  cases hturn with
  | step _ hstep =>
    obtain rfl := Effect.finished.inj (hfinished.symm.trans hstep)
    cases hleads with
    | ok _ hevolves => exact hevolves.elimination
  | nested _ hstep => cases hfinished.symm.trans hstep
  | callback => rfl

end Machine

/-! ## Calls of operators -/

namespace Machine

theorem call_eq_finished (hhost : ∀ name, operator ≠ .host name) :
    call host operator machine = .finished (runOperator operator machine) := by
  cases operator with
  | host name => exact absurd rfl (hhost name)
  | _ => rfl

/-- A step that calls an operator does what the operator does, apart from what is held. -/
theorem Calls.exists_run (hcalls : machine.Calls operator)
    (hhost : ∀ name, operator ≠ .host name)
    (hstep : step host machine = .finished (.ok () next)) :
    ∃ held left after, next = { after with held := left } ∧
      runOperator operator { machine.unscheduled with held } = .ok () after := by
  obtain hcall | ⟨name, id, hcall⟩ := hcalls.step_eq host
  · rw [hcall, call_eq_finished hhost] at hstep
    exact ⟨_, _, next, rfl, Effect.finished.inj hstep⟩
  · rw [hcall, call_eq_finished hhost] at hstep
    cases hrun : runOperator operator (machine.unscheduled.holding (.table name id)) with
    | error failure failed =>
      rw [hrun] at hstep
      cases hstep
    | ok value after =>
      rw [hrun] at hstep
      cases hstep
      exact ⟨_, _, after, rfl, hrun⟩

/-- Where a table is on top and the step succeeds, an operator of the language is called. -/
theorem InLanguage.exists_calls (hlanguage : machine.InLanguage) {name : Name} {id : TableId}
    {attributes : Attributes} {below : List Token}
    (hitems : machine.execution.items = .datum (.table name id) attributes :: below)
    (hstep : Machine.step host machine = .finished (.ok () next)) :
    ∃ operator, machine.Calls operator ∧ ∀ name, operator ≠ .host name := by
  rw [Machine.step, hitems] at hstep
  simp only [dispatch, EStateM.run, selectOverload_eq] at hstep
  have hselects := hlanguage.tables.selects id machine.operands.operandTypes
  cases hselect : (machine.store.table id).select machine.operands.operandTypes with
  | error error =>
    simp only [unscheduled, hselect] at hstep
    cases hstep
  | ok function =>
    simp only [unscheduled, hselect] at hstep
    cases function with
    | void => cases hstep
    | datum value flags =>
      cases value with
      | function known operator =>
        exact ⟨operator, .table hitems hselect,
          Operator.not_host_of_inLanguage (hselects known operator flags hselect)⟩
      | _ => cases hstep

end Machine

/-- An operation that settles and is a step that succeeds has settled with its success. -/
theorem Settles.of_finished (start : Control) {post : Machine → Prop} {outcome : Outcome}
    (hsettles : Settles start (fun _ => post) outcome)
    (hstep : Effect.finished outcome = .finished (.ok () next)) : post next := by
  obtain rfl := Effect.finished.inj hstep
  cases hsettles with
  | ok hpost => exact hpost

theorem Due.withHeld (hdue : Due control machine) (held : List Holding) :
    Due control { machine with held } := by
  obtain ⟨token, htoken, hpoised⟩ := hdue
  exact ⟨token, htoken, hpoised.withHeld held⟩

theorem Offers.withHeld (hoffers : Offers control operands machine) (held : List Holding) :
    Offers control operands { machine with held } := by
  cases hoffers with
  | rested hpoised => exact .rested (hpoised.withHeld held)
  | pending htoken hpoised => exact .pending htoken (hpoised.withHeld held)
  | opened frame hloop hframe hfresh hpoised =>
    exact .opened frame hloop hframe hfresh (hpoised.withHeld held)

namespace Poised

/-- A name makes way for what it is bound to. -/
theorem due_of_name (hpoised : Poised (control.push token) machine) {name : Name}
    {attributes : Attributes} {below : List Token}
    (hitems : machine.execution.items = .datum (.name name) attributes :: below)
    (hstep : Machine.step host machine = .finished (.ok () next)) : Due control next := by
  rw [Machine.step, hitems] at hstep
  exact Settles.of_finished _ (hpoised.resolveTop name) hstep

/-- `exec` makes way for the operand that is to be executed. -/
theorem due_of_exec (hpoised : Poised (control.push token) machine)
    (hcalls : machine.Calls .exec)
    (hstep : Machine.step host machine = .finished (.ok () next)) : Due control next := by
  obtain ⟨held, left, after, rfl, hrun⟩ := hcalls.exists_run (by simp) hstep
  have hsettles := (hpoised.unscheduled.withHeld held).runExec
  rw [show Machine.runExec { machine.unscheduled with held } = .ok () after from hrun] at hsettles
  cases hsettles with
  | ok hdue => exact hdue.withHeld left

/-- Where the condition holds, `if` makes way for its body. -/
theorem due_of_ifTrue (hpoised : Poised (control.push token) machine)
    (hcalls : machine.Calls .ifTrue) {flags : Attributes}
    (hcondition : machine.operands.items[1]? = some (.datum (.boolean true) flags))
    (hstep : Machine.step host machine = .finished (.ok () next)) : Due control next := by
  obtain ⟨held, left, after, rfl, hrun⟩ := hcalls.exists_run (by simp) hstep
  have hsettles := runIf (hpoised.unscheduled.withHeld held).laden
  rw [show Machine.runIf { machine.unscheduled with held } = .ok () after from hrun] at hsettles
  cases hsettles with
  | ok hended =>
    obtain ⟨lower, alive, condition, hlower, hread, hdue, -⟩ := hended
    obtain rfl := Option.some.inj (hcondition.symm.trans hlower)
    exact (hdue (Except.ok.inj hread).symm).withHeld left

/-- A call leaves what an operator may leave, or it leaves a loop. -/
theorem performs_of_calls (hpoised : Poised (control.push token) machine)
    (hcalls : machine.Calls operator) (hhost : ∀ name, operator ≠ .host name)
    (hstep : Machine.step host machine = .finished (.ok () next)) :
    Performs control machine.operands.items token next := by
  obtain ⟨held, left, after, rfl, hrun⟩ := hcalls.exists_run hhost hstep
  have hbefore : Poised control { machine.unscheduled with held } :=
    hpoised.unscheduled.withHeld held
  by_cases hexit : operator = .exit
  · subst hexit
    have hexits : Machine.exitLoop { machine.unscheduled with held } = .ok () after := hrun
    cases hleft : control.left? with
    | none =>
      rw [Machine.exitLoop_eq_error (hbefore.ahead ▸ hleft)] at hexits
      cases hexits
    | some outer =>
      obtain ⟨execution, hitems, hexit⟩ := Machine.exitLoop_eq_ok (hbefore.ahead ▸ hleft)
      rw [hexit] at hexits
      cases hexits
      exact .left hleft ⟨congrArg (Control.mk · _) hitems, { hbefore.ordinary with }⟩
  · have hsettles := hbefore.runOperator hexit
    rw [hrun] at hsettles
    cases hsettles with
    | ok hoffers => exact .offered (hoffers.withHeld left)

/-- The step of a token leaves what an operator may leave, unless it opens the token, which
is a procedure, or leaves a loop. -/
theorem performs (hpoised : Poised (control.push token) machine) (htoken : token.Ordinary)
    (hlanguage : machine.InLanguage)
    (hstep : Machine.step host machine = .finished (.ok () next)) :
    Performs control machine.operands.items token next := by
  have hitems : machine.execution.items = token :: control.items :=
    Machine.items_of_control hpoised.ahead
  have hbelow := hpoised.unscheduled
  cases token with
  | void =>
    rw [Machine.step, hitems] at hstep
    cases hstep
    exact .offered (.rested hbelow)
  | datum value attributes =>
    have hfinished := hstep
    rw [Machine.step, hitems] at hfinished
    cases value with
    | name name =>
      obtain ⟨bound, hbound, hnext⟩ := hpoised.due_of_name hitems hstep
      exact .offered (.pending hbound hnext)
    | procedure id body =>
      have hbody : (⟨id, body⟩ : Procedure).Ordinary :=
        Value.ordinary_procedure.1 (Token.ordinary_datum.1 htoken)
      have hopened : Poised (control.enter (.procedure attributes ⟨id, body⟩ 0)) next :=
        Settles.of_finished control (hpoised.openFrame .iterate [Machine.numberPart 0]) hfinished
      exact .entered hbody hopened
    | litProcedure id body =>
      have hbody : (Token.procedure ⟨id, body⟩).Ordinary :=
        Token.ordinary_procedureToken.2
          (Value.ordinary_litProcedure.1 (Token.ordinary_datum.1 htoken))
      exact .offered (.rested (Settles.of_finished control (hbelow.pushNew hbody _) hfinished))
    | function name operator =>
      have hcalls : machine.Calls operator := .function hitems
      have htop := hlanguage.calls.execution (.datum (.function name operator) attributes)
        (by simp [hitems])
      exact hpoised.performs_of_calls hcalls (Operator.not_host_of_inLanguage htop.operator) hstep
    | table name id =>
      obtain ⟨operator, hcalls, hhost⟩ := hlanguage.exists_calls hitems hstep
      exact hpoised.performs_of_calls hcalls hhost hstep
    | primitive own => exact absurd htoken (Value.not_ordinary_primitive own)
    | callback action =>
      have haction := Value.ordinary_callback.1 (Token.ordinary_datum.1 htoken)
      exact .offered (.pending haction
        (Settles.of_finished control (hbelow.scheduleNew action _) hfinished))
    | integer | double | boolean | string | literal | array | dictionary | mark =>
      cases hfinished
      exact .offered (.rested (hbelow.push htoken))

/-- A turn with a token on top of frames is the step of that token. -/
theorem step_of_turn {frames : List Frame}
    (hpoised : Poised ((base.within frames).push token) machine)
    (hlanguage : machine.InLanguage)
    (hturn : Machine.Turn host base.items.length machine next) :
    Machine.step host machine = .finished (.ok () next) := by
  have hload : machine.execution.load = (base.within frames).items.length + 1 := hpoised.load
  have hmore : base.items.length < machine.execution.load := by
    rw [hload]
    exact Nat.lt_succ_of_le (base.length_le_within frames)
  exact (hlanguage.step_of_turn hmore hturn).1

/-- A turn that starts above frames does what is on top of them. -/
theorem moves {frames : List Frame} {pending : Option Token}
    (hpoised : Poised ((base.within frames).awaiting pending) machine)
    (hpending : ∀ token ∈ pending, token.Ordinary) (hframes : ∀ frame ∈ frames, frame.Ordinary)
    (hlanguage : machine.InLanguage)
    (hturn : Machine.Turn host base.items.length machine next) :
    Moves base machine pending frames next := by
  have hload : machine.execution.load = ((base.within frames).awaiting pending).items.length :=
    hpoised.load
  cases pending with
  | some token =>
    have hstep := hpoised.step_of_turn hlanguage hturn
    exact .performed (hpoised.performs (hpending token rfl) hlanguage hstep)
  | none =>
    cases frames with
    | nil =>
      cases hturn with
      | step hmore | nested hmore => exact absurd hmore (by rw [hload]; exact Nat.lt_irrefl _)
      | callback => exact .called hpoised.ordinary.callback hpoised.scheduleCallback
    | cons frame rest =>
      have hframe := hframes frame (.head _)
      have henter : machine.control = (base.within rest).enter frame := hpoised.ahead
      have hmore : base.items.length < machine.execution.load := by
        rw [hload]
        exact Control.length_lt_enter (base.length_le_within rest)
      obtain ⟨hstep, -⟩ := hlanguage.step_of_turn hmore hturn
      rw [Machine.step_of_enter henter] at hstep
      cases frame with
      | procedure attributes body position =>
        exact .proceeded
          (Settles.of_finished base (hpoised.laden.proceedProcedure hframe) hstep)
      | loop | repetition | counting | forAll =>
        exact .advanced rfl (Settles.of_finished base (hpoised.laden.advance hframe) hstep)

end Poised

end StackLang
