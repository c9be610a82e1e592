import StackLang.Machine.Host
import StackLang.Proofs.Control.Advancing
import StackLang.Proofs.Control.Reports

/-!
# Statements inside statements

An operator of the host may execute a statement while another one is running, so a
statement may begin on an execution stack that holds the frames of others.  It leaves
them as they are, with one exception: `exit` looks for the topmost mark on the whole
stack, and where the statement has no loop of its own open it leaves a loop of the
statement that it is called from.

The proof follows a run above its base.  Either the statement stands on what it found,
or it has left a loop below, and then the stack is shorter than the base and the run ends.
-/

namespace StackLang

/-! ## Operators of the host -/

/-- An operator that has had a token executed passes a success on and never takes a
fault for an outcome.  Neither changes what the machine is about to do. -/
structure Resumes (resume : Outcome → Outcome) : Prop where
  ok : ∀ {control machine}, Poised control machine → machine.callback = .void →
    (∃ next, resume (.ok () machine) = .ok () next ∧ Poised control next ∧
        next.callback = .void) ∨
      ∃ fault next, resume (.ok () machine) = .error (.fault fault) next
  error : ∀ {control error machine}, Poised control machine →
    Settles control (fun _ => Poised control) (resume (.error (.error error) machine))
  fault : ∀ fault machine, ∃ other next,
    resume (.error (.fault fault) machine) = .error (.fault other) next

/-- A step of the host leaves what the machine is about to do as it is. -/
def Effect.Tame (control : Control) : Effect → Prop
  | .finished outcome => Settles control (fun _ => Poised control) outcome
  | .executing token inner resume => token.Ordinary ∧ Poised control inner ∧ Resumes resume

/-- The host touches the execution stack only by executing tokens. -/
def HostOperators.Tame (host : HostOperators) : Prop :=
  ∀ name control machine, Poised control machine → (host name machine).Tame control

namespace HostOperator

variable {control : Control} {machine : Machine}

theorem executeOperand_tame {resume : Outcome → Outcome} (hresume : Resumes resume)
    (hpoised : Poised control machine) : (executeOperand resume machine).Tame control := by
  have hpop := hpoised.pop
  simp only [executeOperand, EStateM.run]
  generalize Machine.pop machine = popped at hpop
  cases hpop with
  | ok hpost => exact ⟨hpost.1, hpost.2, hresume⟩
  | error hstart => exact .error hstart
  | fault => exact .fault

theorem pushNew_boolean (hpoised : Poised control machine) (value : Bool) :
    (∃ next, Machine.pushNew (.boolean value) [] machine = .ok () next ∧ Poised control next ∧
        next.callback = machine.callback) ∨
      ∃ fault next, Machine.pushNew (.boolean value) [] machine = .error (.fault fault) next := by
  simp only [Machine.pushNew, bind, EStateM.bind]
  obtain ⟨next, hclaim, hnext⟩ | ⟨fault, hclaim, -⟩ :=
    Restated.claim [.token (.boolean value)] machine
  · rw [hclaim]
    exact .inl ⟨_, rfl, (hpoised.restated hnext).push rfl, hnext.callback⟩
  · rw [hclaim]
    exact .inr ⟨fault, machine, rfl⟩

theorem resumes_noteSuccess : Resumes noteSuccess where
  ok := fun hpoised hcallback => by
    obtain ⟨next, hpush, hnext, hsame⟩ | hfault := pushNew_boolean hpoised true
    · exact .inl ⟨next, hpush, hnext, hsame.trans hcallback⟩
    · exact .inr hfault
  error := fun hpoised => hpoised.pushNew (Token.ordinary_boolean false) []
  fault := fun fault machine => ⟨fault, machine, rfl⟩

theorem setCallback_settles (hpoised : Poised control machine) {action : Token}
    (haction : action.Ordinary) :
    Settles control (fun _ => Poised control) (Machine.setCallback action machine) := by
  refine (hpoised.claim _).bind fun _ next hnext => .ok ⟨hnext.ahead, ?_⟩
  exact { hnext.ordinary with callback := Value.ordinary_callback.2 haction }

theorem operation_settles (operator : HostOperator) (hpoised : Poised control machine) :
    Settles control (fun _ => Poised control) (operator.operation machine) := by
  cases operator with
  | snapshot => exact .ok ⟨hpoised.ahead, { hpoised.ordinary with }⟩
  | setCallback =>
    exact hpoised.pop.bind fun _ _ ⟨htoken, hnext⟩ => setCallback_settles hnext htoken
  | attempt => exact .ok hpoised

theorem operators_tame : HostOperators.Tame operators := by
  intro name control machine hpoised
  unfold operators
  cases catalogue.lookup name with
  | none => exact .ok hpoised
  | some operator =>
    cases operator with
    | attempt => exact executeOperand_tame resumes_noteSuccess hpoised
    | _ => exact operation_settles _ hpoised

end HostOperator

/-! ## What a statement leaves -/

/-- A statement has left a loop below its base: the stack is shorter than the base, but
for a callback that may be pending. -/
def Departed (base : Control) (machine : Machine) : Prop :=
  ∃ outer, base.left? = some outer ∧
    (Poised outer machine ∨ machine.callback = .void ∧
      ∃ callback : Token, callback.Ordinary ∧ Poised (outer.push callback) machine)

/-- What a step above `base` comes to. -/
inductive Leaves (base : Control) : Outcome → Prop where
  | standing {machine : Machine} (hstanding : Standing base machine) :
    Leaves base (.ok () machine)
  | departed {machine : Machine} (hdeparted : Departed base machine) :
    Leaves base (.ok () machine)
  | error {error : Error} {machine : Machine} (hordinary : machine.Ordinary)
    (hbelow : base.items <:+ machine.execution.items) :
    Leaves base (.error (.error error) machine)
  | fault {fault : Fault} {machine : Machine} : Leaves base (.error (.fault fault) machine)

/-- What a step above `base` comes to, or has executed first: that token is executed
above frames of the statement. -/
def Effect.Leaves (base : Control) : Effect → Prop
  | .finished outcome => StackLang.Leaves base outcome
  | .executing token inner resume => token.Ordinary ∧ Resumes resume ∧
      ∃ frames, (∀ frame ∈ frames, frame.Ordinary) ∧ Poised (base.within frames) inner

/-- What the step of a token above `frames` comes to, where `operands` were the operands
before: it leaves the frames as they are, or a loop among them or below them. -/
inductive Yields (base : Control) (frames : List Frame) (operands : List Token) :
    Outcome → Prop where
  | issued {machine : Machine} (hissues : Issues (base.within frames) operands machine) :
    Yields base frames operands (.ok () machine)
  | left {kept : List Frame} (pending : Option Token) {machine : Machine}
    (hkept : Frame.outside frames = some kept) (hpending : ∀ token ∈ pending, token.Ordinary)
    (hpoised : Poised ((base.within kept).awaiting pending) machine) :
    Yields base frames operands (.ok () machine)
  | departed {machine : Machine} (hdeparted : Departed base machine) :
    Yields base frames operands (.ok () machine)
  | error (pending : Option Token) {error : Error} {machine : Machine}
    (hpending : ∀ token ∈ pending, token.Ordinary)
    (hpoised : Poised ((base.within frames).awaiting pending) machine) :
    Yields base frames operands (.error (.error error) machine)
  | fault {fault : Fault} {machine : Machine} :
    Yields base frames operands (.error (.fault fault) machine)

/-- What the step of a token comes to, or has executed first: that token is executed above
the same frames. -/
def Effect.Yields (base : Control) (frames : List Frame) (operands : List Token) :
    Effect → Prop
  | .finished outcome => StackLang.Yields base frames operands outcome
  | .executing token inner resume =>
    token.Ordinary ∧ Resumes resume ∧ Poised (base.within frames) inner

namespace Control

variable {base outer : Control} {frames : List Frame}

theorem within_append (inner outer : List Frame) (base : Control) :
    base.within (inner ++ outer) = (base.within outer).within inner := by
  simp [within, List.foldr_append]

theorem suffix_within (base : Control) (frames : List Frame) :
    base.items <:+ (base.within frames).items := by
  rw [items_within]
  exact List.suffix_append _ _

theorem subset_of_outside {kept : List Frame} (houtside : Frame.outside frames = some kept) :
    kept ⊆ frames := by
  induction frames with
  | nil => cases houtside
  | cons frame rest ih =>
    rw [Frame.outside] at houtside
    split at houtside
    · obtain rfl := Option.some.inj houtside
      exact List.subset_cons_self _ _
    · exact List.subset_cons_of_subset _ (ih houtside)

/-- The loop that is left is one of the frames of the statement or one below its base. -/
theorem left?_within_cases (hframes : ∀ frame ∈ frames, frame.Ordinary)
    (hleft : (base.within frames).left? = some outer) :
    (∃ kept, Frame.outside frames = some kept ∧ outer = base.within kept) ∨
      base.left? = some outer := by
  rw [left?_within fun frame hmem => (hframes frame hmem).shaped] at hleft
  cases houtside : Frame.outside frames with
  | none =>
    rw [houtside] at hleft
    exact .inr hleft
  | some kept =>
    rw [houtside] at hleft
    obtain rfl := Option.some.inj hleft
    exact .inl ⟨kept, rfl, rfl⟩

end Control

section Steps

variable {base control : Control} {machine : Machine} {frames : List Frame}
  {operands : List Token}

theorem Poised.suffix (hpoised : Poised control machine) (hbelow : base.items <:+ control.items) :
    base.items <:+ machine.execution.items := by
  have hitems : machine.execution.items = control.items := congrArg Control.items hpoised.ahead
  rwa [hitems]

/-- What stands above frames of a statement stands above its base. -/
theorem Standing.within (hframes : ∀ frame ∈ frames, frame.Ordinary)
    (hstanding : Standing (base.within frames) machine) : Standing base machine := by
  obtain ⟨pending, inner, hpending, hinner, hpoised⟩ := hstanding
  refine ⟨pending, inner ++ frames, hpending, fun frame hmem => ?_, ?_⟩
  · exact (List.mem_append.1 hmem).elim (hinner frame) (hframes frame)
  · rwa [Control.within_append]

theorem Control.suffix_awaiting (pending : Option Token) :
    base.items <:+ ((base.within frames).awaiting pending).items := by
  rw [Control.items_awaiting]
  exact (base.suffix_within frames).trans (List.suffix_append _ _)

/-- A step that leaves the frames or a loop among them leaves what is below them. -/
theorem Yields.leaves {outcome : Outcome} (hyields : Yields base frames operands outcome)
    (hframes : ∀ frame ∈ frames, frame.Ordinary) : Leaves base outcome := by
  cases hyields with
  | issued hissues => exact .standing (hissues.standing.within hframes)
  | @left kept pending machine hkept hpending hpoised =>
    exact .standing ⟨pending, kept, hpending,
      fun frame hmem => hframes frame (Control.subset_of_outside hkept hmem), hpoised⟩
  | departed hdeparted => exact .departed hdeparted
  | error pending _ hpoised =>
    exact .error hpoised.ordinary (hpoised.suffix (Control.suffix_awaiting pending))
  | fault => exact .fault

theorem Effect.Yields.leaves {effect : Effect} (hyields : effect.Yields base frames operands)
    (hframes : ∀ frame ∈ frames, frame.Ordinary) : effect.Leaves base := by
  cases effect with
  | finished outcome => exact StackLang.Yields.leaves hyields hframes
  | executing token inner resume =>
    obtain ⟨htoken, hresume, hinner⟩ := hyields
    exact ⟨htoken, hresume, frames, hframes, hinner⟩

/-- An operation that starts above the frames or above a token on them. -/
theorem Settles.yields (pending : Option Token) {outcome : Outcome}
    (hpending : ∀ token ∈ pending, token.Ordinary)
    (hsettles : Settles ((base.within frames).awaiting pending)
      (fun _ => Issues (base.within frames) operands) outcome) :
    Yields base frames operands outcome := by
  cases hsettles with
  | ok hissues => exact .issued hissues
  | error hstart => exact .error pending hpending hstart
  | fault => exact .fault

/-- An operation that starts above the frames. -/
theorem Settles.yields_resting {outcome : Outcome}
    (hsettles : Settles (base.within frames)
      (fun _ => Issues (base.within frames) operands) outcome) :
    Yields base frames operands outcome :=
  Settles.yields none (by simp) hsettles

/-- Leaving a loop leaves one of the statement or one below. -/
theorem Poised.exitLoop (hpoised : Poised (base.within frames) machine)
    (hframes : ∀ frame ∈ frames, frame.Ordinary) :
    Yields base frames operands (Machine.exitLoop machine) := by
  cases hleft : machine.control.left? with
  | none =>
    rw [Machine.exitLoop_eq_error hleft]
    exact Settles.yields_resting (.error hpoised)
  | some outer =>
    obtain ⟨execution, hitems, hrun⟩ := Machine.exitLoop_eq_ok hleft
    rw [hrun]
    have hnext : Poised outer { machine with execution, depth := outer.depth } :=
      ⟨congrArg (Control.mk · _) hitems, { hpoised.ordinary with }⟩
    rw [hpoised.ahead] at hleft
    obtain ⟨kept, hkept, rfl⟩ | hbelow := Control.left?_within_cases hframes hleft
    · exact .left none hkept (by simp) hnext
    · exact .departed ⟨outer, hbelow, .inl hnext⟩

theorem Effect.Tame.yields {effect : Effect} (htame : effect.Tame (base.within frames)) :
    effect.Yields base frames operands := by
  cases effect with
  | finished outcome =>
    exact Settles.yields_resting (htame.mono fun _ _ => .rested)
  | executing token inner resume =>
    obtain ⟨htoken, hinner, hresume⟩ := htame
    exact ⟨htoken, hresume, hinner⟩

theorem Poised.call {host : HostOperators} (hhost : host.Tame)
    (hpoised : Poised (base.within frames) machine) (hframes : ∀ frame ∈ frames, frame.Ordinary)
    (operator : Operator) :
    (Machine.call host operator machine).Yields base frames machine.operands.items := by
  by_cases hexit : operator = .exit
  · subst hexit
    exact hpoised.exitLoop hframes
  · have hrun := Settles.yields_resting
      ((hpoised.runOperator hexit).mono fun _ _ hoffers => hoffers.issues)
    cases operator with
    | host name => exact (hhost name _ machine hpoised).yields
    | _ => exact hrun

/-! ## Steps -/

theorem Poised.withHeld (hpoised : Poised control machine) (held : List Holding) :
    Poised control { machine with held } :=
  ⟨hpoised.ahead, { hpoised.ordinary with }⟩

theorem Yields.releasing {outcome : Outcome} (hyields : Yields base frames operands outcome) :
    Yields base frames operands (Machine.mapOutcome Machine.releasing outcome) := by
  cases hyields with
  | @issued next hissues =>
    cases hissues with
    | rested hpoised => exact .issued (.rested (hpoised.withHeld next.held.tail))
    | pending htoken hpoised =>
      exact .issued (.pending htoken (hpoised.withHeld next.held.tail))
    | opened frame hframe hfresh hpoised =>
      exact .issued (.opened frame hframe hfresh (hpoised.withHeld next.held.tail))
  | @left kept pending next hkept hpending hpoised =>
    exact .left pending hkept hpending (hpoised.withHeld next.held.tail)
  | @departed next hdeparted =>
    obtain ⟨outer, hleft, hpoised | ⟨hcallback, callback, hordinary, hpoised⟩⟩ := hdeparted
    · exact .departed ⟨outer, hleft, .inl (hpoised.withHeld next.held.tail)⟩
    · exact .departed ⟨outer, hleft, .inr ⟨hcallback, callback, hordinary,
        hpoised.withHeld next.held.tail⟩⟩
  | @error pending error next hpending hpoised =>
    exact .error pending hpending (hpoised.withHeld next.held.tail)
  | fault => exact .fault

theorem Resumes.releasing {resume : Outcome → Outcome} (hresume : Resumes resume) :
    Resumes (Machine.mapOutcome Machine.releasing ∘ resume) where
  ok := fun hpoised hcallback => by
    simp only [Function.comp]
    obtain ⟨next, hnext, hpoised, hsame⟩ | ⟨fault, next, hnext⟩ := hresume.ok hpoised hcallback
    · exact .inl ⟨next.releasing, by rw [hnext]; rfl, hpoised.withHeld _, hsame⟩
    · exact .inr ⟨fault, next.releasing, by rw [hnext]; rfl⟩
  error := fun {control error machine} hpoised => by
    have hsettles : Settles control (fun _ => Poised control)
        (resume (.error (.error error) machine)) :=
      hresume.error hpoised
    simp only [Function.comp]
    generalize resume (.error (.error error) machine) = outcome at hsettles
    cases hsettles with
    | ok hnext => exact .ok (hnext.withHeld _)
    | error hstart => exact .error (hstart.withHeld _)
    | fault => exact .fault
  fault := fun fault machine => by
    obtain ⟨other, next, hnext⟩ := hresume.fault fault machine
    exact ⟨other, next.releasing, by simp only [Function.comp, hnext]; rfl⟩

theorem Effect.Yields.releasing {effect : Effect} (hyields : effect.Yields base frames operands) :
    (effect.mapOutcome (Machine.mapOutcome Machine.releasing)).Yields base frames operands := by
  cases effect with
  | finished outcome => exact StackLang.Yields.releasing hyields
  | executing token inner resume =>
    obtain ⟨htoken, hresume, hinner⟩ := hyields
    exact ⟨htoken, hresume.releasing, hinner⟩

theorem Poised.dispatch {host : HostOperators} (hhost : host.Tame)
    (hpoised : Poised (base.within frames) machine) (hframes : ∀ frame ∈ frames, frame.Ordinary)
    (name : Name) (id : TableId) :
    (Machine.dispatch host name id machine).Yields base frames machine.operands.items := by
  have hrefused {error : Error} {next : Machine} (hnext : Poised (base.within frames) next) :
      Effect.Yields base frames machine.operands.items
        (.finished (.error (.error error) next)) :=
    Settles.yields_resting (.error hnext)
  simp only [Machine.dispatch, EStateM.run, Machine.selectOverload_eq]
  cases (machine.store.table id).select machine.operands.operandTypes with
  | error error => exact hrefused (hpoised.restated (.report (.noOverload name error) machine))
  | ok function =>
    cases function with
    | void => exact hrefused hpoised
    | datum value attributes =>
      cases value with
      | function own operator =>
        exact ((hpoised.withHeld _).call hhost hframes operator).releasing
      | _ => exact hrefused hpoised

theorem Poised.resolveTop {token : Token} (hpoised : Poised (control.push token) machine)
    (name : Name) :
    Settles (control.push token) (fun _ => Due control) (Machine.resolveTop name machine) := by
  unfold Machine.resolveTop
  refine (hpoised.lookup name).bind fun found next ⟨hfound, hnext⟩ => ?_
  cases found with
  | none => exact .error hnext
  | some bound =>
    obtain ⟨execution, hreplace, hcontrol⟩ := Machine.replace_top hnext.ahead bound
    apply Settles.get
    rw [hreplace]
    exact .ok ⟨bound, hfound bound rfl, hcontrol, { hnext.ordinary with }⟩

theorem Poised.unscheduled {token : Token} (hpoised : Poised (control.push token) machine) :
    Poised control machine.unscheduled := by
  obtain ⟨hitems, hdepth⟩ : machine.execution.items = token :: control.items ∧
      machine.depth = control.depth :=
    Control.mk.inj hpoised.ahead
  refine ⟨?_, { hpoised.ordinary with }⟩
  simp [Machine.control, Machine.unscheduled, hitems, hdepth]

/-- A pending token is executed above the frames of the statement. -/
theorem Poised.step_pending {host : HostOperators} (hhost : host.Tame) {token : Token}
    (hpoised : Poised ((base.within frames).push token) machine) (htoken : token.Ordinary)
    (hframes : ∀ frame ∈ frames, frame.Ordinary) :
    (Machine.step host machine).Yields base frames machine.operands.items := by
  have hitems : machine.execution.items = token :: (base.within frames).items :=
    congrArg Control.items hpoised.ahead
  have hbelow := hpoised.unscheduled
  have hpending : ∀ own ∈ some token, own.Ordinary := by simpa using htoken
  unfold Machine.step
  rw [hitems]
  cases token with
  | void => exact .issued (.rested hbelow)
  | datum value attributes =>
    -- Most values are operands.
    have hpush : Yields base frames machine.operands.items
        (.ok () (machine.unscheduled.push (.datum value attributes))) :=
      .issued (.rested (hbelow.push htoken))
    cases value with
    | name name =>
      exact Settles.yields (some _) hpending
        ((hpoised.resolveTop name).mono fun _ _ ⟨_, hbound, hnext⟩ => .pending hbound hnext)
    | procedure id body =>
      have hbody := Value.ordinary_procedure.1 (Token.ordinary_datum.1 htoken)
      refine Settles.yields (some _) hpending ((hpoised.openFrame _ _).mono fun _ _ hopened => ?_)
      exact .opened (.procedure attributes ⟨id, body⟩ 0) hbody rfl hopened
    | litProcedure id body =>
      have hbody : (Token.procedure ⟨id, body⟩).Ordinary :=
        Token.ordinary_procedureToken.2
          (Value.ordinary_litProcedure.1 (Token.ordinary_datum.1 htoken))
      exact Settles.yields_resting ((hbelow.pushNew hbody _).mono fun _ _ => .rested)
    | function name operator => exact hbelow.call hhost hframes operator
    | table name id => exact hbelow.dispatch hhost hframes name id
    | primitive own => exact absurd htoken (Value.not_ordinary_primitive own)
    | callback action =>
      have haction := Value.ordinary_callback.1 (Token.ordinary_datum.1 htoken)
      exact Settles.yields_resting
        ((hbelow.scheduleNew action _).mono fun _ _ => .pending haction)
    | integer | double | boolean | string | literal | array | dictionary | mark => exact hpush

/-- A step above the base leaves what is below it, or leaves a loop there. -/
theorem Standing.step {host : HostOperators} (hhost : host.Tame)
    (hstanding : Standing base machine) (hload : base.items.length < machine.execution.load) :
    (Machine.step host machine).Leaves base := by
  obtain ⟨pending, frames, hpending, hframes, hpoised⟩ := hstanding
  cases pending with
  | some token =>
    exact (hpoised.step_pending hhost (hpending token rfl) hframes).leaves hframes
  | none =>
    cases frames with
    | nil =>
      have hitems : machine.execution.items = base.items := congrArg Control.items hpoised.ahead
      rw [machine.execution.load_eq, hitems] at hload
      exact absurd hload (Nat.lt_irrefl _)
    | cons frame rest =>
      have hrest : ∀ frame ∈ rest, frame.Ordinary := fun own hmem => hframes own (by simp [hmem])
      rw [Machine.step_of_enter hpoised.ahead]
      have hadvance : Settles ((base.within rest).enter frame)
          (fun _ => Standing (base.within rest)) (Machine.advance frame.primitive machine) :=
        hpoised.advance (hframes frame (by simp))
      simp only [Effect.Leaves]
      generalize Machine.advance frame.primitive machine = outcome at hadvance
      cases hadvance with
      | ok hstanding => exact .standing (hstanding.within hrest)
      | error hstart =>
        exact .error hstart.ordinary (hstart.suffix (base.suffix_within (frame :: rest)))
      | fault => exact .fault

/-! ## Runs -/

/-- How what began on `base` ends: back at it or below it, unless it fails. -/
inductive Ended (base : Control) (failed : Machine → Prop) : Outcome → Prop where
  | back {machine : Machine} (hpoised : Poised base machine)
    (hcallback : machine.callback = .void) : Ended base failed (.ok () machine)
  | departed {machine : Machine} (hdeparted : Departed base machine)
    (hcallback : machine.callback = .void) : Ended base failed (.ok () machine)
  | error {error : Error} {machine : Machine} (hfailed : failed machine) :
    Ended base failed (.error (.error error) machine)
  | fault {fault : Fault} {machine : Machine} : Ended base failed (.error (.fault fault) machine)

/-- The run of a statement that fails has not touched its base. -/
def Unfinished (base : Control) (machine : Machine) : Prop :=
  machine.Ordinary ∧ base.items <:+ machine.execution.items

/-- Giving up a statement drops all that it has left above its base. -/
theorem Unfinished.discarded (hunfinished : Unfinished base machine) :
    Poised base (machine.discarded base.items.length base.depth) := by
  obtain ⟨hordinary, above, hitems⟩ := hunfinished
  refine ⟨?_, ⟨hordinary.operands, hordinary.callback, hordinary.store⟩⟩
  simp [Machine.control, Machine.discarded, TokenStack.truncate, machine.execution.load_eq,
    ← hitems]

theorem Ended.conclude {outcome : Outcome} (hended : Ended base (Unfinished base) outcome) :
    Ended base (Poised base) (Machine.conclude base.items.length base.depth outcome) := by
  cases hended with
  | back hpoised hcallback => exact .back hpoised hcallback
  | departed hdeparted hcallback => exact .departed hdeparted hcallback
  | @error error machine hunfinished =>
    simp only [Machine.conclude, EStateM.run, Machine.abandon_eq]
    cases machine.backtrace? base.items.length error with
    | none => exact .fault
    | some text =>
      have hordinary := hunfinished.1
      have hleft : Unfinished base
          ((machine.report (.statementFailed error)).emit .backtrace text) :=
        ⟨⟨hordinary.operands, hordinary.callback, hordinary.store⟩, hunfinished.2⟩
      exact .error hleft.discarded
  | fault => exact .fault

/-- An operator goes on with the outcome of a statement that it has executed above frames
of the statement that calls it. -/
theorem Ended.resume {outcome : Outcome}
    (hended : Ended (base.within frames) (Poised (base.within frames)) outcome)
    (hframes : ∀ frame ∈ frames, frame.Ordinary) {resume : Outcome → Outcome}
    (hresume : Resumes resume) (operands : List Token) :
    Yields base frames operands (resume outcome) := by
  cases hended with
  | back hpoised hcallback =>
    obtain ⟨next, hnext, hpoised, -⟩ | ⟨fault, next, hnext⟩ := hresume.ok hpoised hcallback
    · rw [hnext]
      exact .issued (.rested hpoised)
    · rw [hnext]
      exact .fault
  | departed hdeparted hcallback =>
    obtain ⟨outer, hleft, hpoised | ⟨-, callback, hordinary, hpoised⟩⟩ := hdeparted
    · obtain ⟨next, hnext, hpoised, -⟩ | ⟨fault, next, hnext⟩ := hresume.ok hpoised hcallback
      · rw [hnext]
        -- The loop that was left is one of the frames of the caller, or it is further out.
        obtain ⟨kept, hkept, rfl⟩ | hbelow := Control.left?_within_cases hframes hleft
        · exact .left none hkept (by simp) hpoised
        · exact .departed ⟨outer, hbelow, .inl hpoised⟩
      · rw [hnext]
        exact .fault
    · obtain ⟨next, hnext, hpoised, hvoid⟩ | ⟨fault, next, hnext⟩ := hresume.ok hpoised hcallback
      · rw [hnext]
        obtain ⟨kept, hkept, rfl⟩ | hbelow := Control.left?_within_cases hframes hleft
        · exact .left (some callback) hkept (by simpa using hordinary) hpoised
        · exact .departed ⟨outer, hbelow, .inr ⟨hvoid, callback, hordinary, hpoised⟩⟩
      · rw [hnext]
        exact .fault
  | error hpoised =>
    exact Settles.yields_resting ((hresume.error hpoised).mono fun _ _ => .rested)
  | fault =>
    rename_i fault machine
    obtain ⟨other, next, hnext⟩ := hresume.fault fault machine
    rw [hnext]
    exact .fault

/-- With nothing left above the base, a statement that stands on it is back at it. -/
theorem Standing.drained (hstanding : Standing base machine)
    (hload : ¬ base.items.length < machine.execution.load) : Poised base machine := by
  obtain ⟨pending, frames, -, -, hpoised⟩ := hstanding
  have hitems : machine.execution.items = ((base.within frames).awaiting pending).items :=
    congrArg Control.items hpoised.ahead
  rw [machine.execution.load_eq, hitems, Control.items_awaiting] at hload
  cases pending with
  | some token =>
    have hle := base.length_le_within frames
    simp at hload
    omega
  | none =>
    cases frames with
    | nil => exact hpoised
    | cons frame rest =>
      exact absurd (Control.length_lt_enter (base.length_le_within rest)) hload

/-- Below the base there is nothing left for the run to do. -/
theorem Departed.drained (hdeparted : Departed base machine) :
    ¬ base.items.length < machine.execution.load := by
  obtain ⟨outer, hleft, hnow⟩ := hdeparted
  have hlt := Control.length_lt_of_left? hleft
  rw [machine.execution.load_eq]
  obtain hpoised | ⟨-, callback, -, hpoised⟩ := hnow
  · have hitems : machine.execution.items = outer.items := congrArg Control.items hpoised.ahead
    rw [hitems]
    omega
  · have hitems : machine.execution.items = callback :: outer.items :=
      congrArg Control.items hpoised.ahead
    rw [hitems, List.length_cons]
    omega

/-- Scheduling the callback leaves everything else as it is. -/
theorem Poised.scheduleCallback (hpoised : Poised control machine) :
    Poised (control.push machine.callback)
      { machine.schedule machine.callback with callback := .void } :=
  ⟨congrArg (Control.push machine.callback) hpoised.ahead,
    ⟨hpoised.ordinary.operands, rfl, hpoised.ordinary.store⟩⟩

/-- Below the base a callback that is due goes on there. -/
theorem Departed.scheduleCallback (hdeparted : Departed base machine)
    (hcallback : machine.callback.isVoid = false) :
    Departed base { machine.schedule machine.callback with callback := .void } := by
  obtain ⟨outer, hleft, hpoised | ⟨hvoid, -⟩⟩ := hdeparted
  · exact ⟨outer, hleft, .inr ⟨rfl, machine.callback, hpoised.ordinary.callback,
      hpoised.scheduleCallback⟩⟩
  · rw [hvoid] at hcallback
    cases hcallback

/-- A callback that is due goes on above the base, or below it. -/
theorem callback_scheduled (hmachine : Standing base machine ∨ Departed base machine)
    (hload : ¬ base.items.length < machine.execution.load)
    (hcallback : machine.callback.isVoid = false) :
    Standing base { machine.schedule machine.callback with callback := .void } ∨
      Departed base { machine.schedule machine.callback with callback := .void } := by
  obtain hstanding | hdeparted := hmachine
  · have hpoised := hstanding.drained hload
    exact .inl (hpoised.scheduleCallback.standing_pending hpoised.ordinary.callback)
  · exact .inr (hdeparted.scheduleCallback hcallback)

/-- A run goes on after a step that succeeds and ends with one that fails. -/
theorem Leaves.ended {outcome result : Outcome} {next : Machine → Option Outcome}
    (hresult : (match result with
      | .ok _ machine => next machine
      | .error failure machine => some (.error failure machine)) = some outcome)
    (hleaves : Leaves base result)
    (hnext : ∀ machine, Standing base machine ∨ Departed base machine →
      next machine = some outcome → Ended base (Unfinished base) outcome) :
    Ended base (Unfinished base) outcome := by
  cases hleaves with
  | standing hstanding => exact hnext _ (.inl hstanding) hresult
  | departed hdeparted => exact hnext _ (.inr hdeparted) hresult
  | error hordinary hbelow =>
    obtain rfl := Option.some.inj hresult
    exact .error ⟨hordinary, hbelow⟩
  | fault =>
    obtain rfl := Option.some.inj hresult
    exact .fault

/-- A run that stands on its base ends back at it, or below it. -/
theorem Ended.of_run {host : HostOperators} (hhost : host.Tame) {fuel : Nat} {outcome : Outcome}
    (hmachine : Standing base machine ∨ Departed base machine)
    (hrun : Machine.run host fuel base.items.length machine = some outcome) :
    Ended base (Unfinished base) outcome := by
  induction fuel generalizing base machine outcome with
  | zero => cases hrun
  | succ fuel ih =>
    rw [Machine.run] at hrun
    by_cases hload : base.items.length < machine.execution.load
    · have hstanding := hmachine.resolve_right fun hdeparted => hdeparted.drained hload
      have hstep := hstanding.step hhost hload
      simp only [hload, if_true] at hrun
      cases heffect : Machine.step host machine with
      | finished result =>
        rw [heffect] at hrun hstep
        refine Leaves.ended ?_ hstep fun _ hnext => ih hnext
        cases result <;> exact hrun
      | executing token inner resume =>
        rw [heffect] at hrun hstep
        obtain ⟨htoken, hresume, frames, hframes, hinner⟩ := hstep
        have hbase : inner.control = base.within frames := hinner.ahead
        have hbaseLoad : inner.execution.load = (base.within frames).items.length := by
          rw [inner.execution.load_eq, ← hbase]
          rfl
        have hdepth : inner.depth = (base.within frames).depth := by
          rw [← hbase]
          rfl
        simp only [hbaseLoad, hdepth] at hrun
        cases hnested : Machine.run host fuel (base.within frames).items.length
            (inner.schedule token) with
        | none => simp [hnested] at hrun
        | some ended =>
          rw [hnested] at hrun
          -- The base of the statement inside has the frames of its caller on top, which is why
          -- the induction is for every base.
          have hended := ih (.inl ((hinner.schedule token).standing_pending htoken)) hnested
          have hresumed := hended.conclude.resume hframes hresume []
          exact Leaves.ended hrun (hresumed.leaves hframes) fun _ hnext => ih hnext
    · simp only [hload, if_false] at hrun
      cases hcallback : machine.callback with
      | void =>
        simp only [hcallback] at hrun
        obtain rfl := Option.some.inj hrun
        obtain hstanding | hdeparted := hmachine
        · exact .back (hstanding.drained hload) hcallback
        · exact .departed hdeparted hcallback
      | datum value attributes =>
        simp only [hcallback] at hrun
        rw [← hcallback] at hrun
        exact ih (callback_scheduled hmachine hload (by rw [hcallback]; rfl)) hrun

end Steps

namespace Machine

/-- A statement that fails leaves the execution stack and the depth as they were.  So does
one that succeeds, unless it has left a loop that was open before: then what is outside
that loop is left, and a callback if one was pending.  What the machine was about to do,
open frames of other statements included, may be anything. -/
theorem execute_control {host : HostOperators} (hhost : host.Tame) {machine : Machine}
    (hmachine : machine.Ordinary) {token : Token} (htoken : token.Ordinary) {fuel : Nat}
    {outcome : Outcome} (hexecute : execute host fuel token machine = some outcome) :
    (∀ error next, outcome = .error (.error error) next → next.control = machine.control) ∧
      ∀ next, outcome = .ok () next → next.control = machine.control ∨
        ∃ outer, machine.control.left? = some outer ∧
          (next.control = outer ∨ ∃ callback, next.control = outer.push callback) := by
  have hpoised : Poised machine.control machine := ⟨rfl, hmachine⟩
  have hstanding := (hpoised.schedule token).standing_pending htoken
  have hload : machine.execution.load = machine.control.items.length :=
    machine.execution.load_eq
  rw [execute, hload] at hexecute
  obtain ⟨ended, hrun, rfl⟩ := Option.map_eq_some_iff.1 hexecute
  have hended : Ended machine.control (Poised machine.control)
      (conclude machine.control.items.length machine.depth ended) :=
    (Ended.of_run hhost (.inl hstanding) hrun).conclude
  generalize conclude machine.control.items.length machine.depth ended = outcome at hended
  cases hended with
  | back hback => exact ⟨by simp, by rintro next ⟨⟩; exact .inl hback.ahead⟩
  | departed hdeparted =>
    obtain ⟨outer, hleft, hnow | ⟨-, callback, -, hnow⟩⟩ := hdeparted
    · exact ⟨by simp, by rintro next ⟨⟩; exact .inr ⟨outer, hleft, .inl hnow.ahead⟩⟩
    · exact ⟨by simp, by rintro next ⟨⟩; exact .inr ⟨outer, hleft, .inr ⟨callback, hnow.ahead⟩⟩⟩
  | error hback => exact ⟨by rintro error next ⟨⟩; exact hback.ahead, by simp⟩
  | fault => exact ⟨by simp, by simp⟩

/-- A machine in the middle of an endless loop. -/
def looping : Machine where
  store := { dictionaries := #[.empty, .empty] }
  scopes := ⟨⟨0⟩, ⟨1⟩, []⟩
  execution := TokenStack.empty.pushAll (Frame.loop ⟨⟨0⟩, [.integer 1]⟩ 0).tokens.reverse
  depth := 1

/-- A name without a binding fails within the loop, which stays open. -/
theorem execute_control_looping :
    ∃ next, execute HostOperator.operators 2 (.name "nowhere") looping =
        some (.error (.error (.undefinedName "nowhere")) next) ∧
      next.control = looping.control := by
  have hexecute : execute HostOperator.operators 2 (.name "nowhere") looping =
      some (.error (.error (.undefinedName "nowhere")) _) := rfl
  exact ⟨_, hexecute, (execute_control HostOperator.operators_tame (by decide) (by decide)
    hexecute).1 _ _ rfl⟩

/-- A statement that leaves a loop without having opened one leaves the loop of the
statement around it. -/
theorem execute_exit_looping :
    ¬ ∀ (machine : Machine) (token : Token) (fuel : Nat) (next : Machine),
      machine.Ordinary → token.Ordinary →
        execute HostOperator.operators fuel token machine = some (.ok () next) →
          next.control = machine.control := by
  intro hisolated
  have hexecute : execute HostOperator.operators 2 (.function "exit" .exit) looping =
      some (.ok () _) := rfl
  have hsame := hisolated looping _ 2 _ (by decide) (by decide) hexecute
  exact absurd (congrArg (fun control => control.items.length) hsame) (by decide)

end Machine

end StackLang
