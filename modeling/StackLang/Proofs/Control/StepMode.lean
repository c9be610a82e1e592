import StackLang.Machine.Host
import StackLang.Proofs.Control.Silence
import StackLang.Proofs.Control.Statements

/-!
# Step mode

Turning step mode on changes what a program says and nothing else, as long as there are texts
for it.  A run in step mode and one out of it take the same steps: each step is discreet, the
steps of the frames included, at which a machine in step mode pauses and makes its remarks.
So the runs need equally many steps and end with the same result, and what the one out of step
mode has said is what the other one has said, without the listings and the notes.  Only a
machine in step mode that is to show a dictionary without end dies there.

A host takes part in this if its own operators are discreet.
-/

namespace StackLang

variable {α β : Type} {before : List Diagnostic} {loud still : Machine}

/-! ## Steps -/

/-- Two steps come to the same, except that the machine in the second one has said less, or
that the first one has died in step mode.  If a token is executed first, it is the same one,
its outcome decides the same, and the step does not survive its death. -/
inductive SameEffect (before : List Diagnostic) : Effect → Effect → Prop where
  | finished {ended other : Outcome} (hsame : SameResult before ended other) :
    SameEffect before (.finished ended) (.finished other)
  | died {ended : Outcome} {other : Effect} (hdied : Died ended) :
    SameEffect before (.finished ended) other
  | executing {token : Token} {loud still : Machine} {resume further : Outcome → Outcome}
    (hsilenced : Silenced before loud still)
    (hresume : ∀ ⦃ended other⦄, SameResult before ended other →
      SameUnlessDied before (resume ended) (further other))
    (hdied : ∀ ⦃ended⦄, Died ended → Died (resume ended)) :
    SameEffect before (.executing token loud resume) (.executing token still further)

/-- What the operators of the host do depends on nothing that was said, and they do not turn
step mode on or off. -/
def HostOperators.Discreet (host : HostOperators) : Prop :=
  ∀ name ⦃before loud still⦄, Silenced before loud still →
    SameEffect before (host name loud) (host name still)

/-- An operation that is the whole step. -/
theorem SameUnlessDied.effect {ended other : Outcome} (hsame : SameUnlessDied before ended other) :
    SameEffect before (.finished ended) (.finished other) :=
  hsame.elim .died .finished

/-- The end of a hold is no matter of what was said. -/
theorem Silenced.releasing (hsilenced : Silenced before loud still) :
    Silenced before loud.releasing still.releasing :=
  { hsilenced with held := congrArg List.tail hsilenced.held }

theorem Died.released {ended : Outcome} (hdied : Died ended) :
    Died (Machine.mapOutcome Machine.releasing ended) := by
  obtain ⟨machine, rfl, hstep, hendless⟩ := hdied
  exact .intro hstep hendless

theorem SameResult.released {ended other : Outcome} (hsame : SameResult before ended other) :
    SameResult before (Machine.mapOutcome Machine.releasing ended)
      (Machine.mapOutcome Machine.releasing other) := by
  cases hsame with
  | ok hsilenced => exact .ok hsilenced.releasing
  | error hsilenced => exact .error hsilenced.releasing

theorem SameEffect.released {effect other : Effect} (hsame : SameEffect before effect other) :
    SameEffect before (effect.mapOutcome (Machine.mapOutcome Machine.releasing))
      (other.mapOutcome (Machine.mapOutcome Machine.releasing)) := by
  cases hsame with
  | finished hsame => exact .finished hsame.released
  | died hdied => exact .died hdied.released
  | executing hsilenced hresume hdied =>
    exact .executing hsilenced
      (fun _ _ hended => (hresume hended).imp Died.released SameResult.released)
      fun _ hended => (hdied hended).released

namespace Silenced

variable {host : HostOperators}

theorem call (hhost : host.Discreet) (operator : Operator)
    (hsilenced : Silenced before loud still) :
    SameEffect before (Machine.call host operator loud) (Machine.call host operator still) := by
  cases operator with
  | host name => exact hhost name hsilenced
  | _ => exact ((congruence before).runOperator _ hsilenced).effect

theorem dispatch (hhost : host.Discreet) (name : Name) (id : TableId)
    (hsilenced : Silenced before loud still) :
    SameEffect before (Machine.dispatch host name id loud)
      (Machine.dispatch host name id still) := by
  have hselected := (congruence before).selectOverload name id hsilenced
  simp only [Machine.dispatch, EStateM.run]
  obtain ⟨machine, hloud, hstep, hendless⟩ | hselected := hselected
  · rw [hloud]
    exact .died (.intro hstep hendless)
  · generalize Machine.selectOverload name id loud = ended at hselected
    generalize Machine.selectOverload name id still = other at hselected
    cases hselected with
    | error hsilenced => exact .finished (.error hsilenced)
    | @ok operator loud still hsilenced =>
      have hheld : Silenced before (loud.holding (.table name id))
          (still.holding (.table name id)) :=
        { hsilenced with held := congrArg (Holding.token (.table name id) :: ·) hsilenced.held }
      exact (hheld.call hhost operator).released

/-- A step in step mode does what it does out of step mode. -/
theorem step (hhost : host.Discreet) (hsilenced : Silenced before loud still) :
    SameEffect before (Machine.step host loud) (Machine.step host still) := by
  have hcongruence := congruence before
  have hbelow := hsilenced.unscheduled
  unfold Machine.step
  rw [hsilenced.execution]
  cases loud.execution.items with
  | nil => exact .finished (.error hsilenced)
  | cons token below =>
    cases token with
    | void => exact .finished (.ok hbelow)
    | datum value attributes =>
      cases value with
      | name name => exact (hcongruence.resolveTop name hsilenced).effect
      | procedure id body => exact (hcongruence.openFrame _ _ hsilenced).effect
      | litProcedure id body => exact (hcongruence.pushNew _ _ hbelow).effect
      | function name operator => exact hbelow.call hhost operator
      | table name id => exact hbelow.dispatch hhost name id
      | primitive primitive => exact (hcongruence.advance primitive hsilenced).effect
      | callback action => exact (hcongruence.scheduleNew _ _ hbelow).effect
      | integer | double | boolean | string | literal | array | dictionary | mark =>
        exact .finished (.ok (hbelow.push _))

/-! ## Runs -/

/-- A statement that fails is shown in step mode and out of it, if it has a text. -/
theorem conclude {ended other : Outcome} (hsame : SameResult before ended other)
    (base depth : Nat) :
    SameResult before (Machine.conclude base depth ended) (Machine.conclude base depth other) := by
  cases hsame with
  | ok hsilenced => exact .ok hsilenced
  | @error failure loud still hsilenced =>
    cases failure with
    | fault fault => exact .error hsilenced
    | error error =>
      have htext : still.backtrace? base error = loud.backtrace? base error := by
        rw [Machine.backtrace?, Machine.backtrace?, hsilenced.execution,
          Store.display?_congr hsilenced.store]
      have hreported := hsilenced.report (.statementFailed error)
      simp only [Machine.conclude, EStateM.run, Machine.abandon_eq, htext]
      cases loud.backtrace? base error with
      | none => exact .error hreported
      | some text =>
        exact .error { hreported.backtrace text with
          execution := congrArg (TokenStack.truncate base) hsilenced.execution
          depth := rfl }

/-- The run in step mode dies, or the two runs need equally many steps. -/
def SameRun (before : List Diagnostic) (first second : Option Outcome) : Prop :=
  (∃ ended, first = some ended ∧ Died ended) ∨ Option.Rel (SameResult before) first second

theorem run (hhost : host.Discreet) (fuel base : Nat) (hsilenced : Silenced before loud still) :
    SameRun before (Machine.run host fuel base loud) (Machine.run host fuel base still) := by
  induction fuel generalizing base loud still with
  | zero => exact .inr .none
  | succ fuel ih =>
    rw [Machine.run, Machine.run, hsilenced.execution, hsilenced.callback]
    by_cases hload : base < loud.execution.load
    · rw [if_pos hload, if_pos hload]
      have hstep := hsilenced.step hhost
      generalize Machine.step host loud = effect at hstep
      generalize Machine.step host still = other at hstep
      cases hstep with
      | finished hsame =>
        cases hsame with
        | ok hnext => exact ih base hnext
        | error hfailed => exact .inr (.some (.error hfailed))
      | died hdied =>
        obtain ⟨machine, rfl, hstep, hendless⟩ := hdied
        exact .inl ⟨_, rfl, .intro hstep hendless⟩
      | @executing token inner outer resume further hinner hresume hdied =>
        have hscheduled := hinner.schedule token
        -- Both statements inside drain down to the same load, so the induction compares them.
        have hnested := ih inner.execution.load hscheduled
        simp only [hinner.execution, hinner.depth]
        generalize Machine.run host fuel inner.execution.load (inner.schedule token) = ended
          at hnested
        generalize Machine.run host fuel inner.execution.load (outer.schedule token) = result
          at hnested
        obtain ⟨ended, rfl, machine, rfl, hnestedDied⟩ | hnested := hnested
        · obtain ⟨last, hlast, hstep, hendless⟩ := hdied ⟨machine, rfl, hnestedDied⟩
          simp only [Machine.conclude, hlast]
          exact .inl ⟨_, rfl, .intro hstep hendless⟩
        cases hnested with
        | none => exact .inr .none
        | @some ended result hsame =>
          have hresumed := hresume (conclude hsame inner.execution.load inner.depth)
          simp only
          generalize resume (Machine.conclude inner.execution.load inner.depth ended) = last
            at hresumed
          generalize further (Machine.conclude inner.execution.load inner.depth result) = final
            at hresumed
          obtain ⟨machine, rfl, hstep, hendless⟩ | hresumed := hresumed
          · exact .inl ⟨_, rfl, .intro hstep hendless⟩
          cases hresumed with
          | ok hnext => exact ih base hnext
          | error hfailed => exact .inr (.some (.error hfailed))
    · rw [if_neg hload, if_neg hload]
      cases loud.callback with
      | void => exact .inr (.some (.ok hsilenced))
      | datum value attributes =>
        exact ih base { hsilenced.schedule (.datum value attributes) with callback := rfl }

theorem execute (hhost : host.Discreet) (fuel : Nat) (token : Token)
    (hsilenced : Silenced before loud still) :
    SameRun before (Machine.execute host fuel token loud)
      (Machine.execute host fuel token still) := by
  have hrun := (hsilenced.schedule token).run hhost fuel loud.execution.load
  rw [Machine.execute, Machine.execute, hsilenced.execution, hsilenced.depth]
  generalize Machine.run host fuel loud.execution.load (loud.schedule token) = ended at hrun
  generalize Machine.run host fuel loud.execution.load (still.schedule token) = other at hrun
  obtain ⟨ended, rfl, machine, rfl, hdied⟩ | hrun := hrun
  · exact .inl ⟨_, rfl, machine, rfl, hdied⟩
  · cases hrun with
    | none => exact .inr .none
    | some hsame => exact .inr (.some (conclude hsame _ _))

theorem executeAll (hhost : host.Discreet) (fuel : Nat) (tokens : List Token)
    (hsilenced : Silenced before loud still) :
    SameRun before (Machine.executeAll host fuel tokens loud)
      (Machine.executeAll host fuel tokens still) := by
  induction tokens generalizing loud still with
  | nil => exact .inr (.some (.ok hsilenced))
  | cons token rest ih =>
    have hheld : Silenced before { loud with held := rest.map .token ++ loud.held }
        { still with held := rest.map .token ++ still.held } :=
      { hsilenced with held := congrArg (rest.map .token ++ ·) hsilenced.held }
    have hfirst := hheld.execute hhost fuel token
    rw [Machine.executeAll, Machine.executeAll]
    generalize Machine.execute host fuel token { loud with held := rest.map .token ++ loud.held } =
      ended at hfirst
    generalize Machine.execute host fuel token
      { still with held := rest.map .token ++ still.held } = other at hfirst
    obtain ⟨ended, rfl, machine, rfl, hdied⟩ | hfirst := hfirst
    · exact .inl ⟨_, rfl, _, rfl, hdied⟩
    cases hfirst with
    | none => exact .inr .none
    | some hsame =>
      cases hsame with
      | ok hnext => exact ih { hnext with held := hsilenced.held }
      | error hfailed => exact .inr (.some (.error { hfailed with held := hsilenced.held }))

end Silenced

/-! ## Hosts -/

namespace HostOperator

variable {operator : HostOperator}

theorem discreet_operation (operator : HostOperator) : Discreet operator.operation := by
  intro before
  have hcongruence := Silenced.congruence before
  change Respects (Silenced before) (fun _ => SameUnlessDied before) operator.operation
  cases operator with
  | snapshot => exact hcongruence.modify fun _ _ hsilenced => { hsilenced with }
  | setCallback =>
    exact hcongruence.bind hcongruence.pop fun _ => hcongruence.bind (hcongruence.claim _) fun _ =>
      hcongruence.modify fun _ _ hsilenced => { hsilenced with callback := rfl }
  | attempt => exact hcongruence.pure _

theorem discreet_noteSuccess {ended other : Outcome} (hsame : SameResult before ended other) :
    SameUnlessDied before (noteSuccess ended) (noteSuccess other) := by
  cases hsame with
  | ok hsilenced => exact (Silenced.congruence before).pushNew _ _ hsilenced
  | @error failure loud still hsilenced =>
    cases failure with
    | error error => exact (Silenced.congruence before).pushNew _ _ hsilenced
    | fault fault => exact .error _ hsilenced

/-- No attempt survives a death in step mode. -/
theorem died_noteSuccess {ended : Outcome} (hdied : Died ended) : Died (noteSuccess ended) := by
  obtain ⟨machine, rfl, hstep, hendless⟩ := hdied
  exact .intro hstep hendless

theorem discreet_attempt (hsilenced : Silenced before loud still) :
    SameEffect before (executeOperand noteSuccess loud) (executeOperand noteSuccess still) := by
  have hpopped := (Silenced.congruence before).pop hsilenced
  simp only [executeOperand, EStateM.run]
  obtain ⟨machine, hloud, hstep, hendless⟩ | hpopped := hpopped
  · rw [hloud]
    exact .died (.intro hstep hendless)
  · generalize Machine.pop loud = ended at hpopped
    generalize Machine.pop still = other at hpopped
    cases hpopped with
    | ok hnext =>
      exact .executing hnext (fun _ _ => discreet_noteSuccess) fun _ => died_noteSuccess
    | error hfailed => exact .finished (.error hfailed)

/-- The operators of an embedding program are discreet. -/
theorem discreet_operators : operators.Discreet := by
  intro name before loud still hsilenced
  unfold operators
  cases catalogue.lookup name with
  | none => exact .finished (.ok hsilenced)
  | some operator =>
    cases operator with
    | attempt => exact discreet_attempt hsilenced
    | _ => exact (discreet_operation _ hsilenced).effect

end HostOperator

/-! ## Pauses -/

namespace Machine

/-- The command that answers a pause next; without commands the program goes on. -/
def command (machine : Machine) : DebugCommand :=
  ((machine.prompt.getD []).head?).getD .proceed

/-- The machine once that command has been given. -/
def commanded (machine : Machine) : Machine :=
  { machine with prompt := machine.prompt.map List.tail }

/-- A machine asks for commands until it is told to go on, and shows the body whenever it is
told to.  The last machine is the one that goes on. -/
inductive Asks (body : List Token) (position : Int64) : Machine → Machine → Prop where
  | proceed {machine : Machine} (hcommand : machine.command = .proceed) :
    Asks body position machine
      (machine.commanded.report (.paused position.toInt.toNat body.length .proceed))
  | list {machine next last : Machine} (hcommand : machine.command = .list)
    (hshown : showListing body position machine.commanded = .ok () next)
    (hagain : Asks body position next last) : Asks body position machine last

/-- The machine has shown the body, whose listing has a text. -/
def listed (body : List Token) (position : Int64) (text : String) (machine : Machine) : Machine :=
  (machine.report (.paused position.toInt.toNat body.length .list)).emit .listing (text ++ "\n")

theorem showListing_eq (body : List Token) (position : Int64) (machine : Machine) :
    showListing body position machine =
      match Token.listing? machine.store.display? "" position.toInt body with
      | none => .error (.fault .endlessText)
          (machine.report (.paused position.toInt.toNat body.length .list))
      | some text => .ok () (machine.listed body position text) := by
  have hquiet : (machine.report (.paused position.toInt.toNat body.length .list)).store.display? =
      machine.store.display? := Store.display?_congr rfl
  simp only [showListing, bind, EStateM.bind, modify, modifyGet, MonadStateOf.modifyGet,
    EStateM.modifyGet, get, getThe, MonadStateOf.get, EStateM.get, hquiet]
  cases Token.listing? machine.store.display? "" position.toInt body <;> rfl

theorem listings_succ (body : List Token) (position : Int64) (text : String) (count : Nat)
    (machine : Machine) :
    (count + 1).repeat (listed body position text) machine =
      count.repeat (listed body position text) (machine.listed body position text) := by
  induction count with
  | zero => rfl
  | succ count ih => rw [Nat.repeat, ih, Nat.repeat]

/-- Showing listings takes no commands. -/
theorem listings_prompt (body : List Token) (position : Int64) (text : String) (count : Nat)
    (machine : Machine) (prompt : Option (List DebugCommand)) :
    count.repeat (listed body position text) { machine with prompt } =
      { count.repeat (listed body position text) machine with prompt } := by
  induction count with
  | zero => rfl
  | succ count ih =>
    rw [Nat.repeat, ih, Nat.repeat]
    rfl

theorem prompt_listings (body : List Token) (position : Int64) (text : String) (count : Nat)
    (machine : Machine) :
    (count.repeat (listed body position text) machine).prompt = machine.prompt := by
  induction count with
  | zero => rfl
  | succ count ih => exact ih

section Pause

variable {body : List Token} {position : Int64} {text : String} {machine : Machine}

theorem showListings_eq
    (htext : Token.listing? machine.store.display? "" position.toInt body = some text)
    (count : Nat) :
    showListings body position count machine =
      .ok () (count.repeat (listed body position text) machine) := by
  induction count generalizing machine with
  | zero => rfl
  | succ count ih =>
    have hagain : Token.listing? (machine.listed body position text).store.display? ""
        position.toInt body = some text := by
      have hquiet : (machine.listed body position text).store.display? = machine.store.display? :=
        Store.display?_congr rfl
      rwa [hquiet]
    rw [listings_succ, ← ih hagain]
    simp only [showListings, bind, EStateM.bind, showListing_eq, htext]

/-- Without a request for a listing, a pause takes one command, if there is one. -/
theorem proceed_eq (body : List Token) (position : Int64)
    (hnone : (splitCommands (machine.prompt.getD [])).1 = 0) :
    machine.command = .proceed ∧
      proceed body position (splitCommands (machine.prompt.getD [])).2 machine =
        machine.commanded.report (.paused position.toInt.toNat body.length .proceed) := by
  cases hprompt : machine.prompt with
  | none =>
    refine ⟨by rw [command, hprompt]; rfl, ?_⟩
    rw [proceed, commanded, hprompt]
    rfl
  | some commands =>
    rw [hprompt] at hnone
    cases commands with
    | nil =>
      refine ⟨by rw [command, hprompt]; rfl, ?_⟩
      rw [proceed, commanded, hprompt]
      rfl
    | cons first rest =>
      cases first with
      | proceed =>
        refine ⟨by rw [command, hprompt]; rfl, ?_⟩
        rw [proceed, commanded, hprompt]
        rfl
      | list => simp [splitCommands, List.span_eq_takeWhile_dropWhile] at hnone

/-- The machine behind a pause at which all listings have a text. -/
def passed (body : List Token) (position : Int64) (text : String) (machine : Machine) : Machine :=
  proceed body position (splitCommands (machine.prompt.getD [])).2
    ((splitCommands (machine.prompt.getD [])).1.repeat (listed body position text) machine)

/-- Behind a listing, a pause goes on as it would have without it. -/
theorem passed_list {rest : List DebugCommand} (hprompt : machine.prompt = some (.list :: rest)) :
    (machine.commanded.listed body position text).passed body position text =
      machine.passed body position text := by
  obtain ⟨count, left, hsplit⟩ : ∃ count left, splitCommands rest = (count, left) := ⟨_, _, rfl⟩
  have hmore : splitCommands (.list :: rest) = (count + 1, left) := by
    simp only [splitCommands, List.span_eq_takeWhile_dropWhile] at hsplit ⊢
    simpa using hsplit
  have hshown : machine.commanded.listed body position text =
      { machine.listed body position text with prompt := some rest } := by
    rw [commanded, hprompt]
    rfl
  rw [hshown, passed, passed, hprompt]
  simp only [Option.getD_some, hsplit, hmore, listings_prompt, listings_succ]
  simp only [proceed, report, prompt_listings]
  rw [show (machine.listed body position text).prompt = machine.prompt from rfl, hprompt]
  rfl

theorem asks_passed
    (htext : Token.listing? machine.store.display? "" position.toInt body = some text) :
    Asks body position machine (machine.passed body position text) := by
  have hlast : ∀ {machine : Machine}, (splitCommands (machine.prompt.getD [])).1 = 0 →
      Asks body position machine (machine.passed body position text) := by
    intro machine hnone
    obtain ⟨hcommand, hproceed⟩ := proceed_eq body position hnone
    rw [passed, hnone, Nat.repeat, hproceed]
    exact .proceed hcommand
  cases hprompt : machine.prompt with
  | none => exact hlast (by rw [hprompt]; rfl)
  | some commands =>
    induction commands generalizing machine with
    | nil => exact hlast (by rw [hprompt]; rfl)
    | cons first rest ih =>
      cases first with
      | proceed => exact hlast (by rw [hprompt]; rfl)
      | list =>
        have hcommanded : Token.listing? machine.commanded.store.display? "" position.toInt body =
            some text := htext
        have hshown : showListing body position machine.commanded =
            .ok () (machine.commanded.listed body position text) := by
          rw [showListing_eq, hcommanded]
        have hquiet : (machine.commanded.listed body position text).store.display? =
            machine.store.display? := Store.display?_congr rfl
        have hrest : (machine.commanded.listed body position text).prompt = some rest := by
          change machine.commanded.prompt = some rest
          rw [commanded, hprompt]
          rfl
        rw [← passed_list hprompt]
        exact .list (by rw [command, hprompt]; rfl) hshown (ih (by rwa [hquiet]) hrest)

/-- In step mode, every pause is such a loop, and it ends, unless the body is to be shown and
has no text. -/
theorem asks_pause (hstep : machine.config.stepMode = true) :
    (∃ last, pause body position machine = .ok () last ∧ Asks body position machine last) ∨
      (∃ last, pause body position machine = .error (.fault .endlessText) last) ∧
        Token.listing? machine.store.display? "" position.toInt body = none := by
  have hpause : pause body position machine =
      EStateM.bind (showListings body position (splitCommands (machine.prompt.getD [])).1)
        (fun _ => modify (proceed body position (splitCommands (machine.prompt.getD [])).2))
        machine := by
    simp only [pause, bind, EStateM.bind, get, getThe, MonadStateOf.get, EStateM.get, hstep,
      if_true]
  rw [hpause]
  cases htext : Token.listing? machine.store.display? "" position.toInt body with
  | some text =>
    refine .inl ⟨machine.passed body position text, ?_, asks_passed htext⟩
    simp only [EStateM.bind, showListings_eq htext]
    rfl
  | none =>
    cases hcount : (splitCommands (machine.prompt.getD [])).1 with
    | zero =>
      obtain ⟨hcommand, hproceed⟩ := proceed_eq body position hcount
      refine .inl ⟨_, rfl, ?_⟩
      rw [hproceed]
      exact .proceed hcommand
    | succ count =>
      refine .inr ⟨⟨machine.report (.paused position.toInt.toNat body.length .list), ?_⟩, rfl⟩
      simp only [EStateM.bind, showListings, bind, showListing_eq, htext]

end Pause

/-- Step mode only adds diagnostics, unless there are none to add.  Whatever the machine, the
statements and the commands for its pauses are, the statements end in step mode within as many
steps as out of it, and then with the same result, the same operands, dictionaries, scopes,
execution stack, open frames and callback; what is said out of step mode is what is said in
step mode, without the listings and the notes.  And every pause in step mode ends.  Only where
a dictionary is to be shown that has no text, the machine in step mode dies. -/
theorem executeAll_stepMode {host : HostOperators} (hhost : host.Discreet) (fuel : Nat)
    (statements : List Token) (machine : Machine) :
    ((∃ ended, executeAll host fuel statements (machine.setStepMode true) = some ended ∧
          Died ended) ∨
        Option.Rel (SameResult machine.diagnostics)
          (executeAll host fuel statements (machine.setStepMode true))
          (executeAll host fuel statements (machine.setStepMode false))) ∧
      ∀ (paused : Machine) (body : List Token) (position : Int64),
        paused.config.stepMode = true →
          (∃ last, pause body position paused = .ok () last ∧ Asks body position paused last) ∨
            (∃ last, pause body position paused = .error (.fault .endlessText) last) ∧
              Token.listing? paused.store.display? "" position.toInt body = none := by
  have hsilenced : Silenced machine.diagnostics (machine.setStepMode true)
      (machine.setStepMode false) :=
    { operands := rfl
      execution := rfl
      store := rfl
      scopes := rfl
      config := rfl
      depth := rfl
      callback := rfl
      held := rfl
      room := rfl
      slack := rfl
      said := ⟨[], rfl, rfl⟩ }
  exact ⟨hsilenced.executeAll hhost fuel statements, fun _ _ _ => asks_pause⟩

/-- A new machine repeats a body twice and is asked for a listing at its first pause. -/
theorem executeAll_stepMode_one_listing :
    ∃ fresh, create {} Registration.standard = .ok fresh ∧
      let machine := fresh.setPrompt [.list, .proceed]
      let statements : List Token :=
        [.integer 2, .procedure ⟨⟨0⟩, [.integer 1]⟩, .name "repeat"]
      (executeAll HostOperator.operators 20 statements (machine.setStepMode true)).isSome ∧
      Option.Rel (SameResult machine.diagnostics)
        (executeAll HostOperator.operators 20 statements (machine.setStepMode true))
        (executeAll HostOperator.operators 20 statements (machine.setStepMode false)) ∧
      ∃ last, pause [.integer 1] 0 (machine.setStepMode true) = .ok () last ∧
        Asks [.integer 1] 0 (machine.setStepMode true) last := by
  have hchecked : (create {} Registration.standard).toOption.any (fun fresh =>
      (executeAll HostOperator.operators 20
        [.integer 2, .procedure ⟨⟨0⟩, [.integer 1]⟩, .name "repeat"]
        ((fresh.setPrompt [.list, .proceed]).setStepMode true)).any
          fun ended => !decide (Faulted ended)) = true := by
    decide +kernel
  obtain ⟨fresh, hfresh, hends⟩ := (Option.any_eq_true _ _).1 hchecked
  obtain ⟨ended, hended, hspared⟩ := (Option.any_eq_true _ _).1 hends
  obtain ⟨hsame, hpauses⟩ := executeAll_stepMode HostOperator.discreet_operators 20
    [.integer 2, .procedure ⟨⟨0⟩, [.integer 1]⟩, .name "repeat"]
    (fresh.setPrompt [.list, .proceed])
  refine ⟨fresh, eq_ok_of_toOption hfresh, Option.isSome_iff_exists.2 ⟨ended, hended⟩, ?_, ?_⟩
  · refine hsame.resolve_left ?_
    rintro ⟨_, hother, machine, rfl, -⟩
    cases hended.symm.trans hother
    cases hspared
  · refine (hpauses _ [.integer 1] 0 rfl).resolve_right ?_
    rintro ⟨-, hnone⟩
    cases hnone

/-- A loop over an array, whose element is an array with a dictionary without end. -/
def visitKnot : List Token :=
  [.ofValue (.array [.ofValue (.array [knot])]),
    .ofValue (.litProcedure ⟨0⟩ [.function "pop" .pop]), .function "forall" .forAll]

/-- In step mode there is no text for the note about the element, while out of step mode the
loop ends. -/
theorem executeAll_stepMode_endless_note :
    (∃ still, executeAll .inert 20 visitKnot (entangled.setStepMode false) = some still ∧
        ¬ Faulted still) ∧
      ¬ Option.Rel (SameResult entangled.diagnostics)
        (executeAll .inert 20 visitKnot (entangled.setStepMode true))
        (executeAll .inert 20 visitKnot (entangled.setStepMode false)) := by
  have hchecked :
      (executeAll .inert 20 visitKnot (entangled.setStepMode true)).any
          (fun loud => decide (Faulted loud)) = true ∧
        (executeAll .inert 20 visitKnot (entangled.setStepMode false)).any
          (fun still => !decide (Faulted still)) = true := by
    decide +kernel
  obtain ⟨loud, hloud, hfaulted⟩ := (Option.any_eq_true _ _).1 hchecked.1
  obtain ⟨still, hstill, hunfaulted⟩ := (Option.any_eq_true _ _).1 hchecked.2
  have hspared : ¬ Faulted still := by simpa using hunfaulted
  refine ⟨⟨still, hstill, hspared⟩, ?_⟩
  rw [hloud, hstill]
  intro hsame
  cases hsame with
  | some hsame =>
    cases hsame with
    | ok => cases hfaulted
    | @error failure =>
      cases failure with
      | error => cases hfaulted
      | fault => exact hspared trivial

end Machine

end StackLang
