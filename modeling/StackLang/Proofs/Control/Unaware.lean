import StackLang.Proofs.Control.Elements
import StackLang.Proofs.Control.Silence

/-!
# What a pending callback does not affect

No operator of the language looks at the pending callback, and none sets it.  Where storage
never runs out, a step therefore does the same whatever is pending: the machine that it
leaves differs from the one that it would have left otherwise in the callback alone.

A callback takes up storage, and it may keep a dictionary alive that an alias leads to.  The
first matters only where storage is limited, the second only to operators of a host, which
read dictionaries from the operand stack.
-/

namespace StackLang

variable {α β : Type} {host : HostOperators}

namespace Machine

/-- With another callback pending. -/
def withCallback (callback : Token) (machine : Machine) : Machine :=
  { machine with callback }

end Machine

open Machine (withCallback)

/-- Results that are the same except that another callback is pending in the second one, of
machines that storage does not limit. -/
inductive ButCallback (other : Token) :
    EStateM.Result Failure Machine α → EStateM.Result Failure Machine α → Prop where
  | ok {value : α} {machine : Machine} (hroom : machine.room = none) :
    ButCallback other (.ok value machine) (.ok value (machine.withCallback other))
  | error {failure : Failure} {machine : Machine} (hroom : machine.room = none) :
    ButCallback other (.error failure machine) (.error failure (machine.withCallback other))

/-- Where storage is unlimited, the operation does the same whatever is pending. -/
def Unaware (operation : Operation α) : Prop :=
  ∀ ⦃machine⦄ other, machine.room = none →
    ButCallback other (operation machine) (operation (machine.withCallback other))

/-- Two steps that are the same except that another callback is pending in the second one. -/
def SameStep (other : Token) (first second : Effect) : Prop :=
  ∃ ended result, first = .finished ended ∧ second = .finished result ∧
    ButCallback other ended result

/-- Storage limits neither machine, and the second one is the first one with another callback
pending. -/
structure DiffersInCallback (other : Token) (machine twin : Machine) : Prop where
  room : machine.room = none
  twin : twin = machine.withCallback other

namespace DiffersInCallback

variable {other : Token} {machine twin : Machine}

theorem returned (value : α) :
    Respects (DiffersInCallback other) (fun _ => ButCallback other) (Pure.pure value) := by
  rintro machine _ ⟨hroom, rfl⟩
  exact .ok hroom

/-- What follows the same results is the same. -/
theorem bind {first : Operation α} {next : α → Operation β}
    (hfirst : ButCallback other (first machine) (first twin))
    (hnext : ∀ value,
      Respects (DiffersInCallback other) (fun _ => ButCallback other) (next value)) :
    ButCallback other ((first >>= next) machine) ((first >>= next) twin) := by
  simp only [Bind.bind, EStateM.bind]
  generalize first machine = ended at hfirst
  generalize first twin = result at hfirst
  cases hfirst with
  | ok hroom => exact hnext _ ⟨hroom, rfl⟩
  | error hroom => exact .error hroom

theorem say (other : Token) (kind : DiagnosticKind) (text : Option String) :
    Respects (DiffersInCallback other) (fun _ => ButCallback other) (Machine.say kind text) := by
  rintro machine _ ⟨hroom, rfl⟩
  cases text with
  | none => exact .error hroom
  | some text => exact .ok hroom

theorem note (other : Token) (text : Store → Option String) :
    Respects (DiffersInCallback other) (fun _ => ButCallback other) (Machine.note text) := by
  refine Respects.get fun machine twin hdiffers => ?_
  have hstep : twin.config.stepMode = machine.config.stepMode :=
    congrArg (·.config.stepMode) hdiffers.twin
  have hstore : twin.store = machine.store := congrArg (·.store) hdiffers.twin
  rw [hstep, hstore]
  split
  · exact say other _ _ hdiffers
  · exact returned () hdiffers

theorem showListing (other : Token) (body : List Token) (position : Int64) :
    Respects (DiffersInCallback other) (fun _ => ButCallback other)
      (Machine.showListing body position) := by
  rintro machine _ ⟨hroom, rfl⟩
  let paused := machine.report (.paused position.toInt.toNat body.length .list)
  have hpaused : DiffersInCallback other paused (paused.withCallback other) := ⟨hroom, rfl⟩
  exact say other .listing _ hpaused

theorem showListings (other : Token) (body : List Token) (position : Int64) (count : Nat) :
    Respects (DiffersInCallback other) (fun _ => ButCallback other)
      (Machine.showListings body position count) := by
  induction count with
  | zero => exact returned ()
  | succ count ih =>
    exact fun _ _ hdiffers => bind (showListing other body position hdiffers) fun _ => ih

theorem pause (other : Token) (body : List Token) (position : Int64) :
    Respects (DiffersInCallback other) (fun _ => ButCallback other)
      (Machine.pause body position) := by
  refine Respects.get fun machine twin hdiffers => ?_
  have hstep : twin.config.stepMode = machine.config.stepMode :=
    congrArg (·.config.stepMode) hdiffers.twin
  have hprompt : twin.prompt = machine.prompt := congrArg (·.prompt) hdiffers.twin
  rw [hstep, hprompt]
  split
  · refine bind (showListings other body position _ hdiffers) fun _ => ?_
    rintro machine _ ⟨hroom, rfl⟩
    exact .ok hroom
  · exact returned () hdiffers

theorem claim (other : Token) (inHand : List Holding) :
    Respects (DiffersInCallback other) (fun _ => ButCallback other) (Machine.claim inHand) := by
  rintro machine _ ⟨hroom, rfl⟩
  have hother : (machine.withCallback other).room = none := hroom
  rw [Machine.claim_eq, Machine.claim_eq, hroom, hother]
  exact .ok hroom

theorem define (other : Token) (name : Name) (token : Token) :
    Respects (DiffersInCallback other) (fun _ => ButCallback other)
      (Machine.define name token) := by
  refine Respects.get fun machine twin hdiffers => ?_
  obtain ⟨hroom, rfl⟩ := hdiffers
  have htop : (machine.withCallback other).scopes.top = machine.scopes.top := rfl
  have hstore : (machine.withCallback other).store = machine.store := rfl
  simp only [htop, hstore]
  cases (machine.store.dictionary machine.scopes.top).peek? name with
  | none => exact .ok hroom
  | some bound =>
    simp only
    split
    · exact .error hroom
    · exact .ok hroom

theorem lookup (other : Token) (name : Name) :
    Respects (DiffersInCallback other) (fun _ => ButCallback other) (Machine.lookup name) := by
  refine Respects.get fun machine twin hdiffers => ?_
  obtain ⟨hroom, rfl⟩ := hdiffers
  have hfound : (machine.withCallback other).scopes.lookup (machine.withCallback other).store name =
      machine.scopes.lookup machine.store name := rfl
  simp only [hfound]
  cases machine.scopes.lookup machine.store name with
  | none => exact .ok hroom
  | some found =>
    have hcopied : ButCallback other
        ((Machine.claim [.token found.1] >>= fun _ => Pure.pure (some found.1))
          { machine with store := found.2 })
        ((Machine.claim [.token found.1] >>= fun _ => Pure.pure (some found.1))
          ({ machine with store := found.2 }.withCallback other)) :=
      bind (claim other [.token found.1] ⟨hroom, rfl⟩) fun _ => returned (some found.1)
    exact hcopied

/-- No operator of the language and no step of a frame looks at what is pending. -/
theorem congruence (other : Token) :
    Congruence (DiffersInCallback other) (fun _ => ButCallback other) where
  ok value hdiffers := returned value hdiffers
  error := by
    rintro _ _ _ failure ⟨hroom, rfl⟩
    exact .error hroom
  followed := bind
  operands hdiffers := by rw [hdiffers.twin]; rfl
  execution hdiffers := by rw [hdiffers.twin]; rfl
  table hdiffers id := congrArg (·.store.table id) hdiffers.twin
  elimination hdiffers := congrArg (·.config.tailElimination) hdiffers.twin
  withOperands hdiffers operands :=
    ⟨hdiffers.room, congrArg (fun machine => { machine with operands }) hdiffers.twin⟩
  withControl hdiffers execution count :=
    ⟨hdiffers.room, congrArg
      (fun machine => { machine with execution, depth := count machine.depth }) hdiffers.twin⟩
  report hdiffers event := ⟨hdiffers.room, congrArg (Machine.report event) hdiffers.twin⟩
  note _ := note other _
  pause := pause other
  claim := claim other
  define := define other
  lookup := lookup other

end DiffersInCallback

namespace Unaware

theorem of_respects {operation : Operation α}
    (hrespects : ∀ other,
      Respects (DiffersInCallback other) (fun _ => ButCallback other) operation) :
    Unaware operation :=
  fun _ other hroom => hrespects other ⟨hroom, rfl⟩

theorem pushNew (token : Token) (inHand : List Holding) :
    Unaware (Machine.pushNew token inHand) :=
  of_respects fun other => (DiffersInCallback.congruence other).pushNew token inHand

theorem scheduleNew (token : Token) (inHand : List Holding) :
    Unaware (Machine.scheduleNew token inHand) :=
  of_respects fun other => (DiffersInCallback.congruence other).scheduleNew token inHand

theorem openFrame (primitive : Primitive) (parts : List Holding) :
    Unaware (Machine.openFrame primitive parts) :=
  of_respects fun other => (DiffersInCallback.congruence other).openFrame primitive parts

theorem runOperator (operator : Operator) : Unaware (Machine.runOperator operator) :=
  of_respects fun other => (DiffersInCallback.congruence other).runOperator operator

theorem advance (primitive : Primitive) : Unaware (Machine.advance primitive) :=
  of_respects fun other => (DiffersInCallback.congruence other).advance primitive

theorem selectOverload (name : Name) (id : TableId) :
    Unaware (Machine.selectOverload name id) :=
  of_respects fun other => (DiffersInCallback.congruence other).selectOverload name id

theorem resolveTop (name : Name) : Unaware (Machine.resolveTop name) :=
  of_respects fun other => (DiffersInCallback.congruence other).resolveTop name

/-! ## Steps -/

/-- What an operation of the language makes of a step. -/
theorem finished {operation : Operation Unit} (hunaware : Unaware operation) {machine : Machine}
    (other : Token) (hroom : machine.room = none) :
    SameStep other (.finished (operation.run machine))
      (.finished (operation.run (machine.withCallback other))) :=
  ⟨_, _, rfl, rfl, hunaware other hroom⟩

theorem call {operator : Operator} (hlanguage : ∀ name, operator ≠ .host name) {machine : Machine}
    (other : Token) (hroom : machine.room = none) :
    SameStep other (Machine.call host operator machine)
      (Machine.call host operator (machine.withCallback other)) := by
  cases operator with
  | host name => exact absurd rfl (hlanguage name)
  | _ => exact (runOperator _).finished other hroom

theorem dispatch {machine : Machine} (hcalls : machine.CallsOnly .language) (name : Name)
    (id : TableId) (htable : (machine.store.table id).SelectsInLanguage) (other : Token)
    (hroom : machine.room = none) :
    SameStep other (Machine.dispatch host name id machine)
      (Machine.dispatch host name id (machine.withCallback other)) := by
  have hoperator := (Evolves.refl hcalls).selectOverload name id htable
  have hboth := selectOverload name id other hroom
  simp only [Machine.dispatch, EStateM.run]
  generalize Machine.selectOverload name id machine = selected at hoperator hboth
  generalize Machine.selectOverload name id (machine.withCallback other) = result at hboth
  cases hboth with
  | error hroom => exact ⟨_, _, rfl, rfl, .error hroom⟩
  | @ok operator next hroom =>
    cases hoperator with
    | ok hlanguage =>
      have hheld : (next.holding (.table name id)).room = none := hroom
      obtain ⟨ended, result, hended, hresult, hboth⟩ := call hlanguage other hheld
      refine ⟨Machine.mapOutcome Machine.releasing ended,
        Machine.mapOutcome Machine.releasing result,
        congrArg (Effect.mapOutcome (Machine.mapOutcome Machine.releasing)) hended,
        congrArg (Effect.mapOutcome (Machine.mapOutcome Machine.releasing)) hresult, ?_⟩
      cases hboth with
      | ok hlast => exact .ok hlast
      | error hlast => exact .error hlast

end Unaware

/-- Whatever is pending, a step does the same. -/
theorem Machine.InLanguage.sameStep {machine : Machine} (hlanguage : machine.InLanguage)
    (host : HostOperators) (other : Token) (hroom : machine.room = none) :
    SameStep other (Machine.step host machine)
      (Machine.step host (machine.withCallback other)) := by
  have hbelow : machine.unscheduled.room = none := hroom
  have hitems : (machine.withCallback other).execution.items = machine.execution.items := rfl
  unfold Machine.step
  rw [hitems]
  split
  · exact ⟨_, _, rfl, rfl, .error hroom⟩
  · exact ⟨_, _, rfl, rfl, .ok hbelow⟩
  · rename_i value attributes below htop
    have hcalls : (Token.datum value attributes).CallsOnly .language :=
      hlanguage.calls.execution _ (by simp [htop])
    cases value with
    | name name => exact (Unaware.resolveTop name).finished other hroom
    | procedure id body => exact (Unaware.openFrame _ _).finished other hroom
    | litProcedure id body => exact (Unaware.pushNew _ _).finished other hbelow
    | function name operator =>
      exact Unaware.call (Operator.not_host_of_inLanguage hcalls.operator) other hbelow
    | table name id =>
      have hunscheduled : machine.unscheduled.CallsOnly .language :=
        ((Evolves.refl hlanguage.calls).dropTop 1 machine.depth).calls
      exact Unaware.dispatch hunscheduled name id (hlanguage.tables.selects id) other hbelow
    | primitive primitive => exact (Unaware.advance primitive).finished other hroom
    | callback action => exact (Unaware.scheduleNew _ _).finished other hbelow
    | integer | double | boolean | string | literal | array | dictionary | mark =>
      exact ⟨_, _, rfl, rfl, .ok hbelow⟩

end StackLang
