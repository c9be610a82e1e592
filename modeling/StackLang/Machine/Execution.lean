import StackLang.Machine.Backtrace
import StackLang.Machine.Operators

/-!
# Execution

Executing a token means pushing it on the execution stack and stepping until the
stack has drained to where it was.  A step looks at the top token and does what
its type asks for.  When the stack has drained, a pending callback runs once.

A host may offer operators of its own, and one of them may execute a token in
the middle of a statement.  Such an operator does not return a result at once
but asks for the execution and says how to go on with its outcome.

How many steps a program takes is not known beforehand, so a run is given a
number of steps that it may take, and answers nothing if they do not suffice.
-/

namespace StackLang

/-- What a step comes to. -/
inductive Effect where
  | finished (outcome : Outcome)
  /-- A token is to be executed first; its outcome decides how the step ends. -/
  | executing (token : Token) (machine : Machine) (resume : Outcome → Outcome)

/-- The operators that a host offers, by name. -/
abbrev HostOperators := Name → Machine → Effect

namespace Effect

/-- Applies a function to the outcome of a step. -/
def mapOutcome (f : Outcome → Outcome) : Effect → Effect
  | finished outcome => finished (f outcome)
  | executing token machine resume => executing token machine (f ∘ resume)

end Effect

namespace Machine

/-- Changes the machine in an outcome. -/
def mapOutcome (f : Machine → Machine) : Outcome → Outcome
  | .ok value machine => .ok value (f machine)
  | .error failure machine => .error failure (f machine)

/-- Has the host hold a token while something happens. -/
def holding (token : Token) (machine : Machine) : Machine :=
  { machine with held := .token token :: machine.held }

/-- Ends the hold of a token. -/
def releasing (machine : Machine) : Machine :=
  { machine with held := machine.held.tail }

/-- Calls an operator. -/
def call (host : HostOperators) : Operator → Machine → Effect
  | .host name, machine => host name machine
  | operator, machine => .finished ((runOperator operator).run machine)

/-- Selects the overload that fits the operands. -/
def selectOverload (name : Name) (id : TableId) : Operation Operator := do
  let machine ← get
  match (machine.store.table id).select machine.operands.operandTypes with
  | .error error =>
    modify (report (.noOverload name error))
    throw (.error error)
  | .ok (.datum (.function _ operator) _) => return operator
  | .ok other => throw (.error (.typeMismatch TypeTag.function.typeName other.typeName))

/-- Selects and calls an overload.  The table is held until the operator returns. -/
def dispatch (host : HostOperators) (name : Name) (id : TableId) (machine : Machine) :
    Effect :=
  match (selectOverload name id).run machine with
  | .error failure machine => .finished (.error failure machine)
  | .ok operator machine =>
    (call host operator (machine.holding (.table name id))).mapOutcome (mapOutcome releasing)

/-- Replaces the name on top of the execution stack by its binding. -/
def resolveTop (name : Name) : Operation Unit := do
  match ← lookup name with
  | none => throw (.error (.undefinedName name.text))
  | some token =>
    let machine ← get
    let execution ← orFail (machine.execution.replace 0 token)
    set { machine with execution }

/-- The machine without the top of its execution stack. -/
def unscheduled (machine : Machine) : Machine :=
  { machine with execution := machine.execution.dropTop 1 }

/-- One step: does what the token on top of the execution stack asks for. -/
def step (host : HostOperators) (machine : Machine) : Effect :=
  match machine.execution.items with
  | [] => .finished (.error (.error (.stackUnderflow 1 0)) machine)
  | .void :: _ => .finished (.ok () machine.unscheduled)
  | .datum value attributes :: _ =>
    match value with
    | .name name => .finished ((resolveTop name).run machine)
    | .procedure _ _ => .finished (openProcedure.run machine)
    | .litProcedure id body =>
      .finished ((pushNew (.procedure ⟨id, body⟩) []).run machine.unscheduled)
    | .function _ operator => call host operator machine.unscheduled
    | .table name id => dispatch host name id machine.unscheduled
    | .primitive primitive => .finished ((advance primitive).run machine)
    | .callback action =>
      .finished
        ((scheduleNew action [.token (.datum value attributes)]).run machine.unscheduled)
    | value => .finished (.ok () (machine.unscheduled.push (.datum value attributes)))

/-- Ends a statement that began with the given load of the execution stack and
the given number of open frames.  A fault leaves everything as it is. -/
def conclude (base depth : Nat) : Outcome → Outcome
  | .error (.error error) machine => (abandon base depth error).run machine
  | outcome => outcome

/-- Steps until the execution stack has drained to `base` and no callback is
pending, within a number of steps. -/
def run (host : HostOperators) : Nat → Nat → Machine → Option Outcome
  | 0, _, _ => none
  | fuel + 1, base, machine =>
    if base < machine.execution.load then
      match step host machine with
      | .finished (.ok _ next) => run host fuel base next
      | .finished (.error failure next) => some (.error failure next)
      | .executing token inner resume =>
        match run host fuel inner.execution.load (inner.schedule token) with
        | none => none
        | some outcome =>
          match resume (conclude inner.execution.load inner.depth outcome) with
          | .ok _ next => run host fuel base next
          | .error failure next => some (.error failure next)
    else
      match machine.callback with
      | .void => some (.ok () machine)
      | callback =>
        run host fuel base { machine.schedule callback with callback := .void }

/-- Executes one statement.  When it fails, the frames that it had open are shown
and discarded. -/
def execute (host : HostOperators) (fuel : Nat) (token : Token) (machine : Machine) :
    Option Outcome :=
  (run host fuel machine.execution.load (machine.schedule token)).map
    (conclude machine.execution.load machine.depth)

/-- Executes statements in order up to the first failure.  The host holds those
that are still to come. -/
def executeAll (host : HostOperators) (fuel : Nat) :
    List Token → Machine → Option Outcome
  | [], machine => some (.ok () machine)
  | token :: rest, machine =>
    let held := machine.held
    match execute host fuel token { machine with held := rest.map .token ++ held } with
    | none => none
    | some (.ok _ next) => executeAll host fuel rest { next with held }
    | some (.error failure next) => some (.error failure { next with held })

end Machine

end StackLang
