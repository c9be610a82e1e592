import StackLang.Machine.Execution

/-!
# Operators of an embedding program

A host may offer operators that watch a machine and drive it from within a program: one that
records the execution stack, one that executes a token inside the running statement, and one
that sets the callback.  A name that is not among theirs stands for an operator that does
nothing.
-/

namespace StackLang

/-- The operators of the host. -/
inductive HostOperator where
  /-- Records the execution stack. -/
  | snapshot
  /-- Executes an operand inside the running statement and pushes whether it succeeded. -/
  | attempt
  /-- Has an operand run when the statement is done. -/
  | setCallback
  deriving DecidableEq, Repr

namespace HostOperator

/-- The operators by name. -/
def catalogue : List (Name × HostOperator) :=
  [("snap", snapshot), ("try", attempt), ("setcb", setCallback)]

open Machine

/-- Takes an operand and executes it before going on. -/
def executeOperand (resume : Outcome → Outcome) (machine : Machine) : Effect :=
  match pop.run machine with
  | .error failure machine => .finished (.error failure machine)
  | .ok token machine => .executing token machine resume

/-- Ends an attempt with its success as an operand.  A fault is no outcome of an
attempt. -/
def noteSuccess : Outcome → Outcome
  | .ok _ machine => (pushNew (.boolean true) []).run machine
  | .error (.error _) machine => (pushNew (.boolean false) []).run machine
  | .error (.fault fault) machine => .error (.fault fault) machine

/-- What an operator does that executes nothing itself. -/
def operation : HostOperator → Operation Unit
  | snapshot => modify takeSnapshot
  | setCallback => do
    Machine.setCallback (← pop)
  | attempt => return

/-- What calling an operator comes to. -/
def call : HostOperator → Machine → Effect
  | attempt, machine => executeOperand noteSuccess machine
  | operator, machine => .finished (operator.operation.run machine)

/-- The operators for a machine. -/
def operators : HostOperators := fun name machine =>
  match catalogue.lookup name with
  | some operator => operator.call machine
  | none => .finished (.ok () machine)

end HostOperator

end StackLang
