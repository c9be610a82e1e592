import StackLang.Machine.Frames

/-!
# The operators of the language

Operators take their operands from the operand stack.  Those that are reached
through an overload table find operands of the types that they were selected by.
Integer arithmetic wraps around at the width of a machine word.
-/

namespace StackLang.Machine

/-- Replaces two operands of a kind by a result; the upper one is the second. -/
def binary (kind : Kind) (f : kind.Carrier → kind.Carrier → Token) : Operation Unit := do
  let second ← popAs kind
  let first ← popAs kind
  pushNew (f first second) []

/-- `any pop` -/
def runPop : Operation Unit :=
  discard pop

/-- `any dup` -/
def runDup : Operation Unit := do
  pushNew (← orFail (← get).operands.top) []

/-- `any any exch` -/
def runExch : Operation Unit := do
  let first ← pop
  let second ← pop
  modify (push first)
  modify (push second)

/-- `any exec`: executes the operand. -/
def runExec : Operation Unit := do
  let token ← pop
  modify (schedule token)

/-- `/name any def` -/
def runDefine : Operation Unit := do
  let operands := (← get).operands
  orFail (operands.require 2)
  let name ← orFail (Kind.name.ofToken (← get).isAlive (← orFail (operands.pick 1)))
  let token ← pop
  discard pop
  define name token

/-- `bool proc if` -/
def runIf : Operation Unit := do
  let body ← popAs .procedure
  if ← popAs .boolean then scheduleNew (.procedure body) []

/-- `proc loop` -/
def runLoop : Operation Unit := do
  let body ← popAs .procedure
  openLoop body

/-- `int proc repeat` -/
def runRepetition : Operation Unit := do
  let body ← popAs .procedure
  let rounds ← popAs .integer
  openRepetition rounds body

/-- `int int int proc for` -/
def runCounting : Operation Unit := do
  orFail ((← get).operands.require 4)
  let body ← popAs .procedure
  let limit ← popAs .integer
  let increment ← popAs .integer
  let start ← popAs .integer
  openCounting start increment limit body

/-- `object proc forall` and `object proc forallindexed` -/
def runForAll (indexed : Bool) : Operation Unit := do
  let body ← popAs .procedure
  let object ← pop
  openForAll indexed object body

/-- Runs an operator of the language.  What a host offers is not known here. -/
def runOperator : Operator → Operation Unit
  | .pop => runPop
  | .dup => runDup
  | .exch => runExch
  | .exec => runExec
  | .define => runDefine
  | .addIntegers => binary .integer fun a b => .integer (a + b)
  | .addDoubles => binary .double fun a b => .double (a + b)
  | .subIntegers => binary .integer fun a b => .integer (a - b)
  | .subDoubles => binary .double fun a b => .double (a - b)
  | .mulIntegers => binary .integer fun a b => .integer (a * b)
  | .mulDoubles => binary .double fun a b => .double (a * b)
  | .gtIntegers => binary .integer fun a b => .boolean (decide (b < a))
  | .gtDoubles => binary .double fun a b => .boolean (decide (b < a))
  | .ifTrue => runIf
  | .loop => runLoop
  | .exit => exitLoop
  | .repetition => runRepetition
  | .counting => runCounting
  | .forAll => runForAll false
  | .forAllIndexed => runForAll true
  | .host _ => return

end StackLang.Machine
