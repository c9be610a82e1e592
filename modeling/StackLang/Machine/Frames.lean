import StackLang.Machine.State

/-!
# Frames

A procedure or loop keeps its state in a frame on the execution stack, topped by
the primitive that advances it.  From the bottom to the top a frame holds

* for a procedure: body, position;
* for `loop`: mark, body, position;
* for `repeat`: mark, rounds left, body, position;
* for `for`: mark, increment, limit, counter, body, position;
* for the forms of `forall`: mark, object, limit, position, body.

Each step of a frame hands out the next element of its body, or begins the next
round, or closes the frame.  The marks are what `exit` looks for.
-/

namespace StackLang.Machine

/-- Opens a frame: its parts from the bottom to the top, then its primitive.  Values
get tokens of their own, one after the other. -/
def openFrame (primitive : Primitive) : List Holding → Operation Unit
  | [] => do
    scheduleNew (.primitive primitive) []
    modify enterFrame
  | .token token :: rest => do
    modify (schedule token)
    openFrame primitive rest
  | .value value :: rest => do
    scheduleNew (.ofValue value) rest
    openFrame primitive rest

/-- The part of a frame that is a procedure. -/
def bodyPart (body : Procedure) : Holding :=
  .value (.procedure body.id body.body)

/-- The part of a frame that is a number. -/
def numberPart (n : Int64) : Holding :=
  .value (.integer n)

/-- The part of a frame that is a number of elements. -/
def countPart (n : Nat) : Holding :=
  numberPart (Int64.ofNat n)

/-- Runs the procedure that is on top of the execution stack. -/
def openProcedure : Operation Unit :=
  openFrame .iterate [numberPart 0]

/-- Runs a body until it is left.  An empty body could never leave, so it is not
run at all. -/
def openLoop (body : Procedure) : Operation Unit :=
  if body.body.isEmpty then return
  else openFrame .loop [.value .mark, bodyPart body, numberPart 0]

/-- Runs a body `rounds` times.  The position starts past the body, so that the
first step begins a round. -/
def openRepetition (rounds : Int64) (body : Procedure) : Operation Unit :=
  openFrame .repetition
    [.value .mark, numberPart rounds, bodyPart body, countPart body.body.length]

/-- Runs a body for each number from `start` to `limit` in steps of `increment`. -/
def openCounting (start increment limit : Int64) (body : Procedure) : Operation Unit :=
  openFrame .counting
    [.value .mark, numberPart increment, numberPart limit, numberPart start, bodyPart body,
      countPart body.body.length]

/-- How many elements a loop over an object has, and the primitive that drives it. -/
def elementsOf (indexed : Bool) : Token → Option (Nat × Primitive)
  | .datum (.array items) _ =>
    some (items.length, if indexed then .forAllIndexedArray else .forAllArray)
  | .datum (.string text) _ =>
    some (text.utf8ByteSize, if indexed then .forAllIndexedString else .forAllString)
  | _ => none

/-- What an object must be for its elements to be visited. -/
def iterable : String := "arraytype or stringtype"

/-- Runs a body for each element of an array or each byte of a string. -/
def openForAll (indexed : Bool) (object : Token) (body : Procedure) : Operation Unit := do
  match elementsOf indexed object with
  | none => throw (.error (.typeMismatch iterable object.typeName))
  | some (count, primitive) =>
    openFrame primitive
      [.value .mark, .token object, countPart count, numberPart 0, bodyPart body]

/-- Reads a token of the execution stack as a kind. -/
def readFrame (kind : Kind) (position : Nat) : Operation kind.Carrier := do
  let machine ← get
  let token ← orFail (machine.execution.pick position)
  orFail (kind.ofToken machine.isAlive token)

/-- Overwrites an integer of the execution stack. -/
def writeFrame (position : Nat) (n : Int64) : Operation Unit := do
  let machine ← get
  match ← orFail (machine.execution.pick position) with
  | .datum (.integer _) attributes =>
    let execution ← orFail
      (machine.execution.replace position (.datum (.integer n) attributes))
    set { machine with execution }
  | other => throw (.error (.typeMismatch TypeTag.integer.typeName other.typeName))

/-- The element of a body at a position. -/
def elementAt (body : List Token) (position : Int64) : Option Token :=
  if position < 0 then none else body[position.toInt.toNat]?

/-- Element of an array, or byte of a string, at a position. -/
def objectElement? (object : Token) (position : Int64) : Option Token :=
  match object with
  | .datum (.array items) _ => elementAt items position
  | .datum (.string text) _ =>
    if position < 0 then none
    else text.toUTF8[position.toInt.toNat]?.map fun byte => .count byte.toNat
  | _ => none

/-- Removes a frame from the top of the execution stack. -/
def closeFrame (primitive : Primitive) : Operation Unit := do
  let machine ← get
  let execution ← orFail (machine.execution.popMany primitive.frameSize)
  set (leaveFrames 1 { machine with execution })

/-- Remarks something, in step mode only. -/
def note (text : Store → Option String) : Operation Unit := do
  let machine ← get
  if machine.config.stepMode then say .note ((text machine.store).map (· ++ "\n"))

/-- Splits commands for a pause: the requests for listings up to the first
command that goes on, and what is left for later pauses. -/
def splitCommands (commands : List DebugCommand) : Nat × List DebugCommand :=
  let (listings, rest) := commands.span (· == .list)
  (listings.length, rest.drop 1)

/-- Shows the body at the current pause. -/
def showListing (body : List Token) (position : Int64) : Operation Unit := do
  modify (report (.paused position.toInt.toNat body.length .list))
  let listing := Token.listing? (← get).store.display? "" position.toInt body
  say .listing (listing.map (· ++ "\n"))

/-- Shows the body as often as it was asked for. -/
def showListings (body : List Token) (position : Int64) : Nat → Operation Unit
  | 0 => return
  | count + 1 => do
    showListing body position
    showListings body position count

/-- Goes on behind a pause, with the commands that are left. -/
def proceed (body : List Token) (position : Int64) (rest : List DebugCommand)
    (machine : Machine) : Machine :=
  { machine.report (.paused position.toInt.toNat body.length .proceed) with
    prompt := machine.prompt.map fun _ => rest }

/-- In step mode, answers the commands given for this pause.  When nobody
answers, or no command is left, the program goes on. -/
def pause (body : List Token) (position : Int64) : Operation Unit := do
  let machine ← get
  if machine.config.stepMode then
    let (listings, rest) := splitCommands (machine.prompt.getD [])
    showListings body position listings
    modify (proceed body position rest)

/-- Hands out a copy of an element of a loop body and moves the position past it. -/
def handOut (body : List Token) (position : Int64) (element : Token) : Operation Unit := do
  claim [.token element]
  pause body position
  writeFrame 1 (position + 1)
  modify (schedule element)

/-- A step of a procedure.  With tail elimination the frame goes before its last
element runs. -/
def advanceProcedure : Operation Unit := do
  let procedure ← readFrame .procedure 2
  let position ← readFrame .integer 1
  match elementAt procedure.body position with
  | none => closeFrame .iterate
  | some element =>
    claim [.token element]
    pause procedure.body position
    let isLast := position.toInt.toNat + 1 == procedure.body.length
    if isLast && (← get).config.tailElimination then closeFrame .iterate
    else writeFrame 1 (position + 1)
    modify (schedule element)

/-- A step of an endless loop. -/
def advanceLoop : Operation Unit := do
  let procedure ← readFrame .procedure 2
  let position ← readFrame .integer 1
  match elementAt procedure.body position with
  | some element => handOut procedure.body position element
  | none =>
    writeFrame 1 0
    note fun _ => some "Loop: starting new iteration."

/-- A step of a loop with a number of rounds. -/
def advanceRepetition : Operation Unit := do
  let procedure ← readFrame .procedure 2
  let position ← readFrame .integer 1
  match elementAt procedure.body position with
  | some element => handOut procedure.body position element
  | none =>
    let rounds ← readFrame .integer 3
    if 0 < rounds then
      writeFrame 1 0
      writeFrame 3 (rounds - 1)
      note fun _ => some ("repeat: " ++ Decimal.ofInt64 (rounds - 1) ++ " iterations left.")
    else closeFrame .repetition

/-- The sum of two numbers, if it is a number of the machine. -/
def addExactly (a b : Int64) : Option Int64 :=
  if (a + b).toInt = a.toInt + b.toInt then some (a + b) else none

/-- A step of a counting loop.  When the counter cannot move on, the increment
becomes zero, which ends the loop after the round. -/
def advanceCounting : Operation Unit := do
  let procedure ← readFrame .procedure 2
  let position ← readFrame .integer 1
  match elementAt procedure.body position with
  | some element => handOut procedure.body position element
  | none =>
    let counter ← readFrame .integer 3
    let limit ← readFrame .integer 4
    let increment ← readFrame .integer 5
    if (0 < increment ∧ counter ≤ limit) ∨ (increment < 0 ∧ limit ≤ counter) then
      writeFrame 1 0
      pushNew (.integer counter) []
      match addExactly counter increment with
      | some next => writeFrame 3 next
      | none => writeFrame 5 0
      note fun _ => some
        ("for: Limit: " ++ Decimal.ofInt64 limit ++ " Step: " ++ Decimal.ofInt64 increment ++
          " Iterator: " ++ Decimal.ofInt64 counter)
    else closeFrame .counting

/-- A step of a loop over an object. -/
def advanceForAll (primitive : Primitive) : Operation Unit := do
  let position ← readFrame .integer 2
  let limit ← readFrame .integer 3
  if limit ≤ position then closeFrame primitive
  else
    let object ← orFail ((← get).execution.pick 4)
    match objectElement? object position with
    | none => throw (.error (.typeMismatch iterable object.typeName))
    | some element =>
      claim [.token element]
      note fun store => do
        return primitive.primitiveName ++ ": Limit: " ++ Decimal.ofInt64 limit ++ " Pos: " ++
          Decimal.ofInt64 position ++ " Iterator: " ++ (← element.display? store.display?)
      modify (push element)
      if primitive.isIndexed then pushNew (.integer position) []
      writeFrame 2 (position + 1)
      scheduleNew (← orFail ((← get).execution.pick 1)) []

/-- A step of the frame on top of the execution stack. -/
def advance : Primitive → Operation Unit
  | .iterate => advanceProcedure
  | .loop => advanceLoop
  | .repetition => advanceRepetition
  | .counting => advanceCounting
  | primitive => advanceForAll primitive

/-- Leaves the innermost loop: removes everything down to the topmost mark, which
closes the frames whose primitives are among it. -/
def exitLoop : Operation Unit := do
  let machine ← get
  let (above, rest) := machine.execution.items.span fun token => !token.isA .mark
  if rest.isEmpty then throw (.error .invalidExit)
  let closed := above.countP fun token => token.isA .primitive
  set (leaveFrames closed { machine with
    execution := machine.execution.dropTop (above.length + 1) })

end StackLang.Machine
