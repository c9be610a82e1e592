import StackLang.Machine.Frames

/-!
# Backtraces

When a statement fails, the error and the frames that it had open are written to
the diagnostics, the innermost frame first.  Each frame tells which loop it
belongs to and how far it has come, and shows its body.  Where a body has no text,
nothing is written and the error is not returned either.
-/

namespace StackLang

/-- What a backtrace tells about one frame. -/
structure FrameReport where
  header : String
  body : Option (List Token)
  /-- Element to mark; negative to mark none. -/
  cursor : Int
  deriving Inhabited

namespace FrameReport

/-- The integer at a position, or zero if something else is there. -/
def integerAt (stack : List Token) (position : Nat) : Int64 :=
  (stack[position]?.bind Kind.integer?).getD 0

/-- The procedure body at a position. -/
def bodyAt (stack : List Token) (position : Nat) : Option (List Token) :=
  match stack[position]? with
  | some (.datum (.procedure _ body) _) => some body
  | some (.datum (.litProcedure _ body) _) => some body
  | _ => none

/-- The report about a frame whose primitive is the top of `stack`. -/
def ofFrame (primitive : Primitive) (stack : List Token) : FrameReport :=
  let number := fun n : Int64 => Decimal.ofInt64 n
  let marked := (integerAt stack 1 - 1).toInt
  let visited := number (integerAt stack 2 - 1)
  match primitive with
  | .iterate => ⟨"In procedure:", bodyAt stack 2, marked⟩
  | .loop => ⟨"During loop:", bodyAt stack 2, marked⟩
  | .repetition =>
    ⟨"During repeat with " ++ number (integerAt stack 3) ++ " iterations remaining.",
      bodyAt stack 2, marked⟩
  | .counting =>
    ⟨"During for at iterator value " ++ number (integerAt stack 3 - integerAt stack 5) ++ ".",
      bodyAt stack 2, marked⟩
  | .forAllArray =>
    ⟨"During forall (array) at iteration " ++ number (integerAt stack 2) ++ ".",
      bodyAt stack 1, -1⟩
  | .forAllIndexedArray =>
    ⟨"During forallindexed (array) at iteration " ++ visited ++ ".", bodyAt stack 1, -1⟩
  | .forAllString =>
    ⟨"During forall (string) at iteration " ++ visited ++ ".", bodyAt stack 1, -1⟩
  | .forAllIndexedString =>
    ⟨"During forallindexed (string) at iteration " ++ visited ++ ".", bodyAt stack 1, -1⟩

/-- The lines of a report, if its body has a text. -/
def render? (expand : DictId → Option String) (report : FrameReport) : Option String :=
  match report.body with
  | none => some (report.header ++ "\n")
  | some body => do
    return report.header ++ "\n" ++ (← Token.listing? expand "" report.cursor body) ++ "\n"

end FrameReport

namespace Machine

/-- Reports about the frames whose primitives are among the `count` topmost
tokens of a stack, the innermost first. -/
def frameReports : Nat → List Token → List FrameReport
  | count + 1, token :: below =>
    match token with
    | .datum (.primitive primitive) _ =>
      FrameReport.ofFrame primitive (token :: below) :: frameReports count below
    | _ => frameReports count below
  | _, _ => []

/-- The text about an error and the frames above `base`, if there is one. -/
def backtrace? (base : Nat) (error : Error) (machine : Machine) : Option String := do
  let reports := frameReports (machine.execution.load - base) machine.execution.items
  let texts ← reports.mapM (FrameReport.render? machine.store.display?)
  return error.message ++ "\n" ++ String.join texts

/-- Drops what a statement left on the execution stack, and forgets the frames that it had
open.  The operands stay as they are. -/
def discarded (base depth : Nat) (machine : Machine) : Machine :=
  { machine with execution := machine.execution.truncate base, depth }

/-- Gives up a statement: reports and shows the error, and returns it with what the
statement left discarded. -/
def abandon (base depth : Nat) (error : Error) : Operation Unit := do
  modify (report (.statementFailed error))
  say .backtrace ((← get).backtrace? base error)
  modify (discarded base depth)
  throw (.error error)

end Machine

end StackLang
