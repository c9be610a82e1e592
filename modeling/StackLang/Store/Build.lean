import StackLang.Store.Write
import StackLang.Token.Draft
import StackLang.Token.Holding

/-!
# Making tokens from drafts

What a draft contains is made before the thing that contains it, in order, and
new dictionaries and tables are filled entry by entry.  Every datum needs the
consent of an admission, which sees what is in hand by then, the new datum first.

Where a datum is refused, or a draft asks for an overload without operands, the
making faults; what was made until then stays in the store and nobody refers to
it.
-/

namespace StackLang

/-- Making something in the store, which may fault. -/
abbrev Making := EStateM Fault Store

/-- Decides whether a datum may be made, given what is in hand with it. -/
abbrev Admission := List Holding → Store → Option Fault

namespace Admission

/-- The admission that refuses nothing. -/
def always : Admission := fun _ _ => none

/-- Makes a token for a value, if it is admitted. -/
def grant (admission : Admission) (inHand : List Holding) (value : Value) : Making Token := do
  match admission (.token (.ofValue value) :: inHand) (← get) with
  | none => return .ofValue value
  | some fault => throw fault

end Admission

mutual

/-- Makes the token that a draft describes. -/
def Draft.make (admission : Admission) (inHand : List Holding) : Draft → Making Token
  | .void => return .void
  | .integer n => admission.grant inHand (.integer n)
  | .double x => admission.grant inHand (.double x)
  | .boolean b => admission.grant inHand (.boolean b)
  | .string text => admission.grant inHand (.string text)
  | .name name => admission.grant inHand (.name name)
  | .literal name => admission.grant inHand (.literal name)
  | .procedure body => do
    let tokens ← Draft.makeAll admission inHand body
    admission.grant inHand (.procedure (← modifyGet Store.newBody) tokens)
  | .litProcedure body => do
    let tokens ← Draft.makeAll admission inHand body
    admission.grant inHand (.litProcedure (← modifyGet Store.newBody) tokens)
  | .array items => do
    let tokens ← Draft.makeAll admission inHand items
    admission.grant inHand (.array tokens)
  | .dictionary id => admission.grant inHand (.dictionary (.owned id))
  | .newDictionary bindings => do
    let id ← modifyGet Store.newDictionary
    DraftBinding.makeAll admission (.value (.dictionary (.owned id)) :: inHand) id bindings
    admission.grant inHand (.dictionary (.owned id))
  | .function name operator => admission.grant inHand (.function name operator)
  | .newTable name overloads => do
    let id ← modifyGet Store.newTable
    DraftOverload.makeAll admission (.value (.table name id) :: inHand) id overloads
    admission.grant inHand (.table name id)
  | .primitive primitive => admission.grant inHand (.primitive primitive)
  | .callback action => do
    let token ← Draft.make admission inHand action
    admission.grant inHand (.callback token)
  | .mark => admission.grant inHand .mark
  | .readOnly draft => return (← Draft.make admission inHand draft).setWriteable false

/-- Makes the tokens that drafts describe, in order. -/
def Draft.makeAll (admission : Admission) (inHand : List Holding) :
    List Draft → Making (List Token)
  | [] => return []
  | draft :: rest => do
    let token ← Draft.make admission inHand draft
    return token :: (← Draft.makeAll admission (.token token :: inHand) rest)

/-- Fills a new dictionary. -/
def DraftBinding.makeAll (admission : Admission) (inHand : List Holding) (id : DictId) :
    List DraftBinding → Making Unit
  | [] => return
  | .mk name value :: rest => do
    let token ← Draft.make admission inHand value
    modify (Store.insert id name token)
    DraftBinding.makeAll admission inHand id rest

/-- Fills a new overload table. -/
def DraftOverload.makeAll (admission : Admission) (inHand : List Holding) (id : TableId) :
    List DraftOverload → Making Unit
  | [] => return
  | .mk signature function :: rest => do
    let token ← Draft.make admission inHand function
    match (← get).addOverload id signature token with
    | .error fault => throw fault
    | .ok (_, store) => set store
    DraftOverload.makeAll admission inHand id rest

end

namespace Store

/-- Makes the token that a draft describes where storage is no concern. -/
def make (draft : Draft) : Making Token :=
  draft.make .always []

/-- Makes the tokens that drafts describe where storage is no concern. -/
def makeAll (drafts : List Draft) : Making (List Token) :=
  Draft.makeAll .always [] drafts

end Store

end StackLang
