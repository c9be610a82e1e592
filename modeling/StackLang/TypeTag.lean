/-!
# Types of values and what executing them means

Every value of the language carries one of fifteen type tags.  The tag alone
decides what the machine does with a value that reaches the top of the
execution stack, and it is all that overload selection looks at.
-/

namespace StackLang

/-- The type of a value. -/
inductive TypeTag where
  | integer
  | double
  | boolean
  | string
  | name
  | literal
  | procedure
  | litProcedure
  | array
  | dictionary
  | function
  | table
  | primitive
  | callback
  | mark
  deriving DecidableEq, Repr, Inhabited

/-- What the machine does with a value on top of the execution stack. -/
inductive Action where
  /-- Move the value to the operand stack. -/
  | push
  /-- Replace a name by the value it is bound to. -/
  | lookup
  /-- Open a frame that runs a procedure. -/
  | iterate
  /-- Push the executable form of a literal procedure. -/
  | pushProcedure
  /-- Call an operator. -/
  | call
  /-- Select an overload by the operand types and call it. -/
  | dispatch
  /-- Advance the frame below by one step. -/
  | step
  /-- Replace a callback by the token it wraps. -/
  | unwrap
  deriving DecidableEq, Repr

namespace TypeTag

/-- How many types there are. -/
abbrev count : Nat := 15

/-- Every tag, in the order of `index`. -/
def all : List TypeTag :=
  [integer, double, boolean, string, name, literal, procedure, litProcedure,
    array, dictionary, function, table, primitive, callback, mark]

/-- Position of a tag in `all`. -/
def index : TypeTag → Fin count
  | integer => 0
  | double => 1
  | boolean => 2
  | string => 3
  | name => 4
  | literal => 5
  | procedure => 6
  | litProcedure => 7
  | array => 8
  | dictionary => 9
  | function => 10
  | table => 11
  | primitive => 12
  | callback => 13
  | mark => 14

/-- The name under which scripts and messages speak of the type. -/
def typeName : TypeTag → String
  | integer => "integertype"
  | double => "doubletype"
  | boolean => "booltype"
  | string => "stringtype"
  | name => "nametype"
  | literal => "literaltype"
  | procedure => "proceduretype"
  | litProcedure => "literalproceduretype"
  | array => "arraytype"
  | dictionary => "dictionarytype"
  | function => "functiontype"
  | table => "trietype"
  | primitive => "primitivetype"
  | callback => "callbacktype"
  | mark => "marktype"

/-- The type with a name. -/
def named? (name : String) : Option TypeTag :=
  all.find? fun tag => tag.typeName == name

/-- The bare word for the type, as a catalogue of types lists it. -/
def title : TypeTag → String
  | integer => "Integer"
  | double => "Double"
  | boolean => "Bool"
  | string => "String"
  | name => "Name"
  | literal => "Literal"
  | procedure => "Procedure"
  | litProcedure => "LitProcedure"
  | array => "Array"
  | dictionary => "Dictionary"
  | function => "Function"
  | table => "Trie"
  | primitive => "Primitive"
  | callback => "Callback"
  | mark => "Mark"

/-- Data move to the operand stack; everything executable has a step of its own. -/
def action : TypeTag → Action
  | name => .lookup
  | procedure => .iterate
  | litProcedure => .pushProcedure
  | function => .call
  | table => .dispatch
  | primitive => .step
  | callback => .unwrap
  | _ => .push

theorem all_getElem_index (tag : TypeTag) : all[tag.index.val]? = some tag := by
  cases tag <;> rfl

theorem mem_all (tag : TypeTag) : tag ∈ all := by
  cases tag <;> decide

end TypeTag

namespace Action

/-- The word for the action, as a catalogue of types lists it. -/
def title : Action → String
  | push => "Push"
  | lookup => "Lookup"
  | iterate => "Iterate"
  | pushProcedure => "PushProcedure"
  | call => "Call"
  | dispatch => "Dispatch"
  | step => "Step"
  | unwrap => "Unwrap"

end Action

/-- One position of an overload signature: a concrete type or the wildcard. -/
inductive TypeSlot where
  | exactly (tag : TypeTag)
  | any
  deriving DecidableEq, Repr, Inhabited

namespace TypeSlot

/-- Whether an operand of type `tag` fits the position. -/
def accepts : TypeSlot → TypeTag → Bool
  | exactly wanted, tag => wanted == tag
  | any, _ => true

/-- The name of the position in signatures and tables. -/
def slotName : TypeSlot → String
  | exactly tag => tag.typeName
  | any => "anytype"

/-- The position with a name; what is not the name of a type is the wildcard. -/
def named (name : String) : TypeSlot :=
  (TypeTag.named? name).elim any exactly

end TypeSlot

/-- A signature lists its operands from the top of the stack downwards. -/
abbrev Signature := List TypeSlot

namespace Signature

/-- Reads as operands are written in a program: the deepest comes first. -/
def describe (signature : Signature) : String :=
  "(" ++ " ".intercalate (signature.reverse.map TypeSlot.slotName) ++ ")"

end Signature

/-- Frame-advancing values, which live on the execution stack on top of the
state of the loop or procedure that they drive. -/
inductive Primitive where
  | iterate
  | loop
  | repetition
  | counting
  | forAllArray
  | forAllIndexedArray
  | forAllString
  | forAllIndexedString
  deriving DecidableEq, Repr, Inhabited

namespace Primitive

/-- Every primitive. -/
def all : List Primitive :=
  [iterate, loop, repetition, counting, forAllArray, forAllIndexedArray, forAllString,
    forAllIndexedString]

/-- The printed name of a primitive. -/
def primitiveName : Primitive → String
  | iterate => "%iterate"
  | loop => "%loop"
  | repetition => "%repeat"
  | counting => "%for"
  | forAllArray => "%forallarray"
  | forAllIndexedArray => "%forallindexedarray"
  | forAllString => "%forallstring"
  | forAllIndexedString => "%forallindexedstring"

/-- The primitive with a name. -/
def named? (name : String) : Option Primitive :=
  all.find? fun primitive => primitive.primitiveName == name

/-- Number of execution-stack entries of a frame, its primitive included. -/
def frameSize : Primitive → Nat
  | iterate => 3
  | loop => 4
  | repetition => 5
  | counting => 7
  | forAllArray | forAllIndexedArray | forAllString | forAllIndexedString => 6

/-- Whether the body receives the position besides the element. -/
def isIndexed : Primitive → Bool
  | forAllIndexedArray | forAllIndexedString => true
  | _ => false

end Primitive

end StackLang
