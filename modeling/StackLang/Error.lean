/-!
# Errors and faults

An error is an outcome of a program: it unwinds the running statement and is
reported to the caller.  A fault ends the program that embeds the language: it has
violated a precondition, such as that of a pool that is reconfigured while in use, or it
has asked for a text that nothing can make.
-/

namespace StackLang

/-- Why a statement or a dictionary access failed. -/
inductive Error where
  /-- A name is missing, or a merge of dictionaries collided on it. -/
  | undefinedName (name : String)
  /-- No overload accepts the operand at `level`, counted from the top. -/
  | argumentType (level : Nat)
  /-- An operation needed more operands than there were. -/
  | stackUnderflow (needed available : Nat)
  /-- A value is not of the expected type. -/
  | typeMismatch (expected found : String)
  /-- A loop was left where none is open. -/
  | invalidExit
  /-- A read-only entry was to be redefined. -/
  | readOnly (name : String)
  deriving DecidableEq, Repr, Inhabited

namespace Error

/-- The word that opens a report of the error. -/
def kind : Error → String
  | undefinedName _ => "UndefinedName"
  | argumentType _ => "ArgumentType"
  | stackUnderflow .. => "StackUnderflow"
  | typeMismatch .. => "TypeMismatch"
  | invalidExit => "InvalidExit"
  | readOnly _ => "ReadOnly"

/-- What happened, without the kind. -/
def detail : Error → String
  | undefinedName name => s!"name '{name}' is not defined"
  | argumentType level => s!"no matching overload for the operand at level {level}"
  | stackUnderflow needed available =>
    s!"expected {needed} operands, but only {available} available"
  | typeMismatch expected found => s!"expected {expected}, found {found}"
  | invalidExit => "exit called outside of a loop"
  | readOnly name => s!"'{name}' is read-only"

/-- The report of an error. -/
def message (error : Error) : String :=
  error.kind ++ ": " ++ error.detail

end Error

/-- What ends the embedding program: a violated precondition, or a call stack that
overflows. -/
inductive Fault where
  | initWhileOutstanding
  | zeroBlockSize
  | zeroGrowthFactor
  | freeWithoutOutstanding
  | foreignBlock
  | growByZero
  | chunkSizeOverflow
  | invalidChunkLayout
  | arithmeticOverflow
  | emptySignature
  | elementTooSmall (element value : Nat)
  | misaligned
  | wildcardNotLast
  /-- An index leads out of a sequence. -/
  | outOfBounds (size index : Nat)
  /-- A text would have to contain itself, and the calls that make it never return. -/
  | endlessText
  deriving DecidableEq, Repr, Inhabited

namespace Fault

/-- The text of the violated assertion, or of the overflow. -/
def message : Fault → String
  | initWhileOutstanding => "Pool::init called while blocks are outstanding"
  | zeroBlockSize => "pool block size must be positive"
  | zeroGrowthFactor => "pool growth factor must be positive"
  | freeWithoutOutstanding => "Pool::free without outstanding blocks"
  | foreignBlock => "block returned to a foreign pool"
  | growByZero => "pool cannot grow by zero elements"
  | chunkSizeOverflow => "pool chunk size overflows usize"
  | invalidChunkLayout => "invalid pool chunk layout"
  | arithmeticOverflow => "attempt to multiply with overflow"
  | emptySignature => "an overload needs at least one operand type"
  | elementTooSmall element value =>
    s!"pool element of {element} bytes cannot hold {value} bytes"
  | misaligned => "pool blocks are not aligned for this type"
  | wildcardNotLast => "wildcard is not last in its chain"
  | outOfBounds size index =>
    s!"index out of bounds: the len is {size} but the index is {index}"
  | endlessText => "stack overflow"

end Fault

/-- Why an action of a machine did not succeed. -/
inductive Failure where
  | error (error : Error)
  | fault (fault : Fault)
  deriving DecidableEq, Repr, Inhabited

end StackLang
