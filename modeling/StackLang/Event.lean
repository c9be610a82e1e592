import StackLang.Error
import StackLang.Name
import StackLang.TypeTag

/-!
# Events

What the library reports about its work, apart from results.  Each event has a
level and one wording; a listener shows those that are severe enough for it.
-/

namespace StackLang

/-- How loud an event is; smaller is more severe. -/
inductive Level where
  | warn
  | debug
  | trace
  deriving DecidableEq, Repr

namespace Level

/-- Rank of a level, the most severe first. -/
def rank : Level → Nat
  | warn => 0
  | debug => 1
  | trace => 2

/-- The word in front of an event. -/
def label : Level → String
  | warn => "WARN"
  | debug => "DEBUG"
  | trace => "TRACE"

/-- Whether a listener at `threshold` hears an event of this level. -/
def reaches (level threshold : Level) : Bool :=
  level.rank ≤ threshold.rank

end Level

/-- What a paused program is told to do. -/
inductive DebugCommand where
  /-- Show the procedure with the cursor marked, then ask again. -/
  | list
  /-- Execute the next element. -/
  | proceed
  deriving DecidableEq, Repr

namespace DebugCommand

/-- The word for a command in reports. -/
def title : DebugCommand → String
  | list => "List"
  | proceed => "Continue"

end DebugCommand

/-- Something worth reporting. -/
inductive Event where
  | overloadDefined (signature : Signature)
  | overloadIsStart (signature : Signature)
  | bindingReplaced (name : Name) (found : TypeTag)
  | installingPools (initial growth : Nat)
  | poolGrew (elements elementSize total : Nat)
  | poolDropped (elementSize live : Nat)
  | cycleStoredAsAlias
  | notClearedInUse (name : Name)
  | unreadable (name : Name) (reason : Error)
  | noOverload (table : Name) (reason : Error)
  | statementFailed (reason : Error)
  | paused (position length : Nat) (command : DebugCommand)
  deriving Repr

namespace Event

/-- Refused or lossy requests are warnings; pool growth is the finest detail. -/
def level : Event → Level
  | overloadDefined _ | overloadIsStart _ | bindingReplaced .. | poolDropped .. => .warn
  | poolGrew .. => .trace
  | _ => .debug

/-- The wording of an event. -/
def message : Event → String
  | overloadDefined signature =>
    "overload " ++ signature.describe ++ " is already defined, ignored"
  | overloadIsStart signature =>
    "overload " ++ signature.describe ++ " is a prefix of a longer overload, ignored"
  | bindingReplaced name found =>
    name.text ++ " is bound to a " ++ found.typeName ++ ", replaced by an overload table"
  | installingPools initial growth =>
    s!"installing value pools: initial block {initial}, growth {growth}"
  | poolGrew elements elementSize total =>
    s!"pool grew by {elements} elements of {elementSize} bytes (total {total})"
  | poolDropped elementSize live =>
    s!"pool of {elementSize}-byte elements dropped with {live} live blocks"
  | cycleStoredAsAlias => "storing self-reaching dictionary as alias"
  | notClearedInUse name => "dictionary '" ++ name.text ++ "' is in use, not cleared"
  | unreadable name reason => "'" ++ name.text ++ "' cannot be read: " ++ reason.message
  | noOverload table reason =>
    "no overload of " ++ table.text ++ " applies: " ++ reason.message
  | statementFailed reason => "statement failed: " ++ reason.message
  | paused position length command =>
    s!"step at {position} of {length}: " ++ command.title

/-- An event as a line of a log. -/
def line (event : Event) : String :=
  event.level.label ++ " " ++ event.message

/-- The lines that a listener at `threshold` sees, of events given latest first. -/
def lines (threshold : Level) (journal : List Event) : List String :=
  (journal.reverse.filter fun event => event.level.reaches threshold).map line

end Event

end StackLang
