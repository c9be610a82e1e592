import StackLang.Error
import StackLang.Token.Basic

/-!
# Typed reading and writing of tokens

A host reads and writes tokens as values of its own types.  Each kind says
which type that is, how a value of it is written into a token, and which tokens
can be read back.  Reading a dictionary through an alias succeeds only while the
dictionary is alive.
-/

namespace StackLang

/-- The host types that tokens are read as. -/
inductive Kind where
  | integer
  | double
  | boolean
  | string
  | name
  | procedure
  | dictionary
  | tokens
  | doubles
  | integers
  deriving DecidableEq, Repr

namespace Kind

/-- The host type of a kind. -/
@[reducible]
def Carrier : Kind → Type
  | integer => Int64
  | double => Float
  | boolean => Bool
  | string => String
  | name => Name
  | procedure => Procedure
  | dictionary => DictId
  | tokens => List Token
  | doubles => List Float
  | integers => List Int64

/-- How an error names what was expected. -/
def expected : Kind → String
  | integer => "integertype"
  | double => "doubletype"
  | boolean => "booltype"
  | string => "stringtype"
  | name => "nametype"
  | procedure => "proceduretype"
  | dictionary => "dictionarytype"
  | tokens => "arraytype"
  | doubles => "array of doubles"
  | integers => "array of integers"

/-- The double that a token holds. -/
def double? : Token → Option Float
  | .datum (.double x) _ => some x
  | _ => none

/-- The integer that a token holds. -/
def integer? : Token → Option Int64
  | .datum (.integer n) _ => some n
  | _ => none

/-- The dictionary that a handle leads to while it is alive; owning it keeps it so. -/
def resolve (alive : DictId → Bool) : DictHandle → Option DictId
  | .owned id => some id
  | .aliased id => if alive id then some id else none

/-- Reads a value as a kind. -/
def ofValue (alive : DictId → Bool) : (kind : Kind) → Value → Option kind.Carrier
  | integer, .integer n => some n
  | double, .double x => some x
  | boolean, .boolean b => some b
  | string, .string text => some text
  | name, .name n => some n
  | name, .literal n => some n
  | procedure, .procedure id body => some ⟨id, body⟩
  | procedure, .litProcedure id body => some ⟨id, body⟩
  | dictionary, .dictionary handle => resolve alive handle
  | tokens, .array items => some items
  | doubles, .array items => items.mapM double?
  | integers, .array items => items.mapM integer?
  | _, _ => none

/-- Reads a token as a kind; the error tells the type that was found instead. -/
def ofToken (alive : DictId → Bool) (kind : Kind) (token : Token) :
    Except Error kind.Carrier :=
  match token.value?.bind (kind.ofValue alive) with
  | some value => .ok value
  | none => .error (.typeMismatch kind.expected token.typeName)

/-- Writes a value of a kind into a fresh token. -/
def toToken : (kind : Kind) → kind.Carrier → Token
  | integer, n => .integer n
  | double, x => .double x
  | boolean, b => .boolean b
  | string, text => .string text
  | name, n => .literal n
  | procedure, proc => .procedure proc
  | dictionary, id => .dictionary id
  | tokens, items => .array items
  | doubles, xs => .array (xs.map Token.double)
  | integers, ns => .array (ns.map Token.integer)

/-- The tokens that are copied when a value of a kind is read. -/
def copiedTokens : (kind : Kind) → kind.Carrier → List Token
  | tokens, items => items
  | integer, _ | double, _ | boolean, _ | string, _ | name, _ | procedure, _ | dictionary, _
  | doubles, _ | integers, _ => []

end Kind

end StackLang
