import StackLang.Pool.Basic

/-!
# Tokens and values

A token is void or holds one datum: a value with its attributes.  Arrays and
callbacks contain tokens of their own; a procedure contains the tokens that it
executes.  Dictionaries and overload tables are shared, so a value refers to
them by a number that the store resolves; a dictionary is either owned, which
keeps it alive, or known by an alias, which does not.
-/

namespace StackLang

/-- Number of a dictionary in the store. -/
structure DictId where
  index : Nat
  deriving DecidableEq, Repr, Inhabited

/-- Number of an overload table in the store. -/
structure TableId where
  index : Nat
  deriving DecidableEq, Repr, Inhabited

/-- Number of a procedure body, which the copies of a procedure share. -/
structure BodyId where
  index : Nat
  deriving DecidableEq, Repr, Inhabited

/-- Reference to a dictionary. -/
inductive DictHandle where
  /-- Keeps the dictionary alive. -/
  | owned (id : DictId)
  /-- Leads to the dictionary as long as something else keeps it alive. -/
  | aliased (id : DictId)
  deriving DecidableEq, Repr, Inhabited

/-- The dictionary that a handle refers to, alive or not. -/
def DictHandle.id : DictHandle → DictId
  | owned id => id
  | aliased id => id

/-- The operators of the language, and those that an embedding program offers
under a name of its own. -/
inductive Operator where
  | pop
  | dup
  | exch
  | exec
  | define
  | addIntegers
  | addDoubles
  | subIntegers
  | subDoubles
  | mulIntegers
  | mulDoubles
  | gtIntegers
  | gtDoubles
  | ifTrue
  | loop
  | exit
  | repetition
  | counting
  | forAll
  | forAllIndexed
  | host (name : Name)
  deriving DecidableEq, Repr, Inhabited

/-- Where a datum was placed: the installation of the value pools, and the block
in the pool of its type.  Data that nobody accounts for are at home in
installation zero, which never exists. -/
structure Home where
  installation : Nat := 0
  block : Address := default
  deriving DecidableEq, Repr, Inhabited

/-- What a datum carries besides its value. -/
structure Attributes where
  /-- A binding to a datum that is not writeable cannot be redefined. -/
  writeable : Bool := true
  home : Home := {}
  deriving DecidableEq, Repr, Inhabited

mutual

/-- The values of the language. -/
inductive Value where
  | integer (n : Int64)
  | double (x : Float)
  | boolean (b : Bool)
  | string (text : String)
  /-- Executable name, looked up when executed. -/
  | name (name : Name)
  /-- Literal name, pushed as it is. -/
  | literal (name : Name)
  | procedure (id : BodyId) (body : List Token)
  | litProcedure (id : BodyId) (body : List Token)
  | array (items : List Token)
  | dictionary (handle : DictHandle)
  | function (name : Name) (operator : Operator)
  | table (name : Name) (id : TableId)
  | primitive (primitive : Primitive)
  | callback (action : Token)
  | mark

/-- Holder of at most one datum. -/
inductive Token where
  | void
  | datum (value : Value) (attributes : Attributes)

end

instance : Inhabited Value := ⟨.mark⟩

instance : Inhabited Token := ⟨.void⟩

/-- An immutable sequence of tokens that are executed in order. -/
structure Procedure where
  id : BodyId
  body : List Token
  deriving Inhabited

namespace Value

/-- The type of a value. -/
def tag : Value → TypeTag
  | integer _ => .integer
  | double _ => .double
  | boolean _ => .boolean
  | string _ => .string
  | name _ => .name
  | literal _ => .literal
  | procedure .. => .procedure
  | litProcedure .. => .litProcedure
  | array _ => .array
  | dictionary _ => .dictionary
  | function .. => .function
  | table .. => .table
  | primitive _ => .primitive
  | callback _ => .callback
  | mark => .mark

end Value

namespace Token

/-- A token for a value that nothing has been said about. -/
def ofValue (value : Value) : Token :=
  .datum value {}

/-- An integer token. -/
def integer (n : Int64) : Token := ofValue (.integer n)

/-- A token for a number of elements. -/
def count (n : Nat) : Token := integer (Int64.ofNat n)

/-- A double token. -/
def double (x : Float) : Token := ofValue (.double x)

/-- A truth-value token. -/
def boolean (b : Bool) : Token := ofValue (.boolean b)

/-- A string token. -/
def string (text : String) : Token := ofValue (.string text)

/-- A token for a name that is looked up when executed. -/
def name (name : Name) : Token := ofValue (.name name)

/-- A token for a name that stands for itself. -/
def literal (name : Name) : Token := ofValue (.literal name)

/-- A token for an executable procedure. -/
def procedure (proc : Procedure) : Token := ofValue (.procedure proc.id proc.body)

/-- An array token. -/
def array (items : List Token) : Token := ofValue (.array items)

/-- A token that owns a dictionary. -/
def dictionary (id : DictId) : Token := ofValue (.dictionary (.owned id))

/-- An operator token. -/
def function (name : Name) (operator : Operator) : Token := ofValue (.function name operator)

/-- A token for an overload table. -/
def table (name : Name) (id : TableId) : Token := ofValue (.table name id)

/-- A token that advances a frame. -/
def primitive (primitive : Primitive) : Token := ofValue (.primitive primitive)

/-- A token that stands for another one until it is executed. -/
def callback (action : Token) : Token := ofValue (.callback action)

/-- A mark token. -/
def mark : Token := ofValue .mark

/-- The value of a token, if it is not void. -/
def value? : Token → Option Value
  | void => none
  | datum value _ => some value

/-- Whether a token holds nothing. -/
def isVoid : Token → Bool
  | void => true
  | datum .. => false

/-- The type of a token's value. -/
def tag? : Token → Option TypeTag
  | void => none
  | datum value _ => some value.tag

/-- The name of a token's type; `void` is not a type of values. -/
def typeName : Token → String
  | void => "void"
  | datum value _ => value.tag.typeName

/-- Whether a token holds a value of a type. -/
def isA (token : Token) (tag : TypeTag) : Bool :=
  token.tag? == some tag

/-- Whether a token holds a datum that may be redefined. -/
def isWriteable : Token → Bool
  | void => false
  | datum _ attributes => attributes.writeable

/-- Whether a token holds a datum that must not be redefined. -/
def isReadOnly : Token → Bool
  | void => false
  | datum _ attributes => !attributes.writeable

/-- Allows or forbids redefinition; a void token has nothing to protect. -/
def setWriteable (writeable : Bool) : Token → Token
  | void => void
  | datum value attributes => datum value { attributes with writeable }

/-- Changes the value of a token and keeps its attributes. -/
def mapValue (f : Value → Value) : Token → Token
  | void => void
  | datum value attributes => datum (f value) attributes

/-- The dictionary that the token itself owns. -/
def ownedDictionary? : Token → Option DictId
  | datum (.dictionary (.owned id)) _ => some id
  | _ => none

@[simp]
theorem tag?_ofValue (value : Value) : (ofValue value).tag? = some value.tag := rfl

@[simp]
theorem value?_ofValue (value : Value) : (ofValue value).value? = some value := rfl

@[simp]
theorem setWriteable_void (writeable : Bool) : setWriteable writeable void = void := rfl

end Token

end StackLang
