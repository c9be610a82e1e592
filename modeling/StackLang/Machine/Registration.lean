import StackLang.Machine.State

/-!
# Registering operators

Operators live in the system dictionary under read-only bindings.  A plain
operator is bound as it is.  A typed operator is an overload in a table that the
first registration of its name creates; a plain binding of the name is replaced
by the table.
-/

namespace StackLang

/-- A request to register an operator. -/
inductive Registration where
  | plain (name : Name) (operator : Operator)
  /-- The signature lists the top operand first. -/
  | typed (name : Name) (signature : Signature) (operator : Operator)

namespace Registration

/-- The registered name. -/
def name : Registration → Name
  | plain name _ => name
  | typed name _ _ => name

/-- The list without repetitions of an element right behind itself. -/
def dropRepeats : List Name → List Name
  | first :: second :: rest =>
    if first = second then dropRepeats (second :: rest)
    else first :: dropRepeats (second :: rest)
  | names => names

/-- The registered names in order; a run of one name is listed once. -/
def names (registrations : List Registration) : List Name :=
  dropRepeats (registrations.map name)

/-- The operators of the language. -/
def standard : List Registration :=
  let integer := TypeSlot.exactly .integer
  let double := TypeSlot.exactly .double
  let boolean := TypeSlot.exactly .boolean
  let string := TypeSlot.exactly .string
  let literal := TypeSlot.exactly .literal
  let procedure := TypeSlot.exactly .procedure
  let array := TypeSlot.exactly .array
  [ typed "pop" [.any] .pop,
    typed "dup" [.any] .dup,
    typed "exch" [.any, .any] .exch,
    typed "exec" [.any] .exec,
    typed "def" [.any, literal] .define,
    typed "add" [integer, integer] .addIntegers,
    typed "add" [double, double] .addDoubles,
    typed "sub" [integer, integer] .subIntegers,
    typed "sub" [double, double] .subDoubles,
    typed "mul" [integer, integer] .mulIntegers,
    typed "mul" [double, double] .mulDoubles,
    typed "gt" [integer, integer] .gtIntegers,
    typed "gt" [double, double] .gtDoubles,
    typed "if" [procedure, boolean] .ifTrue,
    typed "loop" [procedure] .loop,
    plain "exit" .exit,
    typed "repeat" [procedure, integer] .repetition,
    typed "for" [procedure, integer, integer, integer] .counting,
    typed "forall" [procedure, array] .forAll,
    typed "forall" [procedure, string] .forAll,
    typed "forallindexed" [procedure, array] .forAllIndexed,
    typed "forallindexed" [procedure, string] .forAllIndexed ]

end Registration

namespace Machine

/-- Binds a name in the system dictionary. -/
def defineSystem (name : Name) (token : Token) (machine : Machine) : Machine :=
  { machine with store := machine.store.insert machine.scopes.system name token }

/-- Binds a plain operator. -/
def register (name : Name) (operator : Operator) : HostAction Unit := do
  let token := Token.function name operator
  reserve [.token token]
  modify (defineSystem name (token.setWriteable false))

/-- The table that a name is bound to; a new one takes the place of anything else. -/
def tableFor (name : Name) : HostAction TableId := do
  let machine ← get
  match (machine.store.dictionary machine.scopes.system).peek? name with
  | some (.datum (.table _ id) _) => return id
  | other =>
    match other.bind Token.tag? with
    | some found => modify (report (.bindingReplaced name found))
    | none => pure ()
    let machine ← get
    let (id, store) := machine.store.newTable
    set { machine with store }
    let token := Token.table name id
    reserve [.token token]
    modify (defineSystem name (token.setWriteable false))
    return id

/-- Adds an overload; tells whether its signature was free. -/
def registerTyped (name : Name) (signature : Signature) (operator : Operator) :
    HostAction Bool := do
  let id ← tableFor name
  let token := Token.function name operator
  reserve [.token token, .value (.table name id)]
  let machine ← get
  match machine.store.addOverload id signature token with
  | .error fault => throw fault
  | .ok (accepted, store) =>
    set { machine with store }
    return accepted

/-- Carries out a registration. -/
def install : Registration → HostAction Unit
  | .plain name operator => register name operator
  | .typed name signature operator => discard <| registerTyped name signature operator

/-- A copy of the binding of a name in the system dictionary, which is read by
this. -/
def systemBinding (name : Name) : Operation (Option Token) := do
  let system := (← get).scopes.system
  match ← onStore (Store.read? system name) with
  | none => return none
  | some token =>
    claim [.token token]
    return some token

/-- What a name is bound to in the system dictionary, for display. -/
inductive TableLookup where
  | unbound
  | notATable
  /-- An overload tree, and the copy of the binding that led to it. -/
  | tree (binding : Token) (tree : OverloadTree)

/-- The overload tree that a name is bound to in the system dictionary; the
binding is read by this. -/
def systemTable (name : Name) : Operation TableLookup := do
  match ← systemBinding name with
  | none => return .unbound
  | some (.datum (.table table id) attributes) =>
    return .tree (.datum (.table table id) attributes) ((← get).store.table id)
  | some _ => return .notATable

/-- An overload tree as nested arrays of copies, while the binding that led to it
is in hand. -/
def treeArray (binding : Token) (tree : OverloadTree) : Operation Token := do
  claim [.token tree.toArray, .token binding]
  return tree.toArray

end Machine

end StackLang
