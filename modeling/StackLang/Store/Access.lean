import StackLang.Store.Write
import StackLang.Token.Kind

/-!
# Reading and updating entries

Reading an entry marks it as read, also when its type turns out to be wrong.
The typed functions read and write entries as values of a kind; to the reader, a
missing entry and an entry of another type are the same.
-/

namespace StackLang

/-- An action on the store, which may fail; what it did before stays. -/
abbrev StoreAction := EStateM Error Store

namespace Store

/-- Reads an entry if there is one. -/
def read? (id : DictId) (name : Name) : StoreAction (Option Token) := do
  match (← get).slot? id name with
  | none => return none
  | some slot =>
    modify (Store.touch id name)
    return some slot.token

/-- Reads an entry that must be there. -/
def read (id : DictId) (name : Name) : StoreAction Token := do
  match ← read? id name with
  | some token => return token
  | none => throw (.undefinedName name.text)

/-- Reads an entry as a kind. -/
def readAs (alive : DictId → Bool) (kind : Kind) (id : DictId) (name : Name) :
    StoreAction kind.Carrier := do
  let token ← read id name
  match kind.ofToken alive token with
  | .ok value => return value
  | .error reason =>
    modify (Store.report (.unreadable name reason))
    throw (.undefinedName name.text)

/-- Reads an entry as a kind if it is there and not void. -/
def readIfSet (alive : DictId → Bool) (kind : Kind) (id : DictId) (name : Name) :
    StoreAction (Option kind.Carrier) := do
  match (← get).slot? id name with
  | some ⟨.datum _ _, _⟩ => return some (← readAs alive kind id name)
  | _ => return none

/-- Updates a value of a kind with an entry that is set: tells whether there was
one, or why it could not be read, and the value afterwards. -/
def updateWith (alive : DictId → Bool) (kind : Kind) (id : DictId) (name : Name)
    (value : kind.Carrier) (store : Store) : Except Error Bool × kind.Carrier × Store :=
  match (readIfSet alive kind id name).run store with
  | .ok (some found) store => (.ok true, found, store)
  | .ok none store => (.ok false, value, store)
  | .error error store => (.error error, value, store)

/-- Reads an entry and replaces its slot by a fresh one with another token; tells
whether the entry counted as read in between. -/
def readAndReplace (id : DictId) (name : Name) (token : Token) : StoreAction (Option Bool) := do
  match ← read? id name with
  | none => return none
  | some _ =>
    let store ← get
    set (store.writeSlot id name token)
    return (store.slot? id name).map Slot.accessed

/-- The token in the slot of a name, which is made if necessary. -/
def slotToken (id : DictId) (name : Name) (store : Store) : Token × Store :=
  let store := store.openSlot id name
  (((store.dictionary id).peek? name).getD .void, store)

/-- Binds a name to a value of a kind. -/
def define (kind : Kind) (id : DictId) (name : Name) (value : kind.Carrier) (store : Store) :
    Store :=
  store.insert id name (kind.toToken value)

/-- Binds a name to a 32-bit integer, which is widened. -/
def defineNarrow (id : DictId) (name : Name) (n : Int32) (store : Store) : Store :=
  define .integer id name n.toInt64 store

/-- Changes the token in the slot of a name and leaves its flag alone. -/
def setToken (id : DictId) (name : Name) (token : Token) (store : Store) : Store :=
  store.modifyDictionary id (Dictionary.modify name fun slot => slot.withToken token)

/-- Binds a name to an empty array unless it is known. -/
def initializeArray (id : DictId) (name : Name) (store : Store) : Store :=
  if (store.dictionary id).knows name then store else store.insert id name (.array [])

/-- Appends a token to the array that a name is bound to. -/
def appendToArray (id : DictId) (name : Name) (token : Token) : StoreAction Unit := do
  match ← read id name with
  | .datum (.array items) attributes =>
    modify (Store.setToken id name (.datum (.array (items ++ [token])) attributes))
  | other => throw (.typeMismatch TypeTag.array.typeName other.typeName)

/-- Adds numbers to doubles one by one, up to the first token that is not a
double; what was added before it stays. -/
def addUpTo : List Token → List Float → List Token × Option Error
  | .datum (.double x) attributes :: items, v :: values =>
    let (sums, error) := addUpTo items values
    (.datum (.double (x + v)) attributes :: sums, error)
  | other :: items, _ :: _ =>
    (other :: items, some (.typeMismatch TypeTag.double.typeName other.typeName))
  | items, _ => (items, none)

/-- Adds values to the array of doubles that a name is bound to, element by
element.  An empty array takes the values as they are. -/
def accumulate (id : DictId) (name : Name) (values : List Float) : StoreAction Unit := do
  match ← read id name with
  | .datum (.array []) attributes =>
    modify (Store.setToken id name (.datum (.array (values.map Token.double)) attributes))
  | .datum (.array items) attributes =>
    if items.length ≠ values.length then
      throw (.typeMismatch s!"array of {values.length} doubles"
        s!"array of {items.length} elements")
    let (sums, error) := addUpTo items values
    modify (Store.setToken id name (.datum (.array sums) attributes))
    match error with
    | none => return
    | some error => throw error
  | other => throw (.typeMismatch TypeTag.array.typeName other.typeName)

end Store

end StackLang
