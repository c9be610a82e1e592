import StackLang.Token.Basic

/-!
# Equality of tokens

Data are compared by content: arrays, procedures and callbacks element by
element, doubles as numbers.  Dictionaries and overload tables are compared by
identity and functions by name.  Attributes play no part, and values of
different types are never equal.
-/

namespace StackLang

mutual

/-- Whether two values are equal. -/
def Value.equals : Value → Value → Bool
  | .integer a, .integer b => a == b
  | .double a, .double b => a == b
  | .boolean a, .boolean b => a == b
  | .string a, .string b => a == b
  | .name a, .name b => a == b
  | .literal a, .literal b => a == b
  | .procedure _ a, .procedure _ b => Token.equalLists a b
  | .litProcedure _ a, .litProcedure _ b => Token.equalLists a b
  | .array a, .array b => Token.equalLists a b
  | .dictionary a, .dictionary b => a.id == b.id
  | .function a _, .function b _ => a == b
  | .table _ a, .table _ b => a == b
  | .primitive a, .primitive b => a == b
  | .callback a, .callback b => Token.equals a b
  | .mark, .mark => true
  | _, _ => false

/-- Whether two tokens are both void or hold equal values. -/
def Token.equals : Token → Token → Bool
  | .void, .void => true
  | .datum a _, .datum b _ => Value.equals a b
  | _, _ => false

/-- Whether two sequences of tokens are equal element by element. -/
def Token.equalLists : List Token → List Token → Bool
  | [], [] => true
  | a :: as, b :: bs => Token.equals a b && Token.equalLists as bs
  | _, _ => false

end

end StackLang
