import StackLang.Token.Basic

/-!
# Drafts of tokens

A draft describes a token before it is made: a dictionary or an overload table
that is to be made with it has no number yet, only its contents.
-/

namespace StackLang

mutual

/-- Description of a token. -/
inductive Draft where
  | void
  | integer (n : Int64)
  | double (x : Float)
  | boolean (b : Bool)
  | string (text : String)
  | name (name : Name)
  | literal (name : Name)
  | procedure (body : List Draft)
  | litProcedure (body : List Draft)
  | array (items : List Draft)
  /-- A handle of a dictionary that exists. -/
  | dictionary (id : DictId)
  /-- A handle of a new dictionary, filled in order. -/
  | newDictionary (bindings : List DraftBinding)
  | function (name : Name) (operator : Operator)
  /-- A new overload table, filled in order. -/
  | newTable (name : Name) (overloads : List DraftOverload)
  | primitive (primitive : Primitive)
  | callback (action : Draft)
  | mark
  /-- The token of another draft, protected against redefinition. -/
  | readOnly (draft : Draft)

/-- Description of an entry of a new dictionary. -/
inductive DraftBinding where
  | mk (name : Name) (value : Draft)

/-- Description of an overload of a new table. -/
inductive DraftOverload where
  | mk (signature : Signature) (function : Draft)

end

instance : Inhabited Draft := ⟨.void⟩

end StackLang
