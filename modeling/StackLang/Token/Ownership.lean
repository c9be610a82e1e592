import StackLang.Token.Basic

/-!
# What a token keeps alive

A token keeps alive the shared objects whose handles it holds, also inside its
arrays, callbacks and procedures.  An alias keeps nothing alive.
-/

namespace StackLang

/-- A shared object of the store. -/
inductive SharedObject where
  | dictionary (id : DictId)
  | table (id : TableId)
  deriving DecidableEq, Repr

mutual

/-- The shared objects that a value holds handles of. -/
def Value.owned : Value → List SharedObject
  | .procedure _ body => Token.ownedByAll body
  | .litProcedure _ body => Token.ownedByAll body
  | .array items => Token.ownedByAll items
  | .dictionary (.owned id) => [.dictionary id]
  | .table _ id => [.table id]
  | .callback action => Token.owned action
  | _ => []

/-- The shared objects that a token holds handles of. -/
def Token.owned : Token → List SharedObject
  | .void => []
  | .datum value _ => Value.owned value

/-- The shared objects that a sequence of tokens holds handles of. -/
def Token.ownedByAll : List Token → List SharedObject
  | [] => []
  | token :: rest => Token.owned token ++ Token.ownedByAll rest

end

theorem Token.mem_ownedByAll {object : SharedObject} {tokens : List Token} :
    object ∈ Token.ownedByAll tokens ↔ ∃ token ∈ tokens, object ∈ token.owned := by
  induction tokens with
  | nil => simp [Token.ownedByAll]
  | cons token rest ih => simp [Token.ownedByAll, ih]

end StackLang
