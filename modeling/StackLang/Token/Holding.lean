import StackLang.Token.Ownership

/-!
# What data take storage

Every datum takes one block of the pool for its type, and what is inside an array
or a callback takes blocks of its own.  The body of a procedure is shared by the
copies of the procedure, so a token only refers to it.

Outside the store there are tokens, and values on their way into or out of a
token; both are held by somebody.
-/

namespace StackLang

mutual

/-- The types of the data inside a value, one for each block. -/
def Value.innerBlocks : Value → List TypeTag
  | .array items => Token.blocksOfAll items
  | .callback action => Token.blocks action
  | _ => []

/-- The types of the data of a token, one for each block. -/
def Token.blocks : Token → List TypeTag
  | .void => []
  | .datum value _ => value.tag :: Value.innerBlocks value

/-- The types of the data of a sequence of tokens, one for each block. -/
def Token.blocksOfAll : List Token → List TypeTag
  | [] => []
  | token :: rest => Token.blocks token ++ Token.blocksOfAll rest

end

/-- A numbered procedure body. -/
abbrev NumberedBody := BodyId × List Token

mutual

/-- The procedure bodies that a value refers to, and those inside them. -/
def Value.bodies : Value → List NumberedBody
  | .procedure id body => (id, body) :: Token.bodiesOfAll body
  | .litProcedure id body => (id, body) :: Token.bodiesOfAll body
  | .array items => Token.bodiesOfAll items
  | .callback action => Token.bodies action
  | _ => []

/-- The procedure bodies that a token refers to, and those inside them. -/
def Token.bodies : Token → List NumberedBody
  | .void => []
  | .datum value _ => Value.bodies value

/-- The procedure bodies that a sequence of tokens refers to, and those inside them. -/
def Token.bodiesOfAll : List Token → List NumberedBody
  | [] => []
  | token :: rest => Token.bodies token ++ Token.bodiesOfAll rest

end

/-- Something held outside the store. -/
inductive Holding where
  | token (token : Token)
  /-- A value that is in no token, so that only what is inside it takes storage. -/
  | value (value : Value)
  deriving Inhabited

namespace Holding

/-- A token with the same handles. -/
def asToken : Holding → Token
  | .token held => held
  | .value held => .ofValue held

/-- The types of the held data, one for each block. -/
def blocks : Holding → List TypeTag
  | .token held => held.blocks
  | .value held => held.innerBlocks

/-- The procedure bodies referred to, and those inside them. -/
def bodies : Holding → List NumberedBody
  | .token held => held.bodies
  | .value held => held.bodies

end Holding

end StackLang
