import StackLang.Error
import StackLang.Token.Basic

/-!
# Stacks of tokens

The operand stack and the execution stack are sequences of tokens that know how
many tokens they hold and how many they ever held.  Positions count from the
top, which is position zero.
-/

namespace StackLang

/-- A stack of tokens, the top first. -/
structure TokenStack where
  items : List Token := []
  load : Nat := items.length
  /-- The largest load since the peak was last reset. -/
  peak : Nat := load
  load_eq : load = items.length := by rfl

namespace TokenStack

/-- A stack that holds nothing and never did. -/
def empty : TokenStack := {}

instance : Inhabited TokenStack := ⟨empty⟩

/-- Whether the stack holds nothing. -/
def isEmpty (stack : TokenStack) : Bool :=
  stack.load == 0

/-- Puts a token on top. -/
def push (token : Token) (stack : TokenStack) : TokenStack where
  items := token :: stack.items
  load := stack.load + 1
  peak := max stack.peak (stack.load + 1)
  load_eq := by simp [stack.load_eq]

/-- Puts tokens on the stack, the last one on top. -/
def pushAll (tokens : List Token) (stack : TokenStack) : TokenStack :=
  tokens.foldl (fun stack token => stack.push token) stack

/-- The stack without its `n` topmost tokens. -/
def dropTop (n : Nat) (stack : TokenStack) : TokenStack where
  items := stack.items.drop n
  load := stack.load - n
  peak := stack.peak
  load_eq := by simp [stack.load_eq]

/-- Takes the top token. -/
def pop (stack : TokenStack) : Except Error (Token × TokenStack) :=
  match stack.items with
  | [] => .error (.stackUnderflow 1 0)
  | token :: _ => .ok (token, stack.dropTop 1)

/-- Fails unless there are `n` tokens. -/
def require (n : Nat) (stack : TokenStack) : Except Error Unit :=
  if stack.load < n then .error (.stackUnderflow n stack.load) else .ok ()

/-- Drops `n` tokens, or none if there are fewer. -/
def popMany (n : Nat) (stack : TokenStack) : Except Error TokenStack := do
  stack.require n
  return stack.dropTop n

/-- The token at a position. -/
def pick (n : Nat) (stack : TokenStack) : Except Error Token :=
  match stack.items[n]? with
  | some token => .ok token
  | none => .error (.stackUnderflow (n + 1) stack.load)

/-- The top token. -/
def top (stack : TokenStack) : Except Error Token :=
  stack.pick 0

/-- Replaces the token at a position. -/
def replace (n : Nat) (token : Token) (stack : TokenStack) : Except Error TokenStack :=
  if n < stack.load then
    .ok { stack with
      items := stack.items.set n token
      load_eq := by simp [stack.load_eq] }
  else .error (.stackUnderflow (n + 1) stack.load)

/-- Drops tokens until at most `load` are left. -/
def truncate (load : Nat) (stack : TokenStack) : TokenStack :=
  stack.dropTop (stack.load - load)

/-- The stack without its tokens; its peak stays. -/
def clear (stack : TokenStack) : TokenStack :=
  stack.truncate 0

/-- Takes the present load as the peak. -/
def resetPeak (stack : TokenStack) : TokenStack :=
  { stack with peak := stack.load }

/-- The types of the tokens from the top down, as overload selection sees them. -/
def operandTypes (stack : TokenStack) : List (Option TypeTag) :=
  stack.items.map Token.tag?

@[simp]
theorem items_push (token : Token) (stack : TokenStack) :
    (stack.push token).items = token :: stack.items := rfl

@[simp]
theorem load_push (token : Token) (stack : TokenStack) :
    (stack.push token).load = stack.load + 1 := rfl

@[simp]
theorem items_dropTop (n : Nat) (stack : TokenStack) :
    (stack.dropTop n).items = stack.items.drop n := rfl

@[simp]
theorem load_dropTop (n : Nat) (stack : TokenStack) :
    (stack.dropTop n).load = stack.load - n := rfl

end TokenStack

end StackLang
