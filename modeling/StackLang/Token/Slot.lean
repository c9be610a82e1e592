import StackLang.Token.Basic

/-!
# Slots

A slot is a place for a token together with a flag that tells whether the token
has been read since it was put there.
-/

namespace StackLang

/-- A place for a token. -/
structure Slot where
  token : Token := .void
  accessed : Bool := false
  deriving Inhabited

namespace Slot

/-- A slot with the token of another one, marked as read. -/
def markRead (slot : Slot) : Slot :=
  { slot with accessed := true }

/-- A slot with the token of another one, not marked as read. -/
def markUnread (slot : Slot) : Slot :=
  { slot with accessed := false }

/-- A slot with its token removed; its flag stays. -/
def clear (slot : Slot) : Slot :=
  { slot with token := .void }

/-- A slot with another token; its flag stays. -/
def withToken (slot : Slot) (token : Token) : Slot :=
  { slot with token }

end Slot

end StackLang
