import StackLang.Text.LossyUtf8

/-!
# Byte buffers

A sink for diagnostic output that can be looked at afterwards.  It takes bytes
and shows text, so a character may arrive in several pieces.
-/

namespace StackLang.Text

/-- A sink of bytes. -/
structure Buffer where
  bytes : List UInt8 := []

namespace Buffer

/-- Appends bytes; all of them are taken. -/
def write (more : List UInt8) (buffer : Buffer) : Buffer :=
  { bytes := buffer.bytes ++ more }

/-- What has been written, as text. -/
def contents (buffer : Buffer) : String :=
  ofBytes buffer.bytes

/-- A buffer that has been emptied. -/
def clear (_ : Buffer) : Buffer := {}

end Buffer

end StackLang.Text
