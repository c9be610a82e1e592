/-!
# Texts in quotes

A quoted text can be told from what stands around it: a quote or a backslash inside it
has a backslash in front, and a control character is written by its name or its number.
-/

namespace StackLang.Text

/-- A character as it stands between quotes. -/
def escaped (c : Char) : String :=
  match c with
  | '\"' => "\\\""
  | '\\' => "\\\\"
  | '\n' => "\\n"
  | '\r' => "\\r"
  | '\t' => "\\t"
  | '\x00' => "\\0"
  | c =>
    if c.toNat < 0x20 || (0x7F ≤ c.toNat && c.toNat < 0xA0) then
      "\\u\x7b" ++ String.ofList (Nat.toDigits 16 c.toNat) ++ "\x7d"
    else c.toString

/-- A text in quotes. -/
def quoted (text : String) : String :=
  "\"" ++ String.join (text.toList.map escaped) ++ "\""

example : quoted "a\"b\\c\n\x1b" = "\"a\\\"b\\\\c\\n\\u\x7b1b\x7d\"" := by decide

end StackLang.Text
