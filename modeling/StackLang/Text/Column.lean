/-!
# Columns

Tables are made of columns of a least width, counted in characters.
-/

namespace StackLang.Text

/-- The text followed by the blanks that fill it up to `width` characters; a
longer text is left as it is. -/
def padRight (text : String) (width : Nat) : String :=
  text ++ String.ofList (List.replicate (width - text.length) ' ')

theorem length_padRight (text : String) (width : Nat) :
    (padRight text width).length = max text.length width := by
  simp only [padRight, String.length_append, String.length_ofList, List.length_replicate]
  omega

/-- How truth values are written. -/
def ofBool (b : Bool) : String :=
  if b then "true" else "false"

end StackLang.Text
