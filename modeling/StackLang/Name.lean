/-!
# Names

Names are the keys of dictionaries and the words of programs.  Tables list
them in an order that ignores the case of ASCII letters first and falls back
to the exact text, so that the order is total and agrees with equality.
-/

namespace StackLang

/-- A symbol of the language. -/
structure Name where
  text : String
  deriving DecidableEq, Repr, Inhabited, Hashable

namespace Name

instance : ToString Name := ⟨Name.text⟩

instance : Coe String Name := ⟨Name.mk⟩

/-- The characters with ASCII letters raised, by which names are ordered first. -/
def folded (name : Name) : List Char :=
  name.text.toList.map Char.toUpper

/-- Alphabetical order without regard to ASCII case; the code points of the
text decide between names that differ in case alone. -/
def cmp (left right : Name) : Ordering :=
  (compare left.folded right.folded).then (compare left.text.toList right.text.toList)

/-- Whether `left` may stand before `right` in a table. -/
def precedes (left right : Name) : Bool :=
  (cmp left right).isLE

/-- Names in table order; equal names keep their places. -/
def sort (names : List Name) : List Name :=
  names.mergeSort precedes

end Name

end StackLang
