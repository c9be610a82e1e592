import StackLang.Decimal.Layout
import StackLang.Text.Column
import StackLang.Token.Basic

/-!
# Textual renderings of tokens

The plain form is for tables and messages; the pretty form is the one that could
be read back, with strings in parentheses and owned dictionaries expanded.  What
stands inside an array or a procedure is always pretty.  A listing shows a
procedure as an indented block and marks one of its elements.

The text of an expanded dictionary comes from the caller, who knows the store.
-/

namespace StackLang

/-- How a void token reads. -/
def voidText : String := "<void>"

/-- How a dictionary reads where it is not expanded. -/
def opaqueDictionary : String := "<dictionarytype>"

mutual

/-- A value as text. -/
def Value.render (expand : DictId → String) (pretty : Bool) : Value → String
  | .integer n => Decimal.ofInt64 n
  | .double x => Decimal.ofFloat x
  | .boolean b => Text.ofBool b
  | .string text => if pretty then "(" ++ text ++ ")" else text
  | .name name => name.text
  | .literal name => "/" ++ name.text
  | .procedure _ body => "\x7b" ++ Token.renderAll expand body ++ "\x7d"
  | .litProcedure _ body => "\x7b" ++ Token.renderAll expand body ++ "\x7d"
  | .array items => "[" ++ Token.renderAll expand items ++ "]"
  | .dictionary (.owned id) => if pretty then expand id else opaqueDictionary
  | .dictionary (.aliased _) => opaqueDictionary
  | .function name _ => "-" ++ name.text ++ "-"
  | .table name _ => "+" ++ name.text ++ "+"
  | .primitive primitive => primitive.primitiveName
  | .callback action => "<callback " ++ Token.renderOr expand pretty "void" action ++ ">"
  | .mark => "<mark>"

/-- A token as text, with a text for void of the caller's choice. -/
def Token.renderOr (expand : DictId → String) (pretty : Bool) (void : String) : Token → String
  | .void => void
  | .datum value _ => Value.render expand pretty value

/-- The elements of an array or a procedure, separated by blanks. -/
def Token.renderAll (expand : DictId → String) : List Token → String
  | [] => ""
  | [token] => Token.renderOr expand true voidText token
  | token :: rest =>
    Token.renderOr expand true voidText token ++ " " ++ Token.renderAll expand rest

end

namespace Token

/-- The plain form of a token. -/
def display (expand : DictId → String) (token : Token) : String :=
  token.renderOr expand false voidText

/-- A token with its type, for inspection. -/
def inspect (expand : DictId → String) : Token → String
  | .void => "Token<void>"
  | .datum value _ => "Token<" ++ value.tag.typeName ++ ">(" ++ value.render expand true ++ ")"

/-- Stands in front of the marked element of a listing. -/
def marker : String := "-->"

/-- Stands in front of every other line; also one step of indentation. -/
def blank : String := "   "

/-- The margin of element `position` when the cursor is at `cursor`. -/
def margin (cursor : Int) (position : Nat) : String :=
  if cursor = position then marker else blank

end Token

mutual

/-- The lines of a value behind a margin.  A procedure is a block of its own, in which nothing
is marked. -/
def Value.lines (expand : DictId → String) (indent margin : String) : Value → String
  | .procedure _ body =>
    margin ++ indent ++ "\x7b\n" ++ Token.listElements expand (indent ++ Token.blank) (-1) 0 body ++
      Token.blank ++ indent ++ "\x7d\n"
  | .litProcedure _ body =>
    margin ++ indent ++ "\x7b\n" ++ Token.listElements expand (indent ++ Token.blank) (-1) 0 body ++
      Token.blank ++ indent ++ "\x7d\n"
  | value => margin ++ indent ++ value.render expand true ++ "\n"

/-- The lines of a token behind a margin. -/
def Token.lines (expand : DictId → String) (indent margin : String) : Token → String
  | .void => margin ++ indent ++ voidText ++ "\n"
  | .datum value _ => Value.lines expand indent margin value

/-- The lines of a block's elements from `position` on, indented by `indent`. -/
def Token.listElements (expand : DictId → String) (indent : String) (cursor : Int) :
    Nat → List Token → String
  | _, [] => ""
  | position, token :: rest =>
    Token.lines expand indent (Token.margin cursor position) token ++
      Token.listElements expand indent cursor (position + 1) rest

end

namespace Token

/-- A procedure as an indented block with the element at `cursor` marked; a
negative cursor marks nothing. -/
def listing (expand : DictId → String) (indent : String) (cursor : Int)
    (body : List Token) : String :=
  blank ++ indent ++ "\x7b\n" ++ listElements expand (indent ++ blank) cursor 0 body ++
    blank ++ indent ++ "\x7d"

/-- A procedure as a block with a marked element; anything else as a line that
is marked itself when the cursor is zero. -/
def list (expand : DictId → String) (indent : String) (cursor : Int) : Token → String
  | .void => ""
  | .datum (.procedure _ body) _ => listing expand indent cursor body
  | .datum (.litProcedure _ body) _ => listing expand indent cursor body
  | .datum value _ =>
    (if cursor = 0 then marker else blank) ++ indent ++ value.render expand false

end Token

end StackLang
