import StackLang.Store.Basic
import StackLang.Text.Quoted
import StackLang.Token.Render

/-!
# Rendering dictionaries

Inside a pretty rendering a dictionary is expanded to its entries, whose own
dictionaries are expanded only within arrays and procedures.  The table of a
dictionary lists its entries sorted by name.

A dictionary that contains itself through an array or a procedure has no text: before
it could be rendered, it would have to be rendered.  So a rendering has no text if a
dictionary that it expands has none, and a dictionary has a text if it can be made with
finitely many calls inside each other.
-/

namespace StackLang

mutual

/-- A value as text, if every dictionary that is expanded in it has one. -/
def Value.render? (expand : DictId → Option String) (pretty : Bool) : Value → Option String
  | .procedure _ body => do return "\x7b" ++ (← Token.renderAll? expand body) ++ "\x7d"
  | .litProcedure _ body => do return "\x7b" ++ (← Token.renderAll? expand body) ++ "\x7d"
  | .array items => do return "[" ++ (← Token.renderAll? expand items) ++ "]"
  | .dictionary (.owned id) => if pretty then expand id else some opaqueDictionary
  | .callback action => do
    return "<callback " ++ (← Token.renderOr? expand pretty "void" action) ++ ">"
  | value => some (value.render (fun _ => opaqueDictionary) pretty)

/-- A token as text, with a text for void of the caller's choice. -/
def Token.renderOr? (expand : DictId → Option String) (pretty : Bool) (void : String) :
    Token → Option String
  | .void => some void
  | .datum value _ => Value.render? expand pretty value

/-- The elements of an array or a procedure, separated by blanks. -/
def Token.renderAll? (expand : DictId → Option String) : List Token → Option String
  | [] => some ""
  | [token] => Token.renderOr? expand true voidText token
  | token :: rest => do
    let first ← Token.renderOr? expand true voidText token
    return first ++ " " ++ (← Token.renderAll? expand rest)

end

namespace Token

/-- The plain form of a token. -/
def display? (expand : DictId → Option String) (token : Token) : Option String :=
  token.renderOr? expand false voidText

/-- A token with its type, for inspection. -/
def inspect? (expand : DictId → Option String) : Token → Option String
  | .void => some "Token<void>"
  | .datum value _ => do
    return "Token<" ++ value.tag.typeName ++ ">(" ++ (← value.render? expand true) ++ ")"

end Token

mutual

/-- The lines of a value behind a margin. -/
def Value.lines? (expand : DictId → Option String) (indent margin : String) :
    Value → Option String
  | .procedure _ body => do
    let block ← Token.listElements? expand (indent ++ Token.blank) (-1) 0 body
    return margin ++ indent ++ "\x7b\n" ++ block ++ Token.blank ++ indent ++ "\x7d\n"
  | .litProcedure _ body => do
    let block ← Token.listElements? expand (indent ++ Token.blank) (-1) 0 body
    return margin ++ indent ++ "\x7b\n" ++ block ++ Token.blank ++ indent ++ "\x7d\n"
  | value => do
    return margin ++ indent ++ (← value.render? expand true) ++ "\n"

/-- The lines of a token behind a margin. -/
def Token.lines? (expand : DictId → Option String) (indent margin : String) :
    Token → Option String
  | .void => some (margin ++ indent ++ voidText ++ "\n")
  | .datum value _ => Value.lines? expand indent margin value

/-- The lines of a block's elements from `position` on. -/
def Token.listElements? (expand : DictId → Option String) (indent : String) (cursor : Int) :
    Nat → List Token → Option String
  | _, [] => some ""
  | position, token :: rest => do
    let lines ← Token.lines? expand indent (Token.margin cursor position) token
    return lines ++ (← Token.listElements? expand indent cursor (position + 1) rest)

end

namespace Token

/-- A procedure as an indented block with the element at `cursor` marked. -/
def listing? (expand : DictId → Option String) (indent : String) (cursor : Int)
    (body : List Token) : Option String := do
  let block ← listElements? expand (indent ++ blank) cursor 0 body
  return blank ++ indent ++ "\x7b\n" ++ block ++ blank ++ indent ++ "\x7d"

/-- A procedure as a block with a marked element; anything else as a line. -/
def list? (expand : DictId → Option String) (indent : String) (cursor : Int) :
    Token → Option String
  | .void => some ""
  | .datum (.procedure _ body) _ => listing? expand indent cursor body
  | .datum (.litProcedure _ body) _ => listing? expand indent cursor body
  | .datum value _ => do
    return (if cursor = 0 then marker else blank) ++ indent ++ (← value.render? expand false)

end Token

namespace Store

/-- The line that frames a table. -/
def rule : String := String.ofList (List.replicate 50 '-') ++ "\n"

/-- Width of the column of names. -/
def nameWidth : Nat := 25

/-- Width of the column of types. -/
def typeWidth : Nat := 20

end Store

namespace Dictionary

/-- A dictionary as a list of names and plain values. -/
def display? (expand : DictId → Option String) (dictionary : Dictionary) : Option String := do
  let entries ← dictionary.entries.mapM fun entry => do
    return entry.1.text ++ " " ++ (← entry.2.token.display? expand) ++ ","
  return "<<" ++ String.join entries ++ ">>"

/-- A dictionary with the type of each value, on one line. -/
def inspect? (expand : DictId → Option String) (dictionary : Dictionary) : Option String := do
  let entries ← dictionary.entries.mapM fun entry => do
    return Text.quoted entry.1.text ++ ": " ++ (← entry.2.token.inspect? expand)
  return "\x7b" ++ ", ".intercalate entries ++ "\x7d"

/-- A table of all entries, sorted by name, followed by their number. -/
def info? (expand : DictId → Option String) (dictionary : Dictionary) : Option String := do
  let rows ← dictionary.sortedEntries.mapM fun entry => do
    return Text.padRight entry.1.text Store.nameWidth ++
      Text.padRight entry.2.token.typeName Store.typeWidth ++
      (← entry.2.token.display? expand) ++ "\n"
  let table :=
    if dictionary.isEmpty then ""
    else
      Store.rule ++ Text.padRight "Name" Store.nameWidth ++
        Text.padRight "Type" Store.typeWidth ++ "Value\n" ++
        Store.rule ++ String.join rows ++ Store.rule
  return table ++ s!"Total number of entries: {dictionary.size}\n"

end Dictionary

/-- A dictionary as a list of names and plain values, if no more than `calls` calls
inside each other are needed. -/
def Store.displayWithin? (store : Store) : Nat → DictId → Option String
  | 0, _ => none
  | calls + 1, id => (store.dictionary id).display? (store.displayWithin? calls)

/-- A dictionary as a list of names and plain values, if it has a text.  Where a rendering
comes to an end, no more calls are inside each other than there are dictionaries, and one. -/
def Store.display? (store : Store) (id : DictId) : Option String :=
  store.displayWithin? (store.dictionaries.size + 1) id

/-- The texts that can be asked for. -/
inductive Rendering where
  /-- A value, plain or pretty. -/
  | print (pretty : Bool) (value : Value)
  | display (token : Token)
  | inspect (token : Token)
  | list (indent : String) (cursor : Int) (token : Token)
  | displayDictionary (id : DictId)
  | inspectDictionary (id : DictId)
  | info (id : DictId)

namespace Rendering

/-- The text in which every dictionary that comes up is expanded by `expand`. -/
def textWith? (store : Store) (expand : DictId → Option String) : Rendering → Option String
  | print pretty value => value.render? expand pretty
  | display token => token.display? expand
  | inspect token => token.inspect? expand
  | list indent cursor token => token.list? expand indent cursor
  | displayDictionary id => expand id
  | inspectDictionary id => (store.dictionary id).inspect? expand
  | info id => (store.dictionary id).info? expand

/-- The text that can be made with `calls` calls of dictionaries inside each other. -/
def text? (store : Store) (calls : Nat) (rendering : Rendering) : Option String :=
  rendering.textWith? store (store.displayWithin? calls)

end Rendering

end StackLang
