import BatchTransfer.Decimal.Layout
import BatchTransfer.Json.Printer
import BatchTransfer.KeyMap

/-!
# Option values

An option value is written in a statement as a quoted text, a number, a truth value, or a list of
such values and of JSON objects. `OptionValue.display` is the canonical literal, which a statement
may hold again.
-/

namespace BatchTransfer

open BatchTransfer.Decimal

/-- The value of an option. -/
inductive OptionValue where
  | string (value : String)
  | integer (value : Int)
  | float (value : Float)
  | boolean (value : Bool)
  | list (items : List OptionValue)
  | object (record : Record)
  deriving Inhabited

/-- Options by key. -/
abbrev OptionMap := KeyMap OptionValue

namespace OptionValue

/-- A list of texts. -/
def strings (items : List String) : OptionValue := .list (items.map .string)

/-- The name of the type of a value. -/
def typeName : OptionValue → String
  | string _ => "string"
  | integer _ => "integer"
  | float _ => "float"
  | boolean _ => "boolean"
  | list _ => "list"
  | object _ => "object"

/-- The text that the value is, if it is one. -/
def string? : OptionValue → Option String
  | string s => some s
  | _ => none

/-- The whole number that the value is, if it is one. -/
def integer? : OptionValue → Option Int
  | integer i => some i
  | _ => none

/-- The number that the value is, a whole number included. -/
def float? : OptionValue → Option Float
  | float x => some x
  | integer i => some (Float.ofInt i)
  | _ => none

/-- The truth value that the value is, if it is one. -/
def boolean? : OptionValue → Option Bool
  | boolean b => some b
  | _ => none

/-- The items of the value, if it is a list. -/
def list? : OptionValue → Option (List OptionValue)
  | list items => some items
  | _ => none

/-- The texts of a list of texts. -/
def strings? (v : OptionValue) : Option (List String) := do
  (← v.list?).mapM string?

/-- The characters that stand for one character inside a quoted text of a statement. -/
def escapeChar (c : Char) : List Char :=
  if c == '"' then ['\\', '"']
  else if c == '\\' then ['\\', '\\']
  else if c == '\n' then ['\\', 'n']
  else if c == '\r' then ['\\', 'r']
  else if c == '\t' then ['\\', 't']
  else [c]

/-- A text in double quotes. -/
def quotedChars (s : String) : List Char :=
  '"' :: (s.toList.flatMap escapeChar ++ ['"'])

mutual

/-- The canonical literal of a value. -/
def chars : OptionValue → List Char
  | string s => quotedChars s
  | integer i => integerChars i
  | float x => optionLayout.chars x
  | boolean true => "true".toList
  | boolean false => "false".toList
  | list [] => ['[', ']']
  | list (item :: rest) => '[' :: (chars item ++ itemsChars rest)
  | object r => Json.chars r.toJson

/-- The items after the first, each behind a comma, and the closing bracket. -/
def itemsChars : List OptionValue → List Char
  | [] => [']']
  | item :: rest => ',' :: ' ' :: (chars item ++ itemsChars rest)

end

/-- The canonical literal of a value. -/
def display (v : OptionValue) : String := String.ofList v.chars

mutual

/-- The value in JSON. A floating-point value that is not finite has none and becomes null. -/
def toJson : OptionValue → Json
  | string s => .string s
  | integer i => .int i
  | float x => if x.isFinite then .float x else .null
  | boolean b => .bool b
  | list items => .array (itemsToJson items)
  | object r => r.toJson

/-- The items in JSON. -/
def itemsToJson : List OptionValue → List Json
  | [] => []
  | item :: rest => toJson item :: itemsToJson rest

end

mutual

/-- Equality of values; numbers are compared by value, and the order of the fields of an object
does not matter. -/
def equal : OptionValue → OptionValue → Bool
  | string a, string b => a == b
  | integer a, integer b => a == b
  | float a, float b => a == b
  | boolean a, boolean b => a == b
  | list as, list bs => equalItems as bs
  | object a, object b => a.equal b
  | _, _ => false

/-- Equality of lists of values, item by item. -/
def equalItems : List OptionValue → List OptionValue → Bool
  | [], [] => true
  | a :: as, b :: bs => equal a b && equalItems as bs
  | _, _ => false

end

end OptionValue

namespace OptionMap

/-- The options as a JSON object, in the order of their keys. -/
def toJson (m : OptionMap) : Json :=
  .object (m.entries.map fun e => (e.1, e.2.toJson))

/-- Equality of the options under every key. -/
def equal (a b : OptionMap) : Bool :=
  a.size == b.size &&
    (a.entries.zip b.entries).all fun (x, y) => x.1 == y.1 && x.2.equal y.2

end OptionMap

end BatchTransfer
