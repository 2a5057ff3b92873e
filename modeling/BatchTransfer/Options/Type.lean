import BatchTransfer.Options.Value
import BatchTransfer.Text.Blank

/-!
# Option types

Every option has a declared type, and a value that is written in another form is brought to it
where that is safe: numbers and truth values become texts, texts that spell a number or a truth
value become one, a single text becomes a list, and a choice takes the declared letter case.
-/

namespace BatchTransfer

open BatchTransfer.Decimal BatchTransfer.Text

/-- The declared type of an option. -/
inductive OptionType where
  | string
  | integer
  | float
  | boolean
  | stringList
  | records
  | oneOf (choices : List String)
  deriving DecidableEq, Repr

namespace OptionType

/-- The type in words. -/
def display : OptionType → String
  | string => "string"
  | integer => "integer"
  | float => "float"
  | boolean => "boolean"
  | stringList => "list of strings"
  | records => "list of records"
  | oneOf choices => "one of [" ++ ", ".intercalate choices ++ "]"

/-- The text of a value that is neither a list nor an object. -/
def textOf? : OptionValue → Option String
  | .string s => some s
  | .integer i => some (integerText i)
  | .float x => some (optionLayout.text x)
  | .boolean b => some (if b then "true" else "false")
  | .list _ => none
  | .object _ => none

/-- The truth value that a text spells, in any letter case. -/
def readBoolean? (s : String) : Option Bool :=
  if equalFold s "true" then some true
  else if equalFold s "false" then some false
  else none

/-- The first choice that equals a text up to letter case. -/
def chooseFrom? (choices : List String) (s : String) : Option String :=
  choices.find? (equalFold · s)

/-- Whether the value is a JSON object. -/
def isObject : OptionValue → Bool
  | .object _ => true
  | _ => false

/-- Brings a value to the type, where that is possible. -/
def coerce : OptionType → OptionValue → Option OptionValue
  | string, v => (textOf? v).map .string
  | integer, .integer i => some (.integer i)
  | integer, .string s => (readInteger? signed64 (trimChars s.toList)).map .integer
  | float, .float x => some (.float x)
  | float, .integer i => some (.float (Float.ofInt i))
  | float, .string s => (readFloat? (trimChars s.toList)).map .float
  | boolean, .boolean b => some (.boolean b)
  | boolean, .string s => (readBoolean? s).map .boolean
  | stringList, .string s => some (.list [.string s])
  | stringList, .list items => (items.mapM textOf?).map .strings
  | records, .list items => if items.all isObject then some (.list items) else none
  | oneOf choices, .string s => (chooseFrom? choices s).map .string
  | _, _ => none

end OptionType

end BatchTransfer
