import BatchTransfer.Decimal.Layout
import BatchTransfer.Json.Basic

/-!
# Writing JSON

The compact form has no blanks. The indented form puts every item and field on a line of its own,
two blanks deeper than its container. In strings only the quote, the backslash and the characters
below U+0020 are escaped.
-/

namespace BatchTransfer.Json

open BatchTransfer.Decimal

/-- A hexadecimal digit in lower case. -/
def hexDigit (n : Nat) : Char :=
  if n < 10 then Char.ofNat ('0'.toNat + n) else Char.ofNat ('a'.toNat + (n - 10))

/-- The characters that stand for one character inside a JSON string. -/
def escapeChar (c : Char) : List Char :=
  if c == '"' then ['\\', '"']
  else if c == '\\' then ['\\', '\\']
  else if c == '\n' then ['\\', 'n']
  else if c == '\r' then ['\\', 'r']
  else if c == '\t' then ['\\', 't']
  else if c == '\x08' then ['\\', 'b']
  else if c == '\x0c' then ['\\', 'f']
  else if c.toNat < 0x20 then
    ['\\', 'u', '0', '0', hexDigit (c.toNat / 16), hexDigit (c.toNat % 16)]
  else [c]

/-- A text as a JSON string. -/
def stringChars (s : String) : List Char :=
  '"' :: (s.toList.flatMap escapeChar ++ ['"'])

/-- A floating-point number in JSON, `null` where it is not finite. -/
def floatChars (x : Float) : List Char :=
  if x.isFinite then jsonLayout.chars x else "null".toList

mutual

/-- The compact text of a value. -/
def chars : Json → List Char
  | null => "null".toList
  | bool true => "true".toList
  | bool false => "false".toList
  | int n => integerChars n
  | float x => floatChars x
  | string s => stringChars s
  | array [] => ['[', ']']
  | array (item :: rest) => '[' :: (chars item ++ itemsChars rest)
  | object [] => ['{', '}']
  | object ((name, value) :: rest) =>
      '{' :: (stringChars name ++ ':' :: (chars value ++ fieldsChars rest))

/-- The items after the first, each behind a comma, and the closing bracket. -/
def itemsChars : List Json → List Char
  | [] => [']']
  | item :: rest => ',' :: (chars item ++ itemsChars rest)

/-- The fields after the first, each behind a comma, and the closing brace. -/
def fieldsChars : List (String × Json) → List Char
  | [] => ['}']
  | (name, value) :: rest =>
      ',' :: (stringChars name ++ ':' :: (chars value ++ fieldsChars rest))

end

/-- The compact text of a value. -/
def compact (j : Json) : String :=
  String.ofList (chars j)

/-- A line break and the indentation of a level. -/
def lineBreak (level : Nat) : List Char :=
  '\n' :: List.replicate (2 * level) ' '

mutual

/-- The indented text of a value whose first line stands at the given level. -/
def indentedChars (level : Nat) : Json → List Char
  | array (item :: rest) =>
      '[' :: (lineBreak (level + 1) ++ (indentedChars (level + 1) item ++
        indentedItems level rest))
  | object ((name, value) :: rest) =>
      '{' :: (lineBreak (level + 1) ++ (stringChars name ++ (':' :: ' ' ::
        (indentedChars (level + 1) value ++ indentedFields level rest))))
  | j => chars j

/-- The items after the first, each on a line of its own, and the closing bracket. -/
def indentedItems (level : Nat) : List Json → List Char
  | [] => lineBreak level ++ [']']
  | item :: rest =>
      ',' :: (lineBreak (level + 1) ++ (indentedChars (level + 1) item ++
        indentedItems level rest))

/-- The fields after the first, each on a line of its own, and the closing brace. -/
def indentedFields (level : Nat) : List (String × Json) → List Char
  | [] => lineBreak level ++ ['}']
  | (name, value) :: rest =>
      ',' :: (lineBreak (level + 1) ++ (stringChars name ++ (':' :: ' ' ::
        (indentedChars (level + 1) value ++ indentedFields level rest))))

end

/-- The text of a value with one item or field a line. -/
def indented (j : Json) : String :=
  String.ofList (indentedChars 0 j)

end BatchTransfer.Json
