import BatchTransfer.Decimal.Layout
import BatchTransfer.Json.Basic

/-!
# Tokens of statements

A statement is made of words, texts, numbers, JSON objects and seven signs. Every token carries
the byte offsets where it begins and ends.
-/

namespace BatchTransfer.Statement

open BatchTransfer.Decimal

/-- What a token is. -/
inductive Lexeme where
  | word (text : String)
  | quoted (value : String)
  | integer (value : Int)
  | float (value : Float)
  | object (record : Record)
  | leftParen
  | rightParen
  | leftBracket
  | rightBracket
  | comma
  | equals
  | semicolon
  deriving Inhabited

/-- The lexeme as error messages name it. -/
def Lexeme.describe : Lexeme → String
  | word text => s!"identifier '{text}'"
  | quoted _ => "string literal"
  | integer value => s!"number {integerText value}"
  | float value => s!"number {plainLayout.text value}"
  | object _ => "object literal"
  | leftParen => "'('"
  | rightParen => "')'"
  | leftBracket => "'['"
  | rightBracket => "']'"
  | comma => "','"
  | equals => "'='"
  | semicolon => "';'"

/-- The lexeme at a place, or the end of the statement, as error messages name it. -/
def describeFound : Option Lexeme → String
  | some lexeme => lexeme.describe
  | none => "end of statement"

/-- A token with the byte offsets of its first character and of what follows its last one. -/
structure Token where
  lexeme : Lexeme
  offset : Nat
  stop : Nat
  deriving Inhabited

/-- Why characters make no token. -/
inductive LexicalReason where
  | unexpectedCharacter (c : Char)
  | unterminatedText
  | unknownEscape (c : Char)
  | digitsAfterPoint
  | digitsInExponent
  | invalidNumber (literal : String)
  | invalidObject
  | unterminatedObject
  deriving DecidableEq, Repr

/-- The reason in words. -/
def LexicalReason.message : LexicalReason → String
  | unexpectedCharacter c => s!"unexpected character '{c}'"
  | unterminatedText => "unterminated string literal"
  | unknownEscape c => "unknown escape '\\" ++ c.toString ++ "'"
  | digitsAfterPoint => "expected digits after decimal point"
  | digitsInExponent => "expected digits in exponent"
  | invalidNumber literal => s!"invalid number '{literal}'"
  | invalidObject => "invalid object literal"
  | unterminatedObject => "unterminated object literal"

/-- Characters that make no token, and the byte offset that the error points at. -/
structure LexicalError where
  reason : LexicalReason
  offset : Nat
  deriving DecidableEq, Repr

end BatchTransfer.Statement
