import BatchTransfer.Statement.Plan
import BatchTransfer.Statement.Token
import BatchTransfer.Text.Position

/-!
# Rejected statements

A statement is rejected for characters that make no token, for a token out of place, for a key
that is given twice, or for a result table without a name. Inside the parser an error points at a
byte offset; `StatementFault.locate` turns it into a place in the text.
-/

namespace BatchTransfer

open BatchTransfer.Text BatchTransfer.Statement

/-- Why a statement is no statement. -/
inductive SyntaxReason where
  | lexical (reason : LexicalReason)
  | expected (what : String) (found : Option Lexeme)
  | emptyKind
  | objectOutsideList
  | unnamedResultTable

/-- The reason in words. -/
def SyntaxReason.message : SyntaxReason → String
  | lexical reason => reason.message
  | expected what found => s!"expected {what}, found {describeFound found}"
  | emptyKind => "connector kind must not be empty"
  | objectOutsideList => "object literals are only allowed inside lists"
  | unnamedResultTable => s!"{resultTableKey} must be a non-empty string literal"

/-- A fault of a statement, with the byte offset that it points at. -/
inductive StatementFault where
  | malformed (offset : Nat) (reason : SyntaxReason)
  | duplicateKey (offset : Nat) (role : Role) (key : String)

/-- Why a statement is rejected, and where. -/
inductive StatementError where
  | malformed (position : Position) (reason : SyntaxReason)
  | duplicateKey (position : Position) (role : Role) (key : String)

/-- The fault with its place in the text. -/
def StatementFault.locate (text : String) : StatementFault → StatementError
  | malformed offset reason => .malformed (.locate text offset) reason
  | duplicateKey offset role key => .duplicateKey (.locate text offset) role key

namespace StatementError

/-- The place that the error points at. -/
def position : StatementError → Position
  | malformed position _ => position
  | duplicateKey position _ _ => position

/-- The error in words. -/
def message : StatementError → String
  | malformed position reason => s!"syntax error at {position.display}: {reason.message}"
  | duplicateKey position role key =>
      s!"duplicate option key '{key}' in {role.name} options at {position.display}"

end StatementError

end BatchTransfer
