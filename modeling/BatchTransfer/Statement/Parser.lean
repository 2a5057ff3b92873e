import BatchTransfer.Statement.Error
import BatchTransfer.Statement.Lexer
import BatchTransfer.Text.Caseless

/-!
# From tokens to plans

A statement has the form

    DATATUNNEL SOURCE ( text ) OPTIONS ( options ) SINK ( text ) OPTIONS ( options ) [ ; ]

where options are entries `word = value` between commas, and a value is a text, a number, a truth
value, or a list of such values and of JSON objects in square brackets. Lists are not nested, so
one token at a time decides: a `Stage` says what has been read, `Stage.advance?` how a token goes
on from there, and `Stage.expected` what error messages name when it does not.

Two checks wait for the token behind the thing they are about, so that characters that make no
token are reported first: `Stage.settle` refuses a key that is given twice once its value is
complete, and a result table without a name once the source clause is.
-/

namespace BatchTransfer.Statement

open BatchTransfer.Text

/-- The part of a clause that has been read: its kind and its entries so far. The entry that names
the result table is kept apart, with the byte offset of its value. -/
structure Clause where
  kind : String
  options : OptionMap
  resultTable : Option (OptionValue × Nat)
  deriving Inhabited

namespace Clause

/-- A clause without entries. -/
def new (kind : String) : Clause := ⟨kind, .empty, none⟩

/-- Whether an entry has been read under a key. -/
def hasKey (c : Clause) (key : String) : Bool :=
  if key = resultTableKey then c.resultTable.isSome else c.options.contains key

/-- Adds an entry whose value stands at a byte offset. -/
def add (c : Clause) (key : String) (value : OptionValue) (offset : Nat) : Clause :=
  if key = resultTableKey then { c with resultTable := some (value, offset) }
  else { c with options := c.options.insert key value }

/-- The clause as a side of a plan, with the entry that names the result table as an option. -/
def toEndpoint (c : Clause) : Endpoint :=
  match c.resultTable with
  | some (value, _) => ⟨c.kind, c.options.insert resultTableKey value⟩
  | none => ⟨c.kind, c.options⟩

end Clause

/-- The key of the entry that is being read, with its byte offset. -/
structure EntryKey where
  key : String
  offset : Nat
  deriving DecidableEq, Repr, Inhabited

/-- How far a clause has been read. -/
inductive ClauseStage where
  | keyword
  | kindParen
  | kind
  | kindEnd (kind : String)
  | optionsWord (kind : String)
  | optionsParen (kind : String)
  | firstKey (clause : Clause)
  | nextKey (clause : Clause)
  | equals (clause : Clause) (entry : EntryKey)
  | value (clause : Clause) (entry : EntryKey)
  | item (clause : Clause) (entry : EntryKey) (offset : Nat) (items : List OptionValue)
  | afterItem (clause : Clause) (entry : EntryKey) (offset : Nat) (items : List OptionValue)
  | afterValue (clause : Clause) (entry : EntryKey) (offset : Nat) (value : OptionValue)
  | separator (clause : Clause)

/-- The source side of a plan, complete with the name of the result table. -/
structure SourceSide where
  endpoint : Endpoint
  resultTable : Option String
  deriving Inhabited

/-- Which clause is being read. -/
inductive Side where
  | source
  | sink (first : SourceSide)

/-- The role of the connector in the clause that is being read. -/
def Side.role : Side → Role
  | source => .source
  | sink _ => .sink

/-- How far a statement has been read. -/
inductive Stage where
  | start
  | clause (side : Side) (stage : ClauseStage)
  | sourceRead (clause : Clause)
  | complete (plan : Plan)
  | ended (plan : Plan)

/-- The value that a lexeme is by itself. -/
def scalar? : Lexeme → Option OptionValue
  | .quoted s => some (.string s)
  | .integer i => some (.integer i)
  | .float x => some (.float x)
  | .word w =>
      if equalFold w "true" then some (.boolean true)
      else if equalFold w "false" then some (.boolean false)
      else none
  | _ => none

/-- The value that a lexeme is inside a list. -/
def listItem? : Lexeme → Option OptionValue
  | .object r => some (.object r)
  | lexeme => scalar? lexeme

namespace ClauseStage

/-- What may follow in the clause of a role, as error messages name it. -/
def expected (role : Role) : ClauseStage → String
  | keyword => role.keyword
  | kindParen => s!"'(' after {role.keyword}"
  | kind => "connector kind string"
  | kindEnd _ => "')' after connector kind"
  | optionsWord _ => "OPTIONS"
  | optionsParen _ => "'(' after OPTIONS"
  | firstKey _ => "option name"
  | nextKey _ => "option name"
  | equals _ entry => s!"'=' after option '{entry.key}'"
  | value _ _ => "option value"
  | item _ _ _ _ => "list element"
  | afterItem _ _ _ _ => "',' or ']' in list"
  | afterValue _ _ _ _ => "',' or ')' in option list"
  | separator _ => "',' or ')' in option list"

/-- Reads one token of a clause that does not end it. -/
def advance? (role : Role) : ClauseStage → Token → Option ClauseStage
  | keyword, ⟨.word w, _, _⟩ => if equalFold w role.keyword then some kindParen else none
  | kindParen, ⟨.leftParen, _, _⟩ => some kind
  | kind, ⟨.quoted s, _, _⟩ => if s = "" then none else some (kindEnd s)
  | kindEnd k, ⟨.rightParen, _, _⟩ => some (optionsWord k)
  | optionsWord k, ⟨.word w, _, _⟩ => if equalFold w "OPTIONS" then some (optionsParen k) else none
  | optionsParen k, ⟨.leftParen, _, _⟩ => some (firstKey (.new k))
  | firstKey c, ⟨.word w, offset, _⟩ => some (equals c ⟨w, offset⟩)
  | nextKey c, ⟨.word w, offset, _⟩ => some (equals c ⟨w, offset⟩)
  | equals c entry, ⟨.equals, _, _⟩ => some (value c entry)
  | value c entry, ⟨.leftBracket, offset, _⟩ => some (item c entry offset [])
  | value c entry, ⟨lexeme, offset, _⟩ => (scalar? lexeme).map (afterValue c entry offset)
  | item c entry offset items, ⟨lexeme, _, _⟩ =>
      (listItem? lexeme).map fun v => afterItem c entry offset (items ++ [v])
  | afterItem c entry offset items, ⟨.comma, _, _⟩ => some (item c entry offset items)
  | afterItem c entry offset items, ⟨.rightBracket, _, _⟩ =>
      some (afterValue c entry offset (.list items))
  | separator c, ⟨.comma, _, _⟩ => some (nextKey c)
  | _, _ => none

/-- The clause that a closing parenthesis completes. -/
def completed? : ClauseStage → Lexeme → Option Clause
  | firstKey c, .rightParen => some c
  | separator c, .rightParen => some c
  | _, _ => none

/-- The reason why a token cannot follow. -/
def complaint (role : Role) : ClauseStage → Option Lexeme → SyntaxReason
  | kind, some (.quoted _) => .emptyKind
  | value _ _, some (.object _) => .objectOutsideList
  | stage, found => .expected (stage.expected role) found

/-- Adds the entry that has just been read, unless its key has been given before. -/
def settle (role : Role) : ClauseStage → Except StatementFault ClauseStage
  | afterValue c entry offset v =>
      if c.hasKey entry.key then .error (.duplicateKey entry.offset role entry.key)
      else .ok (separator (c.add entry.key v offset))
  | stage => .ok stage

end ClauseStage

/-- The source side that a clause is, if the result table has a name. -/
def sourceSide (c : Clause) : Except StatementFault SourceSide :=
  match c.resultTable with
  | none => .ok ⟨⟨c.kind, c.options⟩, none⟩
  | some (.string name, offset) =>
      if name = "" then .error (.malformed offset .unnamedResultTable)
      else .ok ⟨⟨c.kind, c.options⟩, some name⟩
  | some (_, offset) => .error (.malformed offset .unnamedResultTable)

namespace Stage

/-- Makes the checks that have waited for the next token. -/
def settle : Stage → Except StatementFault Stage
  | clause side stage => (stage.settle side.role).map (clause side)
  | sourceRead c => (sourceSide c).map fun first => clause (.sink first) .keyword
  | stage => .ok stage

/-- What may follow, as error messages name it. -/
def expected : Stage → String
  | start => "DATATUNNEL"
  | clause side stage => stage.expected side.role
  | sourceRead _ => Role.keyword .sink
  | complete _ => "end of statement"
  | ended _ => "end of statement"

/-- The stage behind a complete clause. -/
def afterClause (side : Side) (c : Clause) : Stage :=
  match side with
  | .source => sourceRead c
  | .sink first => complete ⟨first.endpoint, c.toEndpoint, first.resultTable⟩

/-- Reads one token. -/
def advance? : Stage → Token → Option Stage
  | start, ⟨.word w, _, _⟩ =>
      if equalFold w "DATATUNNEL" then some (clause .source .keyword) else none
  | clause side stage, token =>
      match stage.completed? token.lexeme with
      | some c => some (afterClause side c)
      | none => (stage.advance? side.role token).map (clause side)
  | complete plan, ⟨.semicolon, _, _⟩ => some (ended plan)
  | _, _ => none

/-- The reason why a token, or the end of the text, cannot follow. -/
def complaint : Stage → Option Lexeme → SyntaxReason
  | clause side stage, found => stage.complaint side.role found
  | stage, found => .expected stage.expected found

/-- Makes the checks that have waited and reads one token. -/
def step (stage : Stage) (token : Token) : Except StatementFault Stage :=
  match stage.settle with
  | .error fault => .error fault
  | .ok stage =>
      match stage.advance? token with
      | some next => .ok next
      | none => .error (.malformed token.offset (stage.complaint (some token.lexeme)))

/-- Reads tokens one after the other. -/
def run (stage : Stage) : List Token → Except StatementFault Stage
  | [] => .ok stage
  | token :: rest =>
      match stage.step token with
      | .error fault => .error fault
      | .ok next => run next rest

/-- The plan of a statement that ends at a byte offset. -/
def finish (stage : Stage) (offset : Nat) : Except StatementFault Plan :=
  match stage.settle with
  | .error fault => .error fault
  | .ok (complete plan) => .ok plan
  | .ok (ended plan) => .ok plan
  | .ok stage => .error (.malformed offset (stage.complaint none))

end Stage

/-- The plan that tokens and what stands behind them spell. -/
def planOf (tokens : List Token) (ending : Ending) : Except StatementFault Plan :=
  match Stage.run .start tokens with
  | .error fault => .error fault
  | .ok stage =>
      match ending with
      | .ok offset => stage.finish offset
      | .error e => .error (.malformed e.offset (.lexical e.reason))

/-- The plan that a statement spells. -/
def parse (text : String) : Except StatementError Plan :=
  let (tokens, ending) := scan text
  (planOf tokens ending).mapError (StatementFault.locate text)

end BatchTransfer.Statement
