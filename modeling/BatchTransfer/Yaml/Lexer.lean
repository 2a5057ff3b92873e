import BatchTransfer.Yaml.Scalar
import BatchTransfer.Yaml.Token

/-!
# Splitting YAML texts into tokens

Tokens are read from left to right with the columns of the open block collections at hand. Whether a
scalar or a flow collection is the key of a mapping shows only at the colon behind it, so its place
is kept as a candidate, and the tokens of the key are put in there when the colon is read.
-/

namespace BatchTransfer.Yaml

open BatchTransfer.Text

/-- A place in a text. -/
structure Spot where
  offset : Nat
  line : Nat
  column : Nat
  deriving DecidableEq, Repr

/-- The place behind a character. -/
def Spot.next (s : Spot) (c : Char) : Spot :=
  if c == '\n' then ⟨s.offset + 1, s.line + 1, 0⟩ else ⟨s.offset + 1, s.line, s.column + 1⟩

/-- What may turn out to be a key: the number of tokens before it and the place where it starts.
Where it must be a key, the text is malformed if no colon follows. -/
structure KeyCandidate where
  tokensBefore : Nat
  spot : Spot
  isRequired : Bool
  deriving DecidableEq, Repr

/-- Whether a candidate is out of reach: a key stands on one line and is not longer than 1024
characters. -/
def KeyCandidate.isPast (k : KeyCandidate) (spot : Spot) : Bool :=
  k.spot.line < spot.line || k.spot.offset + 1024 < spot.offset

/-- The tokens read so far and what is needed to read on. `columns` are those of the open block
collections, the innermost first. `candidates` has one place for the blocks and one for each open
flow collection, the innermost first. -/
structure Lexer where
  tokens : Array Token
  rest : List Char
  spot : Spot
  columns : List Nat
  candidates : List (Option KeyCandidate)
  keyAllowed : Bool

namespace Lexer

/-- The state before the first token of a text. A byte order mark at the start of the text is passed
over; it takes a column. -/
def start (text : List Char) : Lexer :=
  let s : Lexer :=
    { tokens := #[], rest := text, spot := ⟨0, 0, 0⟩, columns := [], candidates := [none]
      keyAllowed := true }
  match text with
  | '\uFEFF' :: rest => { s with rest, spot := ⟨1, 0, 1⟩ }
  | _ => s

/-- Whether a flow collection is open. -/
def inFlow (s : Lexer) : Bool := s.candidates.length > 1

/-- The state after one more token. -/
def push (s : Lexer) (t : Token) : Lexer := { s with tokens := s.tokens.push t }

/-- The state in which the text goes on at one of its ends. -/
def goOn (s : Lexer) (rest : List Char) : Lexer :=
  { s with rest, spot := (s.rest.take (s.rest.length - rest.length)).foldl Spot.next s.spot }

/-- The state after a number of characters. -/
def skip (s : Lexer) (n : Nat) : Lexer := s.goOn (s.rest.drop n)

/-- Passes over blanks, comments and line breaks up to the next token. In a block, a line break
makes a key possible, and then a tab is no blank. -/
def blanks (inFlow inComment keyAllowed : Bool) : List Char → Bool × List Char
  | [] => (keyAllowed, [])
  | c :: rest =>
      if c == '\n' then blanks inFlow false (keyAllowed || !inFlow) rest
      else if inComment || c == ' ' then blanks inFlow inComment keyAllowed rest
      else if c == '#' then blanks inFlow true keyAllowed rest
      else if c == '\t' && (inFlow || !keyAllowed) then blanks inFlow false keyAllowed rest
      else (keyAllowed, c :: rest)

/-- Goes to the next token. -/
def toToken (s : Lexer) : Lexer :=
  let (keyAllowed, rest) := blanks s.inFlow false s.keyAllowed s.rest
  { s.goOn rest with keyAllowed }

/-- Drops the candidates that are out of reach. -/
def dropPast (s : Lexer) : Option Lexer := do
  let candidates ← s.candidates.mapM fun candidate =>
    match candidate with
    | none => some none
    | some k =>
        if !k.isPast s.spot then some (some k) else if k.isRequired then none else some none
  some { s with candidates }

/-- Drops the innermost candidate. -/
def dropCandidate (s : Lexer) : Option Lexer :=
  match s.candidates with
  | some k :: outer => if k.isRequired then none else some { s with candidates := none :: outer }
  | _ => some s

/-- Makes the token that comes next a candidate, where a key is possible. It must be a key where it
stands at the column of the innermost block. -/
def addCandidate (s : Lexer) : Option Lexer := do
  if !s.keyAllowed then some s
  else
    let s ← s.dropCandidate
    let isRequired := !s.inFlow && s.columns.head? == some s.spot.column
    some { s with candidates := some ⟨s.tokens.size, s.spot, isRequired⟩ :: s.candidates.tail }

/-- Opens a block collection with a token among those before it, where the column lies deeper than
the innermost one. -/
def openBlock (s : Lexer) (column place : Nat) (t : Token) : Lexer :=
  if !s.inFlow && s.columns.head?.all (· < column) then
    { s with columns := column :: s.columns, tokens := s.tokens.insertIdxIfInBounds place t }
  else s

/-- Closes the block collections that lie deeper than a column, or all of them. -/
def closeBlocks (s : Lexer) (column : Option Nat) : Lexer :=
  if s.inFlow then s
  else
    let isDeeper (c : Nat) : Bool := column.all (· < c)
    { s with
      columns := s.columns.dropWhile isDeeper
      tokens := s.tokens ++ (s.columns.takeWhile isDeeper).map fun _ => Token.blockEnd }

/-- Reads a mark of one character behind which a key is possible or not. -/
def mark (s : Lexer) (t : Token) (keyAllowed : Bool) : Lexer :=
  { (s.push t).skip 1 with keyAllowed }

/-- Reads a mark between documents. -/
def documentMark (s : Lexer) (t : Token) : Option Lexer := do
  let s ← (s.closeBlocks none).dropCandidate
  some { (s.push t).skip 3 with keyAllowed := false }

/-- Reads a directive that names the version. -/
def directive (s : Lexer) : Option Lexer := do
  let s ← (s.closeBlocks none).dropCandidate
  let line := s.rest.takeWhile (· != '\n')
  match line with
  | '%' :: 'Y' :: 'A' :: 'M' :: 'L' :: ' ' :: text =>
      match text.dropWhile isSpace with
      | '1' :: '.' :: minor :: more =>
          if (minor == '1' || minor == '2') && startsBlank more then
            match more.dropWhile isSpace with
            | [] => some { (s.push .version).skip line.length with keyAllowed := false }
            | '#' :: _ => some { (s.push .version).skip line.length with keyAllowed := false }
            | _ => none
          else none
      | _ => none
  | _ => none

/-- Opens a flow collection. -/
def openFlow (s : Lexer) (t : Token) : Option Lexer := do
  let s ← s.addCandidate
  some ({ s with candidates := none :: s.candidates }.mark t true)

/-- Closes a flow collection. -/
def closeFlow (s : Lexer) (t : Token) : Option Lexer := do
  let s ← s.dropCandidate
  let candidates := if s.inFlow then s.candidates.tail else s.candidates
  some ({ s with candidates }.mark t false)

/-- Reads a comma. -/
def comma (s : Lexer) : Option Lexer := do
  some ((← s.dropCandidate).mark .comma true)

/-- Reads the dash before an item of a block sequence. -/
def dash (s : Lexer) : Option Lexer := do
  if !s.inFlow && !s.keyAllowed then none
  else
    let s ← (s.openBlock s.spot.column s.tokens.size .blockSequence).dropCandidate
    some (s.mark .dash true)

/-- Reads the question mark before a key. -/
def question (s : Lexer) : Option Lexer := do
  if !s.inFlow && !s.keyAllowed then none
  else
    let s ← (s.openBlock s.spot.column s.tokens.size .blockMapping).dropCandidate
    some (s.mark .key (!s.inFlow))

/-- Reads the colon before a value. The candidate before it has turned out to be a key. -/
def colon (s : Lexer) : Option Lexer :=
  match s.candidates with
  | some k :: outer =>
      let s := { s with
        candidates := none :: outer
        tokens := s.tokens.insertIdxIfInBounds k.tokensBefore .key }
      some ((s.openBlock k.spot.column k.tokensBefore .blockMapping).mark .value false)
  | _ =>
      if s.inFlow then some (s.mark .value false)
      else if !s.keyAllowed then none
      else some ((s.openBlock s.spot.column s.tokens.size .blockMapping).mark .value true)

/-- A character of the name of an anchor. -/
def isAnchorChar (c : Char) : Bool := isLetter c || isDigit c || c == '_' || c == '-'

/-- Whether the name of an anchor may end here. -/
def endsAnchor : List Char → Bool
  | [] => true
  | c :: _ =>
      isSpace c || c == '\n' || ['?', ':', ',', ']', '\x7d', '%', '@', '\x60'].contains c

/-- Reads the mark and the name of an anchor or an alias. -/
def anchor (s : Lexer) (make : String → Token) : Option Lexer := do
  let s ← s.addCandidate
  let name := (s.rest.drop 1).takeWhile isAnchorChar
  let rest := (s.rest.drop 1).dropWhile isAnchorChar
  if name.isEmpty || !endsAnchor rest then none
  else some { (s.push (make (String.ofList name))).goOn rest with keyAllowed := false }

/-- The tag that is written so. Two exclamation marks stand for the tags of YAML itself. -/
def tagName? : List Char → Option (List Char)
  | '!' :: '!' :: name => some ("tag:yaml.org,2002:".toList ++ name)
  | '!' :: '<' :: name => if name.getLast? == some '>' then some name.dropLast else none
  | '!' :: name => if name.contains '!' then none else some name
  | _ => none

/-- Reads a tag. -/
def tag (s : Lexer) : Option Lexer := do
  let s ← s.addCandidate
  let isPart (c : Char) : Bool := !isSpace c && c != '\n' && !(s.inFlow && isFlowMark c)
  let name ← tagName? (s.rest.takeWhile isPart)
  let rest := s.rest.dropWhile isPart
  if startsBlank rest || rest.head? == some ',' then
    some { (s.push (.tag (String.ofList name))).goOn rest with keyAllowed := false }
  else none

/-- Reads a block scalar. -/
def block (s : Lexer) (folds : Bool) : Option Lexer := do
  let s ← s.dropCandidate
  let (text, rest) ← readBlock? folds s.columns.head? (s.rest.drop 1)
  some { (s.push (.scalar .block text)).goOn rest with keyAllowed := true }

/-- Reads a quoted scalar. -/
def quoted (s : Lexer) (double : Bool) : Option Lexer := do
  let s ← s.addCandidate
  let (text, rest) ← readQuoted? double (s.spot.column + 1) .empty (s.rest.drop 1)
  some { (s.push (.scalar .quoted text)).goOn rest with keyAllowed := false }

/-- Reads a plain scalar. -/
def plain (s : Lexer) : Option Lexer := do
  let s ← s.addCandidate
  let p ← readPlain? s.inFlow (s.columns.head?.elim 0 (· + 1)) s.spot.column .empty s.rest
  some { (s.push (.scalar .plain p.text)).goOn p.rest with keyAllowed := p.leavesLine }

/-- Whether a plain scalar can start with a character, where it is no mark. -/
def startsPlain (inFlow : Bool) (c : Char) (rest : List Char) : Bool :=
  if c == '-' then !startsBlank rest
  else if c == '?' || c == ':' then !inFlow && !startsBlank rest
  else !(isSpace c || isFlowMark c || "#&*!|>'\"%@".contains c || c == '\x60')

/-- Reads the token that starts with a character. -/
def token (s : Lexer) (c : Char) (rest : List Char) : Option Lexer :=
  if s.spot.column == 0 && c == '%' then s.directive
  else if s.spot.column == 0 && startsDocumentMark s.rest then
    s.documentMark (if c == '-' then .documentStart else .documentEnd)
  else if c == '[' then s.openFlow .flowSequence
  else if c == '\x7b' then s.openFlow .flowMapping
  else if c == ']' then s.closeFlow .flowSequenceEnd
  else if c == '\x7d' then s.closeFlow .flowMappingEnd
  else if c == ',' then s.comma
  else if c == '-' && startsBlank rest then s.dash
  else if c == '?' && (s.inFlow || startsBlank rest) then s.question
  else if c == ':' && (s.inFlow || startsBlank rest) then s.colon
  else if c == '*' then s.anchor .alias
  else if c == '&' then s.anchor .anchor
  else if c == '!' then s.tag
  else if c == '|' && !s.inFlow then s.block false
  else if c == '>' && !s.inFlow then s.block true
  else if c == '\'' then s.quoted false
  else if c == '"' then s.quoted true
  else if startsPlain s.inFlow c rest then s.plain
  else none

/-- Reads tokens to the end of the text, at most as many as allowed. -/
def finish : Nat → Lexer → Option (List Token)
  | 0, _ => none
  | more + 1, s => do
      let s ← s.toToken.dropPast
      match s.rest with
      | [] => some ((← (s.closeBlocks none).dropCandidate).tokens.toList)
      | c :: rest => (← (s.closeBlocks (some s.spot.column)).token c rest).finish more

end Lexer

/-- A character that a text may hold. -/
def isPrintable (c : Char) : Bool :=
  let n := c.toNat
  n == 0x09 || n == 0x0A || (0x20 ≤ n && n ≤ 0x7E) || n == 0x85 || (0xA0 ≤ n && n ≤ 0xD7FF) ||
    (0xE000 ≤ n && n ≤ 0xFFFD) || 0x10000 ≤ n

/-- The text with every kind of line break written as a line feed. -/
def unifyBreaks : List Char → List Char
  | [] => []
  | '\r' :: '\n' :: cs => '\n' :: unifyBreaks cs
  | c :: cs => (if c == '\r' || c == '\u0085' then '\n' else c) :: unifyBreaks cs

/-- The tokens of a text. Every token takes a character, so the number of characters bounds that of
the steps. -/
def tokens? (text : List Char) : Option (List Token) :=
  let cs := unifyBreaks text
  if cs.all isPrintable then (Lexer.start cs).finish (cs.length + 1) else none

end BatchTransfer.Yaml
