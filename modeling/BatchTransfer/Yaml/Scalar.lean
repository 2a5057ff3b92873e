import BatchTransfer.Text.Caseless
import BatchTransfer.Text.Percent
import BatchTransfer.Text.Pieces
import BatchTransfer.Yaml.Folded

/-!
# Scalars

A scalar is written plainly, between quotes, or as a block of lines. Each reader starts behind what
opens the scalar and returns its text with what follows it.
-/

namespace BatchTransfer.Yaml

open BatchTransfer.Text

/-- Whether a line ends here or goes on with a blank. -/
def startsBlank : List Char → Bool
  | [] => true
  | c :: _ => isSpace c || c == '\n'

/-- Whether the line that starts here is a document mark. -/
def startsDocumentMark : List Char → Bool
  | '-' :: '-' :: '-' :: rest => startsBlank rest
  | '.' :: '.' :: '.' :: rest => startsBlank rest
  | _ => false

/-- A character that ends a plain scalar in a flow collection. -/
def isFlowMark (c : Char) : Bool := [',', '[', ']', '{', '}'].contains c

/-- Whether a flow mark or a question mark starts here. -/
def startsFlowMark : List Char → Bool
  | [] => false
  | c :: _ => isFlowMark c || c == '?'

/-- A plain scalar, what follows it, and whether the line on which it stands has been left. -/
structure PlainScalar where
  text : String
  rest : List Char
  leavesLine : Bool
  deriving Repr

/-- Reads a plain scalar from the column at which it goes on. It ends before a comment, before a
colon and a blank, in a flow collection before a flow mark, and otherwise before a line that is
indented less than `least` columns. -/
def readPlain? (inFlow : Bool) (least : Nat) (column : Nat) (f : Folded) :
    List Char → Option PlainScalar
  | [] => some ⟨f.text, [], f.gap.holdsBreak⟩
  | c :: rest =>
      if c == '\n' then readPlain? inFlow least 0 f.pushBreak rest
      else if isSpace c then
        if f.gap.holdsBreak && column < least && c == '\t' then none
        else readPlain? inFlow least (column + 1) (f.pushBlank c) rest
      else if f.gap != .nothing &&
          (c == '#' || (column == 0 && startsDocumentMark (c :: rest)) ||
            (f.gap.holdsBreak && !inFlow && column < least)) then
        some ⟨f.text, c :: rest, f.gap.holdsBreak⟩
      else if inFlow && c == ':' && startsFlowMark rest then none
      else if (c == ':' && startsBlank rest) || (inFlow && isFlowMark c) then
        some ⟨f.text, c :: rest, f.gap.holdsBreak⟩
      else readPlain? inFlow least (column + 1) (f.push c) rest

/-- The number that hexadecimal digits spell. -/
def hexValue? (cs : List Char) : Option Nat :=
  cs.foldlM (fun n c => (hexDigitValue? c).map (16 * n + ·)) 0

/-- The character whose code is spelled by the first `places` characters. -/
def readCode? (places : Nat) (cs : List Char) : Option Char :=
  if cs.length < places then none
  else
    match hexValue? (cs.take places) with
    | some n => if h : n.isValidChar then some (Char.ofNatAux n h) else none
    | none => none

/-- The character that a single letter behind a backslash stands for. -/
def letterEscape? (c : Char) : Option Char :=
  [('0', '\x00'), ('a', '\x07'), ('b', '\x08'), ('t', '\t'), ('\t', '\t'), ('n', '\n'),
    ('v', '\x0b'), ('f', '\x0c'), ('r', '\r'), ('e', '\x1b'), (' ', ' '), ('"', '"'), ('/', '/'),
    ('\\', '\\'), ('N', '\u0085'), ('_', '\u00a0'), ('L', '\u2028'), ('P', '\u2029')].lookup c

/-- The number of hexadecimal digits that belong to a letter behind a backslash. -/
def codePlaces? (c : Char) : Option Nat :=
  [('x', 2), ('u', 4), ('U', 8)].lookup c

/-- Reads a quoted scalar up to its closing quote. Between single quotes a doubled quote stands for
one; between double quotes a backslash escapes. -/
def readQuoted? (double : Bool) (column : Nat) (f : Folded) (cs : List Char) :
    Option (String × List Char) :=
  match cs with
  | [] => none
  | c :: rest =>
      if c == '\n' then readQuoted? double 0 f.pushBreak rest
      else if isSpace c then readQuoted? double (column + 1) (f.pushBlank c) rest
      else if column == 0 && startsDocumentMark (c :: rest) then none
      else if double then
        if c == '"' then some (f.close.text, rest)
        else if c == '\\' then
          match rest with
          | [] => none
          | e :: rest =>
              if e == '\n' then readQuoted? double 0 f.join rest
              else
                match letterEscape? e, codePlaces? e with
                | some e, _ => readQuoted? double (column + 2) (f.push e) rest
                | none, some places =>
                    match readCode? places rest with
                    | some e =>
                        readQuoted? double (column + 2 + places) (f.push e) (rest.drop places)
                    | none => none
                | none, none => none
        else readQuoted? double (column + 1) (f.push c) rest
      else if c == '\'' then
        match rest with
        | '\'' :: rest => readQuoted? double (column + 2) (f.push '\'') rest
        | _ => some (f.close.text, rest)
      else readQuoted? double (column + 1) (f.push c) rest
termination_by cs.length
decreasing_by all_goals simp_all <;> omega

/-- What becomes of the line breaks at the end of a block scalar. -/
inductive Chomping where
  | strip
  | clip
  | keep
  deriving DecidableEq, Repr

/-- What the first line of a block scalar says: the chomping, and the indentation if it is given. -/
structure BlockHeader where
  chomping : Chomping
  indentation : Option Nat
  deriving DecidableEq, Repr

namespace BlockHeader

/-- Reads the marks of a header. -/
def readMarks (h : BlockHeader) : List Char → BlockHeader × List Char
  | '-' :: rest => ({ h with chomping := .strip }, rest)
  | '+' :: rest => ({ h with chomping := .keep }, rest)
  | cs => (h, cs)

/-- Reads the indentation of a header. -/
def readIndentation? (h : BlockHeader) : List Char → Option (BlockHeader × List Char)
  | '0' :: _ => none
  | c :: rest =>
      if isDigit c then some ({ h with indentation := some (c.toNat - '0'.toNat) }, rest)
      else some (h, c :: rest)
  | [] => some (h, [])

/-- Reads the first line of a block scalar, up to a comment. -/
def read? (line : List Char) : Option BlockHeader := do
  let (h, rest) := readMarks ⟨.clip, none⟩ line
  let (h, rest) ← readIndentation? h rest
  let (h, rest) := if h.chomping == .clip then readMarks h rest else (h, rest)
  match rest.dropWhile isSpace with
  | [] => some h
  | '#' :: _ => some h
  | _ => none

end BlockHeader

/-- The number of spaces at the start of a line. -/
def spacesBefore (line : List Char) : Nat := (line.takeWhile (· == ' ')).length

/-- The indentation of a block scalar that gives none: that of its first line which is not empty, or
of a longer empty line before it, but at least `least`. -/
def detectIndentation? (least : Nat) : List (List Char) → Option Nat
  | [] => some least
  | line :: lines =>
      let n := max least (spacesBefore line)
      match line.drop (spacesBefore line) with
      | [] => detectIndentation? n lines
      | '\t' :: _ => none
      | _ => some n

/-- The lines of a block scalar without their indentation, and the lines that follow it. Empty lines
at its end are part of it. The last line of a text has no line break. -/
def takeBlock? (indentation : Nat) : List (List Char) → Option (List (List Char) × List (List Char))
  | [] => some ([], [])
  | line :: lines =>
      let n := min indentation (spacesBefore line)
      match line.drop n with
      | [] =>
          if lines.isEmpty then some ([], [line])
          else (takeBlock? indentation lines).map fun (block, rest) => ([] :: block, rest)
      | c :: cs =>
          if n < indentation then if c == '\t' then none else some ([], line :: lines)
          else (takeBlock? indentation lines).map fun (block, rest) => ((c :: cs) :: block, rest)

/-- The text of a block with its latest character first, whether a line break is due, the number of
empty lines since, and whether the latest line starts with a blank. -/
structure BlockText where
  read : List Char
  breakDue : Bool
  emptyLines : Nat
  indented : Bool

/-- The text after one more line. In a folded block a single break between two lines that do not
start with a blank becomes a space. -/
def BlockText.push (folds : Bool) (t : BlockText) (line : List Char) : BlockText :=
  match line with
  | [] => { t with emptyLines := t.emptyLines + 1 }
  | c :: _ =>
      let between :=
        if !t.breakDue then []
        else if folds && !t.indented && !isSpace c then
          if t.emptyLines == 0 then [' '] else []
        else ['\n']
      let breaks := List.replicate t.emptyLines '\n'
      ⟨line.reverse ++ breaks ++ between ++ t.read, true, 0, isSpace c⟩

/-- The text of a whole block; `ended` says whether a line break follows its last line. -/
def BlockText.close (chomping : Chomping) (ended : Bool) (t : BlockText) : String :=
  let last := if t.breakDue && ended then ['\n'] else []
  let breaks := List.replicate t.emptyLines '\n'
  String.ofList <| List.reverse <|
    match chomping with
    | .strip => t.read
    | .clip => last ++ t.read
    | .keep => breaks ++ last ++ t.read

/-- Reads a block scalar behind the mark that opens it; `parent` is the column of the block around
it. -/
def readBlock? (folds : Bool) (parent : Option Nat) (cs : List Char) :
    Option (String × List Char) := do
  match splitPieces (· == '\n') cs with
  | [] => none
  | first :: lines =>
      let h ← BlockHeader.read? first
      let indentation ←
        match h.indentation with
        | some n => some (parent.getD 0 + n)
        | none => detectIndentation? (max 1 (parent.elim 0 (· + 1))) lines
      let (block, rest) ← takeBlock? indentation lines
      let text := block.foldl (BlockText.push folds) ⟨[], false, 0, false⟩
      some (text.close h.chomping (!rest.isEmpty), List.intercalate ['\n'] rest)

end BatchTransfer.Yaml
