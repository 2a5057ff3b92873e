import BatchTransfer.Json.Reader
import BatchTransfer.Statement.Token
import BatchTransfer.Text.Blank
import BatchTransfer.Text.Position

/-!
# From characters to tokens

Blanks and comments, which begin with two minus signs and end with the line, separate tokens and
are passed over. `scan` reads all tokens of a text up to its end or to the first characters that
make no token; each scanner returns what it has not read, which is shorter than what it was given
(`length_le_of_scanLexeme`).
-/

namespace BatchTransfer.Statement

open BatchTransfer.Text BatchTransfer.Decimal

/-- A place in a text: the byte offset and the characters from there on. -/
structure Cursor where
  offset : Nat
  rest : List Char
  deriving DecidableEq, Repr

namespace Cursor

/-- The start of a text. -/
def start (text : String) : Cursor := ⟨0, text.toList⟩

mutual

/-- The place of the next token: blanks and comments are passed over. -/
def skipBlanks (offset : Nat) : List Char → Cursor
  | [] => ⟨offset, []⟩
  | [c] => if isBlank c then ⟨offset + c.utf8Size, []⟩ else ⟨offset, [c]⟩
  | c :: d :: cs =>
      if isBlank c then skipBlanks (offset + c.utf8Size) (d :: cs)
      else if c = '-' ∧ d = '-' then skipComment (offset + c.utf8Size + d.utf8Size) cs
      else ⟨offset, c :: d :: cs⟩

/-- The place of the next token behind the start of a comment. -/
def skipComment (offset : Nat) : List Char → Cursor
  | [] => ⟨offset, []⟩
  | c :: cs =>
      if c = '\n' then skipBlanks (offset + c.utf8Size) cs
      else skipComment (offset + c.utf8Size) cs

end

/-- Passes over blanks and comments. -/
def skip (c : Cursor) : Cursor := skipBlanks c.offset c.rest

/-- The characters as long as they satisfy `p`, and the place behind them. -/
def span (c : Cursor) (p : Char → Bool) : List Char × Cursor :=
  let read := c.rest.takeWhile p
  (read, ⟨c.offset + byteLength read, c.rest.dropWhile p⟩)

end Cursor

/-- A character that may begin a word. -/
def isWordStart (c : Char) : Bool := isLetter c || c == '_'

/-- A character that may continue a word. -/
def isWordChar (c : Char) : Bool := isLetter c || isDigit c || c == '_' || c == '.'

/-- The character that a backslash and this one stand for in a text. -/
def escaped? (c : Char) : Option Char :=
  if c == 'n' then some '\n'
  else if c == 'r' then some '\r'
  else if c == 't' then some '\t'
  else if c == '\\' || c == '"' || c == '\'' then some c
  else none

/-- Reads a text behind its opening quote, which stood at byte `start`. `read` holds the
characters already read, the last one first. -/
def scanText (start : Nat) (quote : Char) (offset : Nat) (read : List Char) :
    List Char → Except LexicalError (String × Cursor)
  | [] => .error ⟨.unterminatedText, start⟩
  | [c] =>
      if c = quote then .ok (String.ofList read.reverse, ⟨offset + c.utf8Size, []⟩)
      else .error ⟨.unterminatedText, start⟩
  | c :: d :: cs =>
      if c = quote then .ok (String.ofList read.reverse, ⟨offset + c.utf8Size, d :: cs⟩)
      else if c = '\\' then
        match escaped? d with
        | some e => scanText start quote (offset + c.utf8Size + d.utf8Size) (e :: read) cs
        | none => .error ⟨.unknownEscape d, offset⟩
      else scanText start quote (offset + c.utf8Size) (c :: read) (d :: cs)

/-- The digits behind a point, if there is a point, with the place behind them. -/
def scanFraction (c : Cursor) : Except LexicalError (Option (List Char) × Cursor) :=
  match c.rest with
  | '.' :: rest =>
      let (digits, next) := Cursor.span ⟨c.offset + 1, rest⟩ isDigit
      if digits.isEmpty then .error ⟨.digitsAfterPoint, next.offset⟩
      else .ok (some ('.' :: digits), next)
  | _ => .ok (none, c)

/-- The sign of an exponent, if there is one, with the place behind it. -/
def scanExponentSign (c : Cursor) : List Char × Cursor :=
  match c.rest with
  | '+' :: rest => (['+'], ⟨c.offset + 1, rest⟩)
  | '-' :: rest => (['-'], ⟨c.offset + 1, rest⟩)
  | _ => ([], c)

/-- The exponent of a number, if it has one, with the place behind it. -/
def scanExponent (c : Cursor) : Except LexicalError (Option (List Char) × Cursor) :=
  match c.rest with
  | e :: rest =>
      if e == 'e' || e == 'E' then
        let (sign, behindSign) := scanExponentSign ⟨c.offset + 1, rest⟩
        let (digits, next) := behindSign.span isDigit
        if digits.isEmpty then .error ⟨.digitsInExponent, next.offset⟩
        else .ok (some (e :: (sign ++ digits)), next)
      else .ok (none, c)
  | [] => .ok (none, c)

/-- The value of a number: whole where it has neither fraction nor exponent and fits 64 bits, and
otherwise the nearest double, which must be finite. -/
def numberLexeme (start : Nat) (literal : List Char) (isWhole : Bool) :
    Except LexicalError Lexeme :=
  match (if isWhole then readInteger? signed64 literal else none) with
  | some i => .ok (.integer i)
  | none =>
      match readFloat? literal with
      | some x => .ok (.float x)
      | none => .error ⟨.invalidNumber (String.ofList literal), start⟩

/-- Reads the digits of a number behind its sign, which stood at byte `start`. -/
def scanNumber (start : Nat) (sign : List Char) (c : Cursor) :
    Except LexicalError (Lexeme × Cursor) :=
  let (whole, afterWhole) := c.span isDigit
  match scanFraction afterWhole with
  | .error e => .error e
  | .ok (fraction, afterFraction) =>
      match scanExponent afterFraction with
      | .error e => .error e
      | .ok (exponent, next) =>
          let literal := sign ++ whole ++ fraction.getD [] ++ exponent.getD []
          match numberLexeme start literal (fraction.isNone && exponent.isNone) with
          | .error e => .error e
          | .ok lexeme => .ok (lexeme, next)

/-- Where the search for the end of a JSON object stands: outside strings, or inside one, where the
next character may be escaped. -/
inductive BraceMode where
  | outside
  | inString
  | afterBackslash
  deriving DecidableEq, Repr

/-- The mode behind a character. -/
def BraceMode.next : BraceMode → Char → BraceMode
  | .outside, c => if c = '"' then .inString else .outside
  | .inString, c => if c = '\\' then .afterBackslash else if c = '"' then .outside else .inString
  | .afterBackslash, _ => .inString

/-- The number of open braces and brackets behind a character. -/
def depthAfter (mode : BraceMode) (depth : Nat) (c : Char) : Nat :=
  if mode = .outside then
    if c = '{' ∨ c = '[' then depth + 1 else if c = '}' ∨ c = ']' then depth - 1 else depth
  else depth

/-- Finds the end of a JSON object: the place where as many braces and brackets outside strings
have closed as have opened. `read` holds the characters already passed, the last one first. -/
def scanBraces (mode : BraceMode) (depth offset : Nat) (read : List Char) :
    List Char → Option (List Char × Cursor)
  | [] => none
  | c :: cs =>
      if mode = .outside ∧ (c = '}' ∨ c = ']') ∧ depthAfter mode depth c = 0 then
        some ((c :: read).reverse, ⟨offset + c.utf8Size, cs⟩)
      else scanBraces (mode.next c) (depthAfter mode depth c) (offset + c.utf8Size) (c :: read) cs

/-- Reads a JSON object at a place that begins with its brace. -/
def scanObject (c : Cursor) : Except LexicalError (Lexeme × Cursor) :=
  match scanBraces .outside 0 c.offset [] c.rest with
  | none => .error ⟨.unterminatedObject, c.offset⟩
  | some (slice, next) =>
      match (Json.readChars? slice).bind Record.ofJson? with
      | some record => .ok (.object record, next)
      | none => .error ⟨.invalidObject, c.offset⟩

/-- The sign that a character is. -/
def signOf? (c : Char) : Option Lexeme :=
  if c = '(' then some .leftParen
  else if c = ')' then some .rightParen
  else if c = '[' then some .leftBracket
  else if c = ']' then some .rightBracket
  else if c = ',' then some .comma
  else if c = '=' then some .equals
  else if c = ';' then some .semicolon
  else none

/-- Whether the characters begin with a digit. -/
def startsWithDigit : List Char → Bool
  | c :: _ => isDigit c
  | [] => false

/-- Reads the token that begins with the character `c` at byte `offset`, before the characters
`cs`. -/
def scanLexeme (offset : Nat) (c : Char) (cs : List Char) :
    Except LexicalError (Lexeme × Cursor) :=
  match signOf? c with
  | some sign => .ok (sign, ⟨offset + c.utf8Size, cs⟩)
  | none =>
      if c = '"' ∨ c = '\'' then
        (scanText offset c (offset + c.utf8Size) [] cs).map fun (value, next) => (.quoted value, next)
      else if c = '{' then scanObject ⟨offset, c :: cs⟩
      else if isDigit c then scanNumber offset [] ⟨offset, c :: cs⟩
      else if c = '-' ∧ startsWithDigit cs then
        scanNumber offset [c] ⟨offset + c.utf8Size, cs⟩
      else if isWordStart c then
        let (word, next) := Cursor.span ⟨offset, c :: cs⟩ isWordChar
        .ok (.word (String.ofList word), next)
      else .error ⟨.unexpectedCharacter c, offset⟩

/-! ### Scanners make progress -/

theorem Cursor.length_span_le (c : Cursor) (p : Char → Bool) :
    (c.span p).2.rest.length ≤ c.rest.length :=
  (List.dropWhile_suffix p).length_le

theorem length_le_of_scanText {start offset : Nat} {quote : Char} {read cs : List Char}
    {value : String} {next : Cursor}
    (h : scanText start quote offset read cs = .ok (value, next)) :
    next.rest.length ≤ cs.length := by
  fun_induction scanText start quote offset read cs <;> simp_all <;> grind

theorem length_le_of_scanFraction {c next : Cursor} {digits : Option (List Char)}
    (h : scanFraction c = .ok (digits, next)) : next.rest.length ≤ c.rest.length := by
  unfold scanFraction at h
  split at h
  · rename_i rest hrest
    have := Cursor.length_span_le ⟨c.offset + 1, rest⟩ isDigit
    grind
  · grind

theorem length_scanExponentSign_le (c : Cursor) :
    (scanExponentSign c).2.rest.length ≤ c.rest.length := by
  unfold scanExponentSign
  split <;> simp_all

theorem length_le_of_scanExponent {c next : Cursor} {digits : Option (List Char)}
    (h : scanExponent c = .ok (digits, next)) : next.rest.length ≤ c.rest.length := by
  unfold scanExponent at h
  split at h
  · rename_i e rest hrest
    have sign := length_scanExponentSign_le ⟨c.offset + 1, rest⟩
    have span := Cursor.length_span_le (scanExponentSign ⟨c.offset + 1, rest⟩).2 isDigit
    grind
  · grind

theorem length_le_of_scanNumber {start : Nat} {sign : List Char} {c next : Cursor}
    {lexeme : Lexeme} (h : scanNumber start sign c = .ok (lexeme, next)) :
    next.rest.length ≤ (c.rest.dropWhile isDigit).length := by
  unfold scanNumber at h
  simp only [Cursor.span] at h
  split at h
  · simp at h
  · rename_i fraction afterFraction hf
    split at h
    · simp at h
    · rename_i exponent afterExponent he
      have := length_le_of_scanFraction hf
      have := length_le_of_scanExponent he
      grind

theorem length_lt_of_scanBraces {mode : BraceMode} {depth offset : Nat} {read cs slice : List Char}
    {next : Cursor} (h : scanBraces mode depth offset read cs = some (slice, next)) :
    next.rest.length < cs.length := by
  fun_induction scanBraces mode depth offset read cs <;> simp_all <;> grind

/-- A scanner that reads a token leaves no more than what stood behind its first character. -/
theorem length_le_of_scanLexeme {offset : Nat} {c : Char} {cs : List Char} {lexeme : Lexeme}
    {next : Cursor} (h : scanLexeme offset c cs = .ok (lexeme, next)) :
    next.rest.length ≤ cs.length := by
  have digits : ∀ l : List Char, (l.dropWhile isDigit).length ≤ l.length := fun l =>
    (List.dropWhile_suffix isDigit).length_le
  unfold scanLexeme at h
  split at h
  · grind
  · split at h
    · cases ht : scanText offset c (offset + c.utf8Size) [] cs with
      | error e => simp [ht, Except.map] at h
      | ok r =>
        obtain ⟨value, next⟩ := r
        have := length_le_of_scanText ht
        simp only [ht, Except.map] at h
        grind
    · split at h
      · unfold scanObject at h
        split at h
        · simp at h
        · rename_i slice after hs
          have := length_lt_of_scanBraces hs
          grind
      · split at h
        · rename_i hd
          have bound := length_le_of_scanNumber h
          simp only [List.dropWhile_cons, hd, ↓reduceIte] at bound
          exact Nat.le_trans bound (digits cs)
        · split at h
          · exact Nat.le_trans (length_le_of_scanNumber h) (digits cs)
          · split at h
            · rename_i hw
              have hc : isWordChar c = true := by
                simp only [isWordStart, Bool.or_eq_true] at hw
                simp only [isWordChar, Bool.or_eq_true]
                grind
              have := (List.dropWhile_suffix isWordChar (l := cs)).length_le
              simp only [Cursor.span, List.dropWhile_cons, hc] at h
              grind
            · simp at h

mutual

theorem Cursor.length_skipBlanks_le (offset : Nat) (cs : List Char) :
    (Cursor.skipBlanks offset cs).rest.length ≤ cs.length := by
  match cs with
  | [] => simp [Cursor.skipBlanks]
  | [c] => simp only [Cursor.skipBlanks]; split <;> simp
  | c :: d :: cs =>
    have := Cursor.length_skipBlanks_le (offset + c.utf8Size) (d :: cs)
    have := Cursor.length_skipComment_le (offset + c.utf8Size + d.utf8Size) cs
    simp only [Cursor.skipBlanks]
    split
    · simp_all; omega
    · split
      · simp_all; omega
      · simp

theorem Cursor.length_skipComment_le (offset : Nat) (cs : List Char) :
    (Cursor.skipComment offset cs).rest.length ≤ cs.length := by
  match cs with
  | [] => simp [Cursor.skipComment]
  | c :: cs =>
    have := Cursor.length_skipBlanks_le (offset + c.utf8Size) cs
    have := Cursor.length_skipComment_le (offset + c.utf8Size) cs
    simp only [Cursor.skipComment]
    split <;> simp_all <;> omega

end

/-! ### All tokens of a text -/

/-- What stands behind the last token: the end of the text at a byte offset, or characters that
make no token. -/
abbrev Ending := Except LexicalError Nat

/-- The tokens from a place on, and what stands behind them. -/
def scanFrom (c : Cursor) : List Token × Ending :=
  match _h : c.skip.rest with
  | [] => ([], .ok c.skip.offset)
  | first :: rest =>
      match _hs : scanLexeme c.skip.offset first rest with
      | .error e => ([], .error e)
      | .ok (lexeme, next) =>
          let (tokens, ending) := scanFrom next
          (⟨lexeme, c.skip.offset, next.offset⟩ :: tokens, ending)
termination_by c.rest.length
decreasing_by
  have token := length_le_of_scanLexeme _hs
  have blanks : c.skip.rest.length ≤ c.rest.length :=
    Cursor.length_skipBlanks_le c.offset c.rest
  rw [_h, List.length_cons] at blanks
  omega

/-- All tokens of a text, and what stands behind them. -/
def scan (text : String) : List Token × Ending :=
  scanFrom (Cursor.start text)

end BatchTransfer.Statement
