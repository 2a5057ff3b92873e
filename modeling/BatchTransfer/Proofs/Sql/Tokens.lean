import BatchTransfer.Sql.Quoted
import BatchTransfer.Text.Blank

/-!
# Reading SQL

The tokens of a text by the lexical rules of SQL: words, symbols, and what stands between two
marks, where a doubled mark stands for one and a backslash is a character like any other. Blanks and
comments separate tokens. `scan_quoted` says that what `quoted` writes is read as one token,
whatever the characters are and whatever follows, as long as that does not begin with the same mark,
and `run_intercalate` says the same of many such texts with separators between them.
-/

namespace BatchTransfer.Sql

open BatchTransfer.Text

/-- A token. Of what stands between marks, the characters that are meant are kept. -/
inductive Token where
  | word (cs : List Char)
  | quoted (mark : Char) (cs : List Char)
  | symbol (c : Char)
  deriving DecidableEq, Repr

def Token.keyword (name : String) : Token := .word name.toList

/-- What the reader of a text is in the middle of. Behind a mark that may end a token, it is not
known yet whether the mark is doubled. -/
inductive Mode where
  | between
  | word (read : List Char)
  | quotes (mark : Char) (read : List Char)
  | closing (mark : Char) (read : List Char)
  | dash
  | slash
  | lineComment
  | blockComment (depth : Nat) (last : Char)
  deriving DecidableEq, Repr

/-- A character of which keywords, bare names and numbers consist. -/
def isWordChar (c : Char) : Bool := c.isAlphanum || c == '_' || c == '$'

/-- A block comment after one more character. Block comments stand inside of each other. -/
def Mode.afterComment (depth : Nat) (last c : Char) : Mode :=
  if last == '*' && c == '/' then if depth = 0 then .between else .blockComment (depth - 1) ' '
  else if last == '/' && c == '*' then .blockComment (depth + 1) ' '
  else .blockComment depth c

section Scan

variable (isMark : Char → Bool)

/-- The first character behind a token. -/
def enter (c : Char) : List Token × Mode :=
  if isMark c then ([], .quotes c [])
  else if isWordChar c then ([], .word [c])
  else if c == '-' then ([], .dash)
  else if c == '/' then ([], .slash)
  else if isBlank c then ([], .between)
  else ([.symbol c], .between)

/-- A token that has ended before a character. -/
def leave (token : Token) (c : Char) : List Token × Mode :=
  (token :: (enter isMark c).1, (enter isMark c).2)

/-- Reads one character: the tokens that have ended, and what the reader is then in. -/
def step : Mode → Char → List Token × Mode
  | .between, c => enter isMark c
  | .word read, c =>
      if isWordChar c then ([], .word (read ++ [c])) else leave isMark (.word read) c
  | .quotes mark read, c =>
      ([], if c == mark then .closing mark read else .quotes mark (read ++ [c]))
  | .closing mark read, c =>
      if c == mark then ([], .quotes mark (read ++ [c])) else leave isMark (.quoted mark read) c
  | .dash, c => if c == '-' then ([], .lineComment) else leave isMark (.symbol '-') c
  | .slash, c => if c == '*' then ([], .blockComment 0 ' ') else leave isMark (.symbol '/') c
  | .lineComment, c => ([], if c == '\n' then .between else .lineComment)
  | .blockComment depth last, c => ([], .afterComment depth last c)

/-- The end of a text, which must not stand between marks or in a block comment. -/
def Mode.finish? : Mode → Option (List Token)
  | between => some []
  | word read => some [.word read]
  | quotes .. => none
  | closing mark read => some [.quoted mark read]
  | dash => some [.symbol '-']
  | slash => some [.symbol '/']
  | lineComment => some []
  | blockComment .. => none

/-- Reads characters to the end. -/
def scan (mode : Mode) : List Char → Option (List Token)
  | [] => mode.finish?
  | c :: cs => (scan (step isMark mode c).2 cs).map ((step isMark mode c).1 ++ ·)

/-- The tokens of a text, in which the given characters are marks. -/
def tokens? (text : String) : Option (List Token) := scan isMark .between text.toList

/-- Reads characters that others follow: the tokens that have ended, and what the reader is in the
middle of then. -/
def run (mode : Mode) : List Char → List Token × Mode
  | [] => ([], mode)
  | c :: cs =>
      ((step isMark mode c).1 ++ (run (step isMark mode c).2 cs).1,
        (run (step isMark mode c).2 cs).2)

end Scan

/-! ### What is read of what is written -/

variable {isMark : Char → Bool} {mark : Char} {read cs rest : List Char}

/-- What follows is read on from where the characters before it have led. -/
theorem run_append {mode next : Mode} {tokens : List Token}
    (h : run isMark mode cs = (tokens, next)) :
    run isMark mode (cs ++ rest) = (run isMark next rest).map (tokens ++ ·) id := by
  induction cs generalizing mode tokens with
  | nil =>
      cases h
      rfl
  | cons c cs ih =>
      cases h
      rw [List.cons_append, run, ih rfl]
      simp [Prod.map]

/-- A text is read to its end by reading its characters and ending where they have led. -/
theorem scan_eq_run (mode : Mode) (cs : List Char) :
    scan isMark mode cs = (run isMark mode cs).2.finish?.map ((run isMark mode cs).1 ++ ·) := by
  induction cs generalizing mode with
  | nil => exact Option.map_id'.symm
  | cons c cs ih =>
      rw [scan, ih, Option.map_map]
      simp [run, Function.comp_def]

theorem scan_append {mode next : Mode} {tokens : List Token}
    (h : run isMark mode cs = (tokens, next)) :
    scan isMark mode (cs ++ rest) = (scan isMark next rest).map (tokens ++ ·) := by
  rw [scan_eq_run, run_append h, scan_eq_run, Option.map_map]
  simp [Function.comp_def]

/-- A token ends with the text or before what begins something else. -/
theorem scan_leave {mode : Mode} {token : Token} (hend : mode.finish? = some [token])
    (hstep : ∀ c ∈ rest.head?, step isMark mode c = leave isMark token c) :
    scan isMark mode rest = (scan isMark .between rest).map (token :: ·) := by
  cases rest with
  | nil =>
      rw [scan, hend]
      rfl
  | cons c cs =>
      rw [scan, hstep c rfl, scan, Option.map_map]
      rfl

/-- Behind marks, what is no such mark ends the token. -/
theorem step_closing {c : Char} (h : c ≠ mark) :
    step isMark (.closing mark read) c = leave isMark (.quoted mark read) c := by
  simp [step, h]

/-- Between marks, doubled marks are read as the marks they stand for. -/
theorem run_doubled (cs : List Char) :
    run isMark (.quotes mark read) (doubled mark cs) = ([], .quotes mark (read ++ cs)) := by
  induction cs generalizing read with
  | nil => rw [List.append_nil]; rfl
  | cons c cs ih =>
      have hcons : doubled mark (c :: cs) = (if c == mark then [mark, mark] else [c]) ++
          doubled mark cs := rfl
      have hfirst : run isMark (.quotes mark read) (if c == mark then [mark, mark] else [c]) =
          ([], .quotes mark (read ++ [c])) := by
        cases hc : c == mark with
        | true =>
            obtain rfl := eq_of_beq hc
            simp [run, step]
        | false => simp [run, step, hc]
      rw [hcons, run_append hfirst, ih, List.append_assoc]
      rfl

/-- Characters between marks are read up to the mark at the end. -/
theorem run_quoted (hmark : isMark mark = true) :
    run isMark .between (quoted mark cs) = ([], .closing mark cs) := by
  have hopen : run isMark .between [mark] = ([], .quotes mark []) := by
    simp [run, step, enter, hmark]
  have hclose : run isMark (.quotes mark cs) [mark] = ([], .closing mark cs) := by
    simp [run, step]
  change run isMark .between ([mark] ++ (doubled mark cs ++ [mark])) = _
  rw [run_append hopen, run_append (run_doubled cs), List.nil_append, hclose]
  rfl

/-- Characters between marks are read as one token, unless the same mark follows. -/
theorem scan_quoted (hmark : isMark mark = true) (hrest : rest.head? ≠ some mark) :
    scan isMark .between (quoted mark cs ++ rest) =
      (scan isMark .between rest).map (.quoted mark cs :: ·) := by
  rw [scan_append (run_quoted hmark)]
  refine Option.map_id'.trans (scan_leave rfl fun c hc => ?_)
  exact step_closing fun h => hrest (h ▸ hc)

/-- Texts between marks, with a separator between them that is one symbol and with something else
behind them, are read as one token each. -/
theorem run_intercalate {separator : List Char} {symbol c : Char} (hmark : isMark mark = true)
    (hsymbol : run isMark .between separator = ([.symbol symbol], .between))
    (hseparator : separator.head? ≠ some mark) (hc : c ≠ mark) (texts : List (List Char)) :
    run isMark .between (separator.intercalate (texts.map (quoted mark)) ++ c :: rest) =
      (run isMark .between (c :: rest)).map
        ((texts.map (Token.quoted mark)).intersperse (.symbol symbol) ++ ·) id := by
  have hquoted {cs : List Char} {d : Char} {ds : List Char} (hd : d ≠ mark) :
      run isMark .between (quoted mark cs ++ d :: ds) =
        (run isMark .between (d :: ds)).map (.quoted mark cs :: ·) id := by
    rw [run_append (run_quoted hmark), run, step_closing hd]
    rfl
  induction texts with
  | nil => rfl
  | cons cs texts ih =>
      cases texts with
      | nil => simpa [List.intercalate] using hquoted hc
      | cons other texts =>
          obtain ⟨d, ds, rfl⟩ : ∃ d ds, separator = d :: ds := by
            cases separator with
            | nil => cases hsymbol
            | cons d ds => exact ⟨d, ds, rfl⟩
          have hd : d ≠ mark := fun h => hseparator (congrArg some h)
          rw [List.map_cons, List.intercalate_cons_of_ne_nil (by simp), List.append_assoc,
            List.append_assoc, List.cons_append, hquoted hd, ← List.cons_append,
            run_append hsymbol, ih]
          rfl

/-- A blank that leads out of everything ends what a text could end with. -/
theorem finish?_of_step_blank {mode : Mode} {tokens : List Token} (hblank : isMark ' ' = false)
    (h : step isMark mode ' ' = (tokens, .between)) : mode.finish? = some tokens := by
  have henter : enter isMark ' ' = ([], .between) := by
    simp [enter, hblank, isWordChar, isBlank]
  have hleave (token : Token) : leave isMark token ' ' = ([token], .between) := by
    rw [leave, henter]
  cases mode with
  | between =>
      rw [step, henter] at h
      cases h
      rfl
  | word read =>
      have hstep : step isMark (.word read) ' ' = ([.word read], .between) := hleave _
      rw [hstep] at h
      cases h
      rfl
  | quotes mark read =>
      rw [step] at h
      split at h <;> cases h
  | closing mark read =>
      rw [step] at h
      split at h
      · cases h
      · rw [hleave] at h
        cases h
        rfl
  | dash | slash =>
      have hstep := (hleave _).symm.trans h
      cases hstep
      rfl
  | lineComment => cases h
  | blockComment depth last =>
      simp [step, Mode.afterComment] at h

/-- What is read of a text up to a blank behind it is read of the text. -/
theorem scan_of_run_blank {tokens : List Token} (hblank : isMark ' ' = false)
    (h : run isMark .between (cs ++ [' ']) = (tokens, .between)) :
    scan isMark .between cs = some tokens := by
  rw [run_append rfl] at h
  obtain ⟨htokens, hmode⟩ := Prod.mk.inj h
  rw [scan_eq_run, finish?_of_step_blank hblank (Prod.ext rfl hmode), ← htokens]
  simp [run]

/-- A comment ends with its line, and a quote in it is no mark. -/
example : tokens? (· == '\'') "a.b -- it's\n 'it''s'" =
    some [.word ['a'], .symbol '.', .word ['b'], .quoted '\'' ['i', 't', '\'', 's']] := by decide

end BatchTransfer.Sql
