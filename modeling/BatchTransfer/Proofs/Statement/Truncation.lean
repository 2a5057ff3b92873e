import BatchTransfer.Proofs.Statement.Chunks
import BatchTransfer.Proofs.Statement.Completeness

/-!
# Statements that are cut off

A statement has four closing parentheses (`Grammar.Sentence.count_closing`), of which the last one
closes the options of the sink. Those of a beginning of a text are the first ones of the text
(`closings_prefix`): a cut may change the token that it falls into, but makes no parenthesis of it. So
a beginning that ends before the fourth parenthesis is no statement, which is the main theorem,
`rejects_truncated`.
-/

namespace BatchTransfer.Statement

open BatchTransfer.Text

/-! ### Closing parentheses of a statement -/

/-- Whether a lexeme is a closing parenthesis. -/
def Lexeme.isClosing : Lexeme → Bool
  | .rightParen => true
  | _ => false

namespace Grammar

variable {ls : List Lexeme} {v : OptionValue} {a b : ClauseTree}

theorem Value.count_closing (h : Value ls v) : ls.countP Lexeme.isClosing = 0 := by
  refine List.countP_eq_zero.mpr fun lexeme hmem hclosing => ?_
  have hvalue := h.isOfValue lexeme hmem
  cases lexeme with
  | rightParen => cases hvalue
  | _ => cases hclosing

theorem Entry.count_closing {e : String × OptionValue} (h : Entry ls e) :
    ls.countP Lexeme.isClosing = 0 := by
  cases h with
  | entry key hvalue =>
      have hkey : (Lexeme.word key).isClosing = false ∧ Lexeme.equals.isClosing = false :=
        ⟨rfl, rfl⟩
      simp [hvalue.count_closing, hkey]

theorem Entries.count_closing {es : List (String × OptionValue)} (h : Entries ls es) :
    ls.countP Lexeme.isClosing = 0 := by
  induction h with
  | one hentry => exact hentry.count_closing
  | more _ hlast ih =>
      have hcomma : Lexeme.comma.isClosing = false := rfl
      simp [ih, hlast.count_closing, hcomma]

/-- A clause has two closing parentheses, and ends with the second. -/
theorem Clause.count_closing {role : Role} (h : Clause role ls a) :
    ∃ ms, ls = ms ++ [.rightParen] ∧ ms.countP Lexeme.isClosing = 1 := by
  cases h with
  | clause hheading hoptions =>
      refine ⟨_, rfl, ?_⟩
      rw [List.countP_append]
      cases hheading
      cases hoptions with
      | none => rfl
      | some hentries =>
          rw [hentries.count_closing]
          rfl

/-- A statement has four closing parentheses, of which the last one ends the sink clause. -/
theorem Body.count_closing (h : Body ls a b) :
    ∃ ms, ls = ms ++ [.rightParen] ∧ ms.countP Lexeme.isClosing = 3 := by
  cases h with
  | @body w _ _ _ _ _ hsource hsink =>
      obtain ⟨ms, rfl, hms⟩ := hsource.count_closing
      obtain ⟨ns, rfl, hns⟩ := hsink.count_closing
      have hsigns : (Lexeme.word w).isClosing = false ∧ Lexeme.rightParen.isClosing = true :=
        ⟨rfl, rfl⟩
      refine ⟨.word w :: (ms ++ [.rightParen] ++ ns), by simp, ?_⟩
      simp [hms, hns, hsigns]

theorem Sentence.count_closing (h : Sentence ls a b) : ls.countP Lexeme.isClosing = 4 := by
  have hsigns : Lexeme.semicolon.isClosing = false ∧ Lexeme.rightParen.isClosing = true := ⟨rfl, rfl⟩
  cases h with
  | bare hbody =>
      obtain ⟨ms, rfl, hms⟩ := hbody.count_closing
      simp [hms, hsigns]
  | terminated hbody =>
      obtain ⟨ms, rfl, hms⟩ := hbody.count_closing
      simp [hms, hsigns]

end Grammar

/-! ### Closing parentheses of a text -/

/-- The closing parentheses among the tokens from a place on. -/
def closings (c : Cursor) : List Token := (scanFrom c).1.filter (·.lexeme.isClosing)

theorem scanLexeme_sign {c : Char} {lexeme : Lexeme} (h : signOf? c = some lexeme) (offset : Nat)
    (cs : List Char) : scanLexeme offset c cs = .ok (lexeme, ⟨offset + c.utf8Size, cs⟩) := by
  rw [scanLexeme, h]

/-- Only the character that is a closing parenthesis is read as one. -/
theorem signOf?_of_scanLexeme {offset : Nat} {c : Char} {cs : List Char} {lexeme : Lexeme}
    {next : Cursor} (h : scanLexeme offset c cs = .ok (lexeme, next))
    (hclosing : lexeme.isClosing = true) : signOf? c = some lexeme := by
  obtain hsign | hliteral | ⟨-, word, rfl, -⟩ := scanLexeme_cases h
  · exact hsign
  · cases lexeme with
    | rightParen => cases hliteral
    | _ => cases hclosing
  · cases hclosing

/-- A closing parenthesis is one character. -/
theorem Chunk.closing {c : Char} {chunk rest : List Char} {lexeme : Lexeme}
    (h : Chunk c chunk rest lexeme) (hclosing : lexeme.isClosing = true) :
    chunk = [] ∧ signOf? c = some lexeme := by
  have hscan := h 0 rest (.refl rest)
  have hsign := signOf?_of_scanLexeme hscan hclosing
  rw [scanLexeme_sign hsign] at hscan
  have hrest : chunk ++ rest = rest :=
    congrArg (fun scanned => scanned.2.rest) (Except.ok.inj hscan)
  exact ⟨List.append_left_eq_self.mp hrest, hsign⟩

/-- A sign is a token in front of any text. -/
theorem Chunk.sign {c : Char} {lexeme : Lexeme} (h : signOf? c = some lexeme) (rest : List Char) :
    Chunk c [] rest lexeme :=
  fun offset rest' _ => scanLexeme_sign h offset rest'

theorem eq_of_signOf? {c : Char} (h : signOf? c = some .rightParen) : c = ')' := by
  unfold signOf? at h
  repeat' split at h
  all_goals first | assumption | cases h

theorem closings_chunk {gap chunk rest rest' : List Char} {c : Char} {lexeme : Lexeme}
    (hgap : Gap gap) (hchunk : Chunk c chunk rest lexeme) (hrest : Alike rest rest')
    (offset : Nat) :
    let place := offset + byteLength gap
    let stop := place + byteLength (c :: chunk)
    closings ⟨offset, gap ++ c :: (chunk ++ rest')⟩ =
      [⟨lexeme, place, stop⟩].filter (·.lexeme.isClosing) ++ closings ⟨stop, rest'⟩ := by
  intro place stop
  rw [closings, scanFrom_chunk hgap hchunk hrest, ← List.singleton_append, List.filter_append]
  rfl

/-- The closing parentheses of a beginning of a text are the first ones of the text. -/
theorem closings_prefix (cs more : List Char) (offset : Nat) :
    closings ⟨offset, cs⟩ <+: closings ⟨offset, cs ++ more⟩ := by
  induction cs using scan_induction generalizing offset with
  | nothing cs ended hnothing =>
      rw [closings, (hnothing offset).1]
      exact List.nil_prefix
  | token gap c chunk rest lexeme hgap hchunk ih =>
      rw [List.append_assoc, List.cons_append, List.append_assoc,
        closings_chunk hgap hchunk (.refl rest)]
      cases rest with
      | nil =>
          have hend (place : Nat) : closings ⟨place, []⟩ = [] := by
            rw [closings, scanFrom_end rfl]
            rfl
          rw [hend, List.append_nil]
          -- The token that the text ends with may be the beginning of another one.
          cases hclosing : lexeme.isClosing with
          | false =>
              rw [List.filter_cons_of_neg (by simp [hclosing])]
              exact List.nil_prefix
          | true =>
              obtain ⟨rfl, hsign⟩ := hchunk.closing hclosing
              rw [closings_chunk hgap (.sign hsign _) (.refl _)]
              exact List.prefix_append _ _
      | cons d rest =>
          have hsame : Alike (d :: rest) (d :: rest ++ more) := .inr rfl
          rw [closings_chunk hgap hchunk hsame]
          exact (List.prefix_append_right_inj _).mpr (ih _)

/-- A beginning of a text has no closing parenthesis of the text that stands behind it. -/
theorem stop_le_of_mem_closings {cs : List Char} {offset : Nat} {token : Token}
    (h : token ∈ closings ⟨offset, cs⟩) :
    token.offset < token.stop ∧ token.stop ≤ offset + byteLength cs := by
  obtain ⟨before, c, chunk, rest, rfl, -, hoffset, hstop⟩ :=
    exists_chunk_of_mem (List.mem_filter.mp h).1
  have hsize := c.utf8Size_pos
  simp only [byteLength_append, byteLength_cons] at hstop ⊢
  omega

/-! ### Cuts -/

/-- The token closes the options of the sink in the statement that tokens begin with. -/
def ClosesSink (tokens : List Token) (closing : Token) : Prop :=
  ∃ before after a b, tokens = before ++ closing :: after ∧
    Grammar.Body ((before ++ [closing]).map Token.lexeme) a b

/-- The statement of a plan has a token that closes the options of its sink. -/
theorem exists_closesSink {text : String} {p : Plan} (h : parse text = .ok p) :
    ∃ closing, ClosesSink (scan text).1 closing := by
  obtain ⟨stop, a, b, -, hderives, -, -⟩ := derives_of_planOf (parse_eq_ok.mp h)
  have hbody {tokens : List Token} (hbody : Grammar.Body (tokens.map Token.lexeme) a b) :
      ∃ before closing, tokens = before ++ [closing] := by
    obtain ⟨ms, hms, -⟩ := hbody.count_closing
    obtain ⟨before, last, rfl, -, hlast⟩ := List.map_eq_append_iff.mp hms
    obtain ⟨closing, rfl, -⟩ := List.map_eq_singleton_iff.mp hlast
    exact ⟨before, closing, rfl⟩
  generalize hlexemes : (scan text).1.map Token.lexeme = ls at hderives
  cases hderives with
  | bare h =>
      subst hlexemes
      obtain ⟨before, closing, htokens⟩ := hbody h
      rw [htokens] at h
      exact ⟨closing, before, [], a, b, htokens, h⟩
  | terminated h =>
      obtain ⟨tokens, rest, htokens, rfl, -⟩ := List.map_eq_append_iff.mp hlexemes
      obtain ⟨before, closing, rfl⟩ := hbody h
      exact ⟨closing, before, rest, a, b, by rw [htokens, List.append_assoc]; rfl, h⟩

namespace ClosesSink

variable {tokens : List Token} {closing : Token}

/-- The token is the fourth closing parenthesis. -/
theorem exists_filter_eq (h : ClosesSink tokens closing) :
    ∃ before after, tokens.filter (·.lexeme.isClosing) = before ++ closing :: after ∧
      before.length = 3 ∧ closing.lexeme = .rightParen := by
  obtain ⟨before, after, a, b, rfl, hbody⟩ := h
  obtain ⟨ms, hms, hcount⟩ := hbody.count_closing
  rw [List.map_append] at hms
  obtain ⟨rfl, hlast⟩ := List.append_inj' hms rfl
  have hparen : closing.lexeme = .rightParen := (List.cons.inj hlast).1
  refine ⟨before.filter (·.lexeme.isClosing), after.filter (·.lexeme.isClosing), ?_, ?_, hparen⟩
  · rw [List.filter_append, List.filter_cons_of_pos (by rw [hparen]; rfl)]
  · rw [← hcount, List.countP_map, List.countP_eq_length_filter]
    rfl

/-- The token stands at the character that it is. -/
theorem exists_at {text : String} (h : ClosesSink (scan text).1 closing) :
    ∃ before after, text.toList = before ++ ')' :: after ∧ closing.offset = byteLength before := by
  obtain ⟨first, last, hfilter, -, hparen⟩ := h.exists_filter_eq
  have hmem : closing ∈ (scan text).1.filter (·.lexeme.isClosing) := by
    rw [hfilter]
    exact List.mem_append_right _ List.mem_cons_self
  obtain ⟨before, c, chunk, rest, htext, hchunk, hoffset, -⟩ :=
    exists_chunk_of_mem (List.mem_filter.mp hmem).1
  rw [hparen] at hchunk
  obtain ⟨rfl, hsign⟩ := hchunk.closing rfl
  rw [eq_of_signOf? hsign] at htext
  exact ⟨before, rest, htext, by rw [hoffset, Nat.zero_add]⟩

end ClosesSink

/-- A statement that is cut off in front of the closing parenthesis of its sink's options, wherever
that is, is refused: in a comment, a text or an object, within a word or a number, or between two
tokens. Every text that is accepted has such a parenthesis. -/
theorem rejects_truncated (text : String) (p : Plan) (hparse : parse text = .ok p) :
    (∃ closing, ClosesSink (scan text).1 closing) ∧
      ∀ closing, ClosesSink (scan text).1 closing →
        (∃ before after, text.toList = before ++ ')' :: after ∧
          closing.offset = byteLength before) ∧
        ∀ cut, cut <+: text.toList → byteLength cut ≤ closing.offset →
          ∃ e, parse (String.ofList cut) = .error e := by
  refine ⟨exists_closesSink hparse, fun closing hcloses => ⟨hcloses.exists_at, ?_⟩⟩
  intro cut hcut hshort
  cases hcutParse : parse (String.ofList cut) with
  | error e => exact ⟨e, rfl⟩
  | ok q =>
      obtain ⟨stop, a, b, -, hderives, -, -⟩ := derives_of_planOf (parse_eq_ok.mp hcutParse)
      have hscan : scan (String.ofList cut) = scanFrom ⟨0, cut⟩ := by
        rw [scan, Cursor.start, String.toList_ofList]
      have hcount := hderives.count_closing
      rw [List.countP_map, List.countP_eq_length_filter, hscan] at hcount
      obtain ⟨more, hmore⟩ := hcut
      have hprefix := closings_prefix cut more 0
      rw [hmore] at hprefix
      obtain ⟨others, hothers⟩ := hprefix
      obtain ⟨before, after, hfilter, hlength, -⟩ := hcloses.exists_filter_eq
      -- The four parentheses of the cut are the first four of the text.
      have hall : before ++ [closing] ++ after = closings ⟨0, cut⟩ ++ others := by
        rw [hothers, List.append_assoc]
        exact hfilter.symm
      have hfour : (before ++ [closing]).length = (closings ⟨0, cut⟩).length := by
        rw [List.length_append, hlength]
        exact hcount.symm
      have hmem : closing ∈ closings ⟨0, cut⟩ := by
        rw [← (List.append_inj hall hfour).1]
        exact List.mem_append_right _ (List.mem_singleton_self _)
      have hstop := stop_le_of_mem_closings hmem
      omega

/-- A statement with a parenthesis in the kind of its sink, and no options. -/
def smallStatement : String := "DATATUNNEL SOURCE('a') OPTIONS() SINK(')') OPTIONS()"

/-- No beginning of it that ends before its last parenthesis is a statement. -/
theorem rejects_truncated_smallStatement :
    ∃ p closing, parse smallStatement = .ok p ∧ ClosesSink (scan smallStatement).1 closing ∧
      ∀ cut, cut <+: smallStatement.toList → byteLength cut ≤ closing.offset →
        ∃ e, parse (String.ofList cut) = .error e := by
  have haccepted : (parse smallStatement).isOk = true := by decide +kernel
  cases hparse : parse smallStatement with
  | error e =>
      rw [hparse] at haccepted
      cases haccepted
  | ok p =>
      obtain ⟨⟨closing, hcloses⟩, hrejects⟩ := rejects_truncated smallStatement p hparse
      exact ⟨p, closing, rfl, hcloses, (hrejects closing hcloses).2⟩

end BatchTransfer.Statement
