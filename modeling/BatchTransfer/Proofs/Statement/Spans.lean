import BatchTransfer.Proofs.Statement.Boundaries
import BatchTransfer.Statement.Parser

/-!
# Tokens and what stands between them

`Cursor.nextToken` reads one token, as the parser asks for it. Each call passes over blanks and
comments and goes on to the end of a token, which its characters make by themselves too
(`Cursor.Advances`). So the tokens of a text are disjoint and in order and only blanks and comments
stand between them (`Covers`), and a parser that asks for one token at a time ends
(`covers_text`).
-/

namespace BatchTransfer.Statement

open BatchTransfer.Text

/-! ### One call -/

/-- Reads the next token and gives the place behind it. At the end of the text there is none. -/
def Cursor.nextToken (c : Cursor) : Except LexicalError (Option Token × Cursor) :=
  match c.skip.rest with
  | [] => .ok (none, c.skip)
  | first :: rest =>
      match scanLexeme c.skip.offset first rest with
      | .error e => .error e
      | .ok (lexeme, next) => .ok (some ⟨lexeme, c.skip.offset, next.offset⟩, next)

/-- From the place `c` on, blanks and comments `gap` stand in front of the characters `span` of a
token, and `next` is the place behind them. -/
structure Cursor.Advances (c : Cursor) (gap span : List Char) (token : Token) (next : Cursor) :
    Prop where
  rest_eq : c.rest = gap ++ (span ++ next.rest)
  gap_trivia : Trivia gap
  span_ne_nil : span ≠ []
  offset_eq : token.offset = c.offset + byteLength gap
  stop_eq : token.stop = token.offset + byteLength span
  next_eq : next.offset = token.stop
  scan_span : scan (String.ofList span) =
    ([⟨token.lexeme, 0, byteLength span⟩], .ok (byteLength span))

section Calls

variable {c next : Cursor} {token : Token} {gap span : List Char} {e : LexicalError}

/-- What a call passes over is at the place that skipping gives. -/
theorem exists_skip (c : Cursor) :
    ∃ gap, c.rest = gap ++ c.skip.rest ∧ c.skip.offset = c.offset + byteLength gap ∧
      PassedOver gap c.skip.rest := by
  obtain ⟨gap, hrest, hgap⟩ := exists_passedOver c.offset c.rest
  obtain ⟨passed, hpassed, hoffset⟩ := c.goesTo_skip
  obtain rfl : passed = gap := List.append_cancel_right (hpassed.symm.trans hrest)
  exact ⟨passed, hrest, hoffset, hgap⟩

/-- The characters of a token make the token by themselves. -/
theorem Chunk.scan_eq {first : Char} {chunk rest : List Char} {lexeme : Lexeme}
    (h : Chunk first chunk rest lexeme) :
    scan (String.ofList (first :: chunk)) =
      ([⟨lexeme, 0, byteLength (first :: chunk)⟩], .ok (byteLength (first :: chunk))) := by
  have hnone : Alike rest [] := .inl nofun
  have hfirst := scanFrom_chunk .nil h hnone 0
  rw [List.nil_append, List.append_nil] at hfirst
  rw [scan, Cursor.start, String.toList_ofList, hfirst, scanFrom_end rfl]
  simp [Cursor.skip, Cursor.skipBlanks]

/-- A call that gives a token goes on to the end of the token. -/
theorem exists_advances (h : c.nextToken = .ok (some token, next)) :
    ∃ gap span, c.Advances gap span token next := by
  obtain ⟨gap, hrest, hoffset, hgap⟩ := exists_skip c
  unfold Cursor.nextToken at h
  split at h
  · cases h
  rename_i first rest hskip
  rw [hskip] at hrest hgap
  split at h
  · cases h
  · rename_i lexeme place hscan
    cases h
    obtain ⟨chunk, rfl, hchunk⟩ := exists_chunk hscan
    have hplace := Except.ok.inj (hscan.symm.trans (hchunk _ next.rest (.refl _)))
    have hstop := congrArg Cursor.offset (Prod.mk.inj hplace).2
    exact ⟨gap, first :: chunk, hrest, hgap.trivia, List.cons_ne_nil _ _, hoffset, hstop, rfl,
      hchunk.scan_eq⟩

/-- A call that gives no token stands at the end of the text, behind blanks and comments. -/
theorem trivia_of_end (h : c.nextToken = .ok (none, next)) :
    next = ⟨c.offset + byteLength c.rest, []⟩ ∧ Trivia (c.rest ++ ['\n']) := by
  obtain ⟨gap, hrest, hoffset, hgap⟩ := exists_skip c
  unfold Cursor.nextToken at h
  split at h
  · rename_i hskip
    cases h
    rw [hskip, List.append_nil] at hrest
    refine ⟨?_, hrest ▸ hgap.line⟩
    rw [hrest, ← hoffset, ← hskip]
  · split at h <;> cases h

/-- A call that fails stands, behind blanks and comments, at characters that make no token. -/
theorem exists_of_error (h : c.nextToken = .error e) :
    ∃ gap first rest, c.rest = gap ++ first :: rest ∧ Trivia gap ∧
      scanLexeme (c.offset + byteLength gap) first rest = .error e := by
  obtain ⟨gap, hrest, hoffset, hgap⟩ := exists_skip c
  unfold Cursor.nextToken at h
  split at h
  · cases h
  rename_i first rest hskip
  rw [hskip] at hrest hgap
  split at h
  · rename_i hscan
    cases h
    exact ⟨gap, first, rest, hrest, hgap.trivia, hoffset ▸ hscan⟩
  · cases h

end Calls

namespace Cursor.Advances

variable {c next : Cursor} {gap span : List Char} {token : Token}

theorem goesTo (h : c.Advances gap span token next) : c.GoesTo next := by
  refine ⟨gap ++ span, by rw [h.rest_eq, List.append_assoc], ?_⟩
  rw [h.next_eq, h.stop_eq, h.offset_eq, byteLength_append, Nat.add_assoc]

theorem offset_lt (h : c.Advances gap span token next) : token.offset < token.stop := by
  have hbytes : byteLength span ≠ 0 := mt byteLength_eq_zero.mp h.span_ne_nil
  rw [h.stop_eq]
  omega

theorem length_lt (h : c.Advances gap span token next) : next.rest.length < c.rest.length := by
  have := List.length_pos_iff.mpr h.span_ne_nil
  rw [h.rest_eq, List.length_append, List.length_append]
  omega

end Cursor.Advances

/-! ### One call after another -/

/-- Calls from the place on give the tokens, and then the end of the text or an error. -/
inductive Scans : Cursor → List Token → Ending → Prop where
  | ended {c next : Cursor} (h : c.nextToken = .ok (none, next)) : Scans c [] (.ok next.offset)
  | refused {c : Cursor} {e : LexicalError} (h : c.nextToken = .error e) : Scans c [] (.error e)
  | token {c next : Cursor} {token : Token} {tokens : List Token} {ending : Ending}
      (h : c.nextToken = .ok (some token, next)) (hnext : Scans next tokens ending) :
      Scans c (token :: tokens) ending

/-- From the place on, the tokens stand between blanks and comments. Behind them the text ends, where
a last comment may lack the end of its line, or characters follow that make no token. -/
inductive Covers : Cursor → List Token → Ending → Prop where
  | ended {c : Cursor} (h : Trivia (c.rest ++ ['\n'])) :
      Covers c [] (.ok (c.offset + byteLength c.rest))
  | refused {c : Cursor} {gap rest : List Char} {first : Char} {e : LexicalError}
      (hrest : c.rest = gap ++ first :: rest) (hgap : Trivia gap)
      (h : scanLexeme (c.offset + byteLength gap) first rest = .error e) : Covers c [] (.error e)
  | token {c next : Cursor} {gap span : List Char} {token : Token} {tokens : List Token}
      {ending : Ending} (h : c.Advances gap span token next)
      (hnext : Covers next tokens ending) : Covers c (token :: tokens) ending

theorem scanFrom_eq_nextToken (c : Cursor) :
    scanFrom c = match c.nextToken with
      | .error e => ([], .error e)
      | .ok (none, next) => ([], .ok next.offset)
      | .ok (some token, next) => (token :: (scanFrom next).1, (scanFrom next).2) := by
  unfold Cursor.nextToken
  cases hrest : c.skip.rest with
  | nil => exact scanFrom_end hrest
  | cons first rest =>
      cases hscan : scanLexeme c.skip.offset first rest with
      | error e => simpa only [hscan] using scanFrom_error hrest hscan
      | ok scanned => simpa only [hscan] using scanFrom_token hrest hscan

/-- The tokens of a text are those that calls give. -/
theorem scans_scanFrom (c : Cursor) : Scans c (scanFrom c).1 (scanFrom c).2 := by
  generalize hlength : c.rest.length = n
  induction n using Nat.strong_induction_on generalizing c with
  | _ n ih =>
      rw [scanFrom_eq_nextToken]
      cases hcall : c.nextToken with
      | error e => exact .refused hcall
      | ok called =>
          obtain ⟨_ | token, next⟩ := called
          · exact .ended hcall
          · obtain ⟨gap, span, hadvances⟩ := exists_advances hcall
            exact .token hcall (ih _ (hlength ▸ hadvances.length_lt) next rfl)

section Runs

variable {c : Cursor} {tokens : List Token} {ending : Ending}

theorem Scans.covers (h : Scans c tokens ending) : Covers c tokens ending := by
  induction h with
  | ended h =>
      obtain ⟨rfl, htrivia⟩ := trivia_of_end h
      exact .ended htrivia
  | refused h =>
      obtain ⟨gap, first, rest, hrest, hgap, hscan⟩ := exists_of_error h
      exact .refused hrest hgap hscan
  | token h _ ih =>
      obtain ⟨gap, span, hadvances⟩ := exists_advances h
      exact .token hadvances ih

namespace Covers

/-- The tokens stand in the text from the place on. -/
theorem within (h : Covers c tokens ending) : ∀ token ∈ tokens, c.offset ≤ token.offset ∧
    token.offset < token.stop ∧ token.stop ≤ c.offset + byteLength c.rest := by
  induction h with
  | ended | refused => exact List.forall_mem_nil _
  | @token c next gap span token _ _ h _ ih =>
      have hlt := h.offset_lt
      have hoffset := h.offset_eq
      have hstop := h.stop_eq
      have hnext := h.next_eq
      have hbytes : byteLength c.rest = byteLength gap + (byteLength span + byteLength next.rest) := by
        rw [h.rest_eq, byteLength_append, byteLength_append]
      refine List.forall_mem_cons.mpr ⟨⟨by omega, hlt, by omega⟩, fun other hother => ?_⟩
      obtain ⟨hfirst, hsecond, hthird⟩ := ih other hother
      exact ⟨by omega, hsecond, by omega⟩

/-- The tokens are in order and do not overlap. -/
theorem pairwise (h : Covers c tokens ending) :
    tokens.Pairwise fun before after => before.stop ≤ after.offset := by
  induction h with
  | ended | refused => exact .nil
  | token h hnext ih =>
      refine .cons (fun other hother => ?_) ih
      rw [← h.next_eq]
      exact (hnext.within other hother).1

/-- Every token has a character of its own. -/
theorem length_le (h : Covers c tokens ending) : tokens.length ≤ c.rest.length := by
  induction h with
  | ended | refused => exact Nat.zero_le _
  | token h _ ih =>
      have := h.length_lt
      rw [List.length_cons]
      omega

end Covers

end Runs

/-! ### A parser that asks for one token at a time -/

/-- A parser between two calls: what it has read and where it stands. -/
structure Parsing where
  stage : Stage
  place : Cursor

namespace Parsing

/-- The parser at the start of a text. -/
def start (text : String) : Parsing := ⟨.start, .start text⟩

/-- Asks for the next token and reads it. The parser goes on, or ends with an outcome. -/
def call (p : Parsing) : Parsing ⊕ Except StatementFault Plan :=
  match p.place.nextToken with
  | .error e => .inr (.error (.malformed e.offset (.lexical e.reason)))
  | .ok (none, next) => .inr (p.stage.finish next.offset)
  | .ok (some token, next) =>
      match p.stage.step token with
      | .error fault => .inr (.error fault)
      | .ok stage => .inl ⟨stage, next⟩

/-- The parser ends with an outcome after as many calls as said. -/
inductive Ends : Parsing → Nat → Except StatementFault Plan → Prop where
  | last {p : Parsing} {outcome : Except StatementFault Plan} (h : p.call = .inr outcome) :
      Ends p 1 outcome
  | more {p next : Parsing} {calls : Nat} {outcome : Except StatementFault Plan}
      (h : p.call = .inl next) (hnext : Ends next calls outcome) : Ends p (calls + 1) outcome

/-- The plan that the tokens spell, of which those up to a stage have been read. -/
def planFrom (stage : Stage) (tokens : List Token) (ending : Ending) :
    Except StatementFault Plan :=
  match stage.run tokens with
  | .error fault => .error fault
  | .ok stage =>
      match ending with
      | .ok offset => stage.finish offset
      | .error e => .error (.malformed e.offset (.lexical e.reason))

/-- The parser asks for every token at most once, and once more behind them, and ends as it does when
all tokens are there from the start. -/
theorem exists_ends {place : Cursor} {tokens : List Token} {ending : Ending}
    (h : Scans place tokens ending) (stage : Stage) :
    ∃ calls ≤ tokens.length + 1, Ends ⟨stage, place⟩ calls (planFrom stage tokens ending) := by
  induction h generalizing stage with
  | ended h => exact ⟨1, Nat.le_refl 1, .last (by simp only [call, h]; rfl)⟩
  | refused h => exact ⟨1, Nat.le_refl 1, .last (by simp only [call, h]; rfl)⟩
  | @token c next token tokens ending h _ ih =>
      cases hstep : stage.step token with
      | error fault =>
          refine ⟨1, Nat.le_add_left 1 _, .last ?_⟩
          simp only [call, h, hstep, planFrom, Stage.run]
      | ok nextStage =>
          obtain ⟨calls, hcalls, hends⟩ := ih nextStage
          have hplan : planFrom stage (token :: tokens) ending = planFrom nextStage tokens ending := by
            simp only [planFrom, Stage.run, hstep]
          have hcall : call ⟨stage, c⟩ = .inl ⟨nextStage, next⟩ := by
            simp only [call, h, hstep]
          exact ⟨calls + 1, Nat.succ_le_succ hcalls, hplan ▸ .more hcall hends⟩

end Parsing

/-! ### Whole texts -/

theorem Cursor.GoesTo.offset_le {text : String} {c : Cursor} (h : (Cursor.start text).GoesTo c) :
    c.offset ≤ text.utf8ByteSize := by
  obtain ⟨passed, hrest, hoffset⟩ := h
  have hsize : text.utf8ByteSize = byteLength (Cursor.start text).rest := by
    rw [Cursor.start, ← utf8ByteSize_ofList, String.ofList_toList]
  rw [hrest, byteLength_append] at hsize
  have hstart : (Cursor.start text).offset = 0 := rfl
  omega

/-- Every call of the scanner that gives a token goes on in the text, from one character boundary to a
later one, and passes over blanks and comments only in front of the token. The tokens of a text are
disjoint and in order, and nothing but blanks and comments stands outside of them, up to the end of
the text or to characters that make no token. A parser that asks for one token at a time ends after
at most one call more than the text has characters. -/
theorem covers_text (text : String) :
    (∀ c token next, (Cursor.start text).GoesTo c → c.nextToken = .ok (some token, next) →
      (∃ gap span, c.Advances gap span token next) ∧
      c.offset < next.offset ∧ next.offset ≤ text.utf8ByteSize ∧
      (Cursor.start text).GoesTo next) ∧
    Scans (.start text) (scan text).1 (scan text).2 ∧
    Covers (.start text) (scan text).1 (scan text).2 ∧
    (scan text).1.Pairwise (fun before after => before.stop ≤ after.offset) ∧
    ∃ calls ≤ text.length + 1, ∃ outcome, (Parsing.start text).Ends calls outcome ∧
      parse text = outcome.mapError (StatementFault.locate text) := by
  have hscans : Scans (.start text) (scan text).1 (scan text).2 := scans_scanFrom _
  refine ⟨fun c token next hc hcall => ?_, hscans, hscans.covers, hscans.covers.pairwise, ?_⟩
  · obtain ⟨gap, span, hadvances⟩ := exists_advances hcall
    have hnext := hc.trans hadvances.goesTo
    have hlater : c.offset < next.offset := by
      have hoffset := hadvances.offset_eq
      have hstop := hadvances.next_eq
      have hlt := hadvances.offset_lt
      omega
    exact ⟨⟨gap, span, hadvances⟩, hlater, hnext.offset_le, hnext⟩
  · obtain ⟨calls, hcalls, hends⟩ := Parsing.exists_ends hscans .start
    have htokens : (scan text).1.length ≤ text.length := hscans.covers.length_le
    exact ⟨calls, by omega, _, hends, rfl⟩

/-- A word and a sign, with a comment between them of which a character takes two bytes. -/
def commentedText : List Char := ['x', ' ', '-', '-', 'é', '\n', '=']

/-- Behind the word, the scanner goes on to the end of the sign, over the blank and the comment. -/
theorem covers_text_commented :
    (Cursor.start (String.ofList commentedText)).GoesTo ⟨1, commentedText.tail⟩ ∧
    Cursor.nextToken ⟨1, commentedText.tail⟩ = .ok (some ⟨.equals, 7, 8⟩, ⟨8, []⟩) ∧
    (∃ gap span, Cursor.Advances ⟨1, commentedText.tail⟩ gap span ⟨.equals, 7, 8⟩ ⟨8, []⟩) ∧
    8 ≤ (String.ofList commentedText).utf8ByteSize := by
  have hgoes : (Cursor.start (String.ofList commentedText)).GoesTo ⟨1, commentedText.tail⟩ :=
    ⟨['x'], String.toList_ofList, rfl⟩
  have hcall : Cursor.nextToken ⟨1, commentedText.tail⟩ =
      .ok (some ⟨.equals, 7, 8⟩, ⟨8, []⟩) := rfl
  obtain ⟨hadvances, -, hwithin, -⟩ := (covers_text _).1 _ _ _ hgoes hcall
  exact ⟨hgoes, hcall, hadvances, hwithin⟩

end BatchTransfer.Statement
