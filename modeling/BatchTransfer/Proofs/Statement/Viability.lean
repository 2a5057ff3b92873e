import BatchTransfer.Proofs.Statement.Completeness

/-!
# Beginnings of statements

The parser reads lexemes only as long as they can be continued to a sentence. What has been read up
to a stage can be, with the lexemes of `Stage.remainder` (`Stage.Reads.sentence`), and a token that
is out of place cannot be read in any sentence, since a sentence is refused for its checks only
(`planOfClauses_error`).
-/

namespace BatchTransfer.Statement

open Grammar (Heading Value Item Entry Entries BeforeItem BeforeEntry AfterEntry)

/-- The lexemes can be continued to a sentence. -/
def Viable (ls : List Lexeme) : Prop := ∃ more a b, Grammar.Sentence (ls ++ more) a b

/-! ### What completes a stage -/

namespace Grammar

variable {role : Role} {c : Statement.Clause} {ls ms : List Lexeme} {e : String × OptionValue}

/-- Another entry and a parenthesis complete a clause, also if the key of the entry is not new. -/
theorem BeforeEntry.exists_clause (h : BeforeEntry role c ls) (hentry : Entry ms e) :
    ∃ t, Clause role (ls ++ ms ++ [.rightParen]) t := by
  cases h with
  | first hheading => exact ⟨_, .clause hheading (.some (.one hentry))⟩
  | @next kind ls ns es hheading hkind hentries =>
      refine ⟨⟨kind, es ++ [e]⟩, ?_⟩
      simpa using Clause.clause hheading (.some (.more hentries hentry))

theorem AfterEntry.exists_clause (h : AfterEntry role c ls) :
    ∃ t, Clause role (ls ++ [.rightParen]) t := by
  cases h with
  | entries hheading hkind hentries => exact ⟨_, .clause hheading (.some hentries)⟩

end Grammar

/-- Lexemes that complete the clause of a role from a stage on. -/
def ClauseStage.remainder (role : Role) : ClauseStage → List Lexeme
  | keyword => [.word role.keyword, .leftParen, .quoted "k", .rightParen, .word "OPTIONS",
      .leftParen, .rightParen]
  | kindParen => [.leftParen, .quoted "k", .rightParen, .word "OPTIONS", .leftParen, .rightParen]
  | kind => [.quoted "k", .rightParen, .word "OPTIONS", .leftParen, .rightParen]
  | kindEnd _ => [.rightParen, .word "OPTIONS", .leftParen, .rightParen]
  | optionsWord _ => [.word "OPTIONS", .leftParen, .rightParen]
  | optionsParen _ => [.leftParen, .rightParen]
  | firstKey _ => [.rightParen]
  | nextKey _ => [.word "k", .equals, .integer 0, .rightParen]
  | equals _ _ => [.equals, .integer 0, .rightParen]
  | value _ _ => [.integer 0, .rightParen]
  | item _ _ _ _ => [.integer 0, .rightBracket, .rightParen]
  | afterItem _ _ _ _ => [.rightBracket, .rightParen]
  | afterValue _ _ _ _ => [.rightParen]
  | separator _ => [.rightParen]

/-- What has been read of a clause up to a stage is a clause with the remainder of the stage. -/
theorem ClauseStage.Reads.clause {role : Role} {ls : List Lexeme} {stage : ClauseStage}
    (h : stage.Reads role ls) : ∃ t, Grammar.Clause role (ls ++ stage.remainder role) t := by
  have hoptions : Text.equalFold "OPTIONS" "OPTIONS" = true := by decide
  have hscalar : Grammar.Scalar [.integer 0] (.integer 0) := .integer 0
  cases stage with
  | keyword =>
      subst h
      have hkeyword : Text.equalFold role.keyword role.keyword = true := by simp [Text.equalFold]
      exact ⟨_, .clause (.heading hkeyword hoptions) .none⟩
  | kindParen | kind =>
      obtain ⟨w, hword, rfl⟩ := h
      exact ⟨_, .clause (.heading hword hoptions) .none⟩
  | kindEnd k | optionsWord k =>
      obtain ⟨-, w, hword, rfl⟩ := h
      exact ⟨_, .clause (.heading hword hoptions) .none⟩
  | optionsParen k =>
      obtain ⟨-, ms, hheading, rfl⟩ := h
      refine ⟨⟨k, []⟩, ?_⟩
      simpa [remainder] using Grammar.Clause.clause hheading .none
  | firstKey c =>
      obtain ⟨k, -, hheading, -⟩ := h
      refine ⟨⟨k, []⟩, ?_⟩
      simpa [remainder] using Grammar.Clause.clause hheading .none
  | nextKey c =>
      have hbefore : BeforeEntry role c ls := h
      simpa [remainder] using hbefore.exists_clause (.entry "k" (.scalar hscalar))
  | equals c entry =>
      obtain ⟨ms, hbefore, rfl⟩ := h
      simpa [remainder] using hbefore.exists_clause (.entry entry.key (.scalar hscalar))
  | value c entry =>
      obtain ⟨ms, hbefore, rfl⟩ := h
      simpa [remainder] using hbefore.exists_clause (.entry entry.key (.scalar hscalar))
  | item c entry offset items =>
      obtain ⟨ms, ns, hbefore, hitems, rfl⟩ := h
      have hlist := Value.list (hitems.append (.scalar hscalar))
      simpa [remainder] using hbefore.exists_clause (.entry entry.key hlist)
  | afterItem c entry offset items =>
      obtain ⟨ms, ns, hbefore, hitems, rfl⟩ := h
      simpa [remainder] using hbefore.exists_clause (.entry entry.key (.list hitems))
  | afterValue c entry offset v =>
      obtain ⟨ms, ns, hbefore, hvalue, rfl⟩ := h
      simpa [remainder] using hbefore.exists_clause (.entry entry.key hvalue)
  | separator c =>
      have hafter : AfterEntry role c ls := h
      exact hafter.exists_clause

/-- Lexemes that complete a statement from a stage on. -/
def Stage.remainder : Stage → List Lexeme
  | start => .word "DATATUNNEL" :: (ClauseStage.keyword.remainder .source ++
      ClauseStage.keyword.remainder .sink)
  | clause .source stage => stage.remainder .source ++ ClauseStage.keyword.remainder .sink
  | clause (.sink _) stage => stage.remainder .sink
  | sourceRead _ => ClauseStage.keyword.remainder .sink
  | complete _ => []
  | ended _ => []

/-- What has been read up to a stage is a sentence with the remainder of the stage. -/
theorem Stage.Reads.sentence {ls : List Lexeme} {stage : Stage} (h : stage.Reads ls) :
    ∃ a b, Grammar.Sentence (ls ++ stage.remainder) a b := by
  have hfresh (role : Role) : (ClauseStage.keyword).Reads role [] := rfl
  obtain ⟨sink, hsink⟩ := (hfresh .sink).clause
  cases stage with
  | start =>
      subst h
      obtain ⟨source, hsource⟩ := (hfresh .source).clause
      have hword : Text.equalFold "DATATUNNEL" "DATATUNNEL" = true := by decide
      exact ⟨source, sink, .bare (.body hword hsource hsink)⟩
  | clause side stage =>
      obtain ⟨ms, ns, hside, hstage, rfl⟩ := h
      obtain ⟨t, hclause⟩ := hstage.clause
      cases side with
      | source =>
          obtain ⟨w, hword, rfl⟩ := hside
          refine ⟨t, sink, .bare ?_⟩
          simpa [remainder, Side.role] using Grammar.Body.body hword hclause hsink
      | sink first =>
          obtain ⟨w, ls, a, hword, hsource, -, -, rfl⟩ := hside
          refine ⟨a, t, .bare ?_⟩
          simpa [remainder, Side.role] using Grammar.Body.body hword hsource hclause
  | sourceRead c =>
      obtain ⟨w, ms, a, hword, hsource, -, -, rfl⟩ := h
      exact ⟨a, sink, .bare (.body hword hsource hsink)⟩
  | complete p =>
      obtain ⟨a, b, hbody, -, -⟩ := h
      refine ⟨a, b, .bare ?_⟩
      simpa [remainder] using hbody
  | ended p =>
      obtain ⟨a, b, ms, hbody, -, -, rfl⟩ := h
      refine ⟨a, b, ?_⟩
      simpa [remainder] using Grammar.Sentence.terminated hbody

/-- What has been read can be continued to a sentence. -/
theorem viable_of_run {tokens : List Token} {stage : Stage}
    (h : Stage.start.run tokens = .ok stage) : Viable (tokens.map Token.lexeme) := by
  have hstart : Stage.start.Reads [] := rfl
  have hreads := hstart.run h
  rw [List.nil_append] at hreads
  exact ⟨stage.remainder, hreads.sentence⟩

/-! ### Tokens out of place -/

/-- The fault is a token, or the end of the text, in the place of something else. -/
def IsMismatch (fault : StatementFault) : Prop :=
  ∃ offset what found, fault = .malformed offset (.expected what found)

theorem PlacedClause.not_isMismatch_of_check {t : PlacedClause} {role : Role}
    {fault : StatementFault} (h : t.check role = .error fault) : ¬ IsMismatch fault := by
  by_cases hkind : t.kind = ""
  · rw [check, if_pos hkind] at h
    cases h
    rintro ⟨_, _, _, ⟨⟩⟩
  · obtain ⟨repeated, -, rfl⟩ := exists_firstRepetition_of_check hkind h
    rintro ⟨_, _, _, ⟨⟩⟩

/-- The checks of a sentence find no token out of place. -/
theorem not_isMismatch_of_planOfClauses {a b : PlacedClause} {fault : StatementFault}
    (h : planOfClauses a b = .error fault) : ¬ IsMismatch fault := by
  rcases exists_of_bind_eq_error h with hsource | ⟨c, -, h⟩
  · exact PlacedClause.not_isMismatch_of_check hsource
  rcases exists_of_bind_eq_error h with hfirst | ⟨first, -, h⟩
  · obtain ⟨v, offset, -, rfl⟩ := sourceSide_error hfirst
    rintro ⟨_, _, _, ⟨⟩⟩
  · exact PlacedClause.not_isMismatch_of_check (eq_error_of_map_eq_error h)

section Mismatch

variable {stage : Stage} {tokens : List Token} {token : Token} {fault : StatementFault} {stop : Nat}

/-- The end of a text that is out of place does not end a sentence. -/
theorem not_sentence_of_finish (hrun : Stage.start.run tokens = .ok stage)
    (hfinish : stage.finish stop = .error fault) (hfault : IsMismatch fault) :
    ¬ ∃ a b, Grammar.Sentence (tokens.map Token.lexeme) a b := by
  rintro ⟨a, b, hsentence⟩
  obtain ⟨source, sink, -, -, -, hplan⟩ := planOf_of_sentence stop hsentence
  rw [planOf, hrun] at hplan
  exact not_isMismatch_of_planOfClauses (hplan.symm.trans hfinish) hfault

/-- A token that is out of place is not read in any sentence. -/
theorem not_viable_of_step (hrun : Stage.start.run tokens = .ok stage)
    (hstep : stage.step token = .error fault) (hfault : IsMismatch fault) :
    ¬ Viable (tokens.map Token.lexeme ++ [token.lexeme]) := by
  rintro ⟨more, a, b, hsentence⟩
  have hrefused (after : List Token) : Stage.start.run (tokens ++ token :: after) = .error fault := by
    rw [Stage.run_append hrun, Stage.run, hstep]
  -- The continuation is made of tokens that stand nowhere.
  have hlexemes : (more.map fun lexeme => (⟨lexeme, 0, 0⟩ : Token)).map Token.lexeme = more := by
    rw [List.map_map]
    exact List.map_id more
  rw [← hlexemes, List.append_assoc, List.singleton_append, ← List.map_cons, ← List.map_append]
    at hsentence
  obtain ⟨source, sink, -, -, -, hplan⟩ := planOf_of_sentence 0 hsentence
  rw [planOf, hrefused] at hplan
  exact not_isMismatch_of_planOfClauses hplan.symm hfault

end Mismatch

end BatchTransfer.Statement
