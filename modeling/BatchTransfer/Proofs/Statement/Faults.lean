import BatchTransfer.Proofs.Statement.Boundaries
import BatchTransfer.Proofs.Statement.Viability

/-!
# Where a statement is refused

An error points between two characters of the text, and a token that is named in the place of
something else is the first with which the text cannot be continued to a sentence
(`points_at_first_offending`). The parser keeps byte offsets for checks that it makes later, so the
first part is an invariant of its stages (`Stage.Keeps`); the second is read off what a stage stands
for and from the sentences that are not refused.
-/

namespace BatchTransfer

open BatchTransfer.Text

/-- The byte offset that a fault points at. -/
def StatementFault.offset : StatementFault → Nat
  | malformed offset _ => offset
  | duplicateKey offset _ _ => offset

theorem StatementFault.position_locate (text : String) (fault : StatementFault) :
    (fault.locate text).position = .locate text fault.offset := by
  cases fault <;> rfl

namespace Statement

/-! ### Byte offsets that are kept for later -/

/-- The byte offset of the value for the result table satisfies `P`. -/
def Clause.Keeps (P : Nat → Prop) (c : Clause) : Prop :=
  ∀ v offset, c.resultTable = some (v, offset) → P offset

/-- All byte offsets that are kept while a clause is read satisfy `P`. -/
def ClauseStage.Keeps (P : Nat → Prop) : ClauseStage → Prop
  | firstKey c | nextKey c | separator c => c.Keeps P
  | equals c entry | value c entry => c.Keeps P ∧ P entry.offset
  | item c entry offset _ | afterItem c entry offset _ | afterValue c entry offset _ =>
      c.Keeps P ∧ P entry.offset ∧ P offset
  | _ => True

/-- All byte offsets that are kept while a statement is read satisfy `P`. -/
def Stage.Keeps (P : Nat → Prop) : Stage → Prop
  | clause _ stage => stage.Keeps P
  | sourceRead c => c.Keeps P
  | _ => True

section Keeps

variable {P : Nat → Prop} {role : Role} {token : Token} {tokens : List Token}
  {fault : StatementFault}

theorem Clause.Keeps.add {c : Clause} {offset : Nat} (h : c.Keeps P) (hoffset : P offset)
    (key : String) (v : OptionValue) : (c.add key v offset).Keeps P := by
  rw [Clause.add]
  split
  · rintro _ _ ⟨⟩
    exact hoffset
  · exact h

namespace ClauseStage

variable {stage next : ClauseStage}

theorem Keeps.settle (h : stage.Keeps P) (hnext : stage.settle role = .ok next) : next.Keeps P := by
  unfold ClauseStage.settle at hnext
  split at hnext
  · split at hnext
    · cases hnext
    · cases hnext
      obtain ⟨hclause, -, hoffset⟩ := h
      exact hclause.add hoffset _ _
  · cases hnext
    exact h

theorem Keeps.settle_error (h : stage.Keeps P) (hfault : stage.settle role = .error fault) :
    P fault.offset := by
  unfold ClauseStage.settle at hfault
  split at hfault
  · split at hfault
    · cases hfault
      exact h.2.1
    · cases hfault
  · cases hfault

theorem Keeps.advance (h : stage.Keeps P) (htoken : P token.offset)
    (hnext : stage.advance? role token = some next) : next.Keeps P := by
  revert hnext
  fun_cases advance? role stage token with
  | case1 | case3 | case5 | case6 | case7 =>
      rintro ⟨⟩
      trivial
  | case9 k =>
      rintro ⟨⟩ _ _ ⟨⟩
  | case10 | case11 =>
      rintro ⟨⟩
      exact ⟨h, htoken⟩
  | case13 =>
      rintro ⟨⟩
      exact ⟨h.1, h.2, htoken⟩
  | case14 =>
      intro hnext
      obtain ⟨v, -, rfl⟩ := Option.map_eq_some_iff.mp hnext
      exact ⟨h.1, h.2, htoken⟩
  | case15 =>
      intro hnext
      obtain ⟨v, -, rfl⟩ := Option.map_eq_some_iff.mp hnext
      exact h
  | case12 | case16 | case17 | case18 =>
      rintro ⟨⟩
      exact h
  | _ => rintro ⟨⟩

theorem Keeps.completed {lexeme : Lexeme} {c : Clause} (h : stage.Keeps P)
    (hdone : stage.completed? lexeme = some c) : c.Keeps P := by
  unfold completed? at hdone
  split at hdone
  · cases hdone
    exact h
  · cases hdone
    exact h
  · cases hdone

end ClauseStage

namespace Stage

variable {stage next : Stage}

theorem Keeps.settle (h : stage.Keeps P) (hnext : stage.settle = .ok next) : next.Keeps P := by
  cases stage with
  | clause side clauseStage =>
      obtain ⟨settled, hclause, rfl⟩ := exists_of_map_eq_ok hnext
      exact ClauseStage.Keeps.settle h hclause
  | sourceRead c =>
      obtain ⟨first, -, rfl⟩ := exists_of_map_eq_ok hnext
      trivial
  | _ =>
      cases hnext
      exact h

/-- A check that has waited is refused at a byte offset that has been kept. -/
theorem Keeps.settle_error (h : stage.Keeps P) (hfault : stage.settle = .error fault) :
    P fault.offset := by
  cases stage with
  | clause side clauseStage =>
      exact ClauseStage.Keeps.settle_error h (eq_error_of_map_eq_error hfault)
  | sourceRead c =>
      obtain ⟨v, offset, htable, rfl⟩ := sourceSide_error (eq_error_of_map_eq_error hfault)
      exact h v offset htable
  | _ => cases hfault

theorem Keeps.advance (h : stage.Keeps P) (htoken : P token.offset)
    (hnext : stage.advance? token = some next) : next.Keeps P := by
  unfold Stage.advance? at hnext
  split at hnext
  · split at hnext
    · cases hnext
      trivial
    · cases hnext
  · rename_i side clauseStage
    split at hnext
    · rename_i c hdone
      cases hnext
      cases side with
      | source => exact ClauseStage.Keeps.completed h hdone
      | sink first => trivial
    · obtain ⟨advanced, hadvanced, rfl⟩ := Option.map_eq_some_iff.mp hnext
      exact ClauseStage.Keeps.advance h htoken hadvanced
  · cases hnext
    trivial
  · cases hnext

/-- A step keeps what `P` says of the kept offsets, if it holds where the token stands. -/
theorem Keeps.step (h : stage.Keeps P) (htoken : P token.offset)
    (hnext : stage.step token = .ok next) : next.Keeps P := by
  unfold Stage.step at hnext
  split at hnext
  · cases hnext
  · rename_i settled hsettled
    split at hnext
    · rename_i advanced hadvanced
      cases hnext
      exact (h.settle hsettled).advance htoken hadvanced
    · cases hnext

/-- A run keeps what `P` says of the kept offsets, if it holds where the tokens stand. -/
theorem Keeps.run (h : stage.Keeps P) (htokens : ∀ token ∈ tokens, P token.offset)
    (hnext : stage.run tokens = .ok next) : next.Keeps P := by
  induction tokens generalizing stage with
  | nil =>
      cases hnext
      exact h
  | cons token rest ih =>
      rw [List.forall_mem_cons] at htokens
      rw [Stage.run] at hnext
      split at hnext
      · cases hnext
      · rename_i middle hstep
        exact ih (h.step htokens.1 hstep) htokens.2 hnext

/-! ### How a statement is refused -/

/-- A check that has waited finds no token out of place. -/
theorem not_isMismatch_of_settle (h : stage.settle = .error fault) : ¬ IsMismatch fault := by
  cases stage with
  | clause side clauseStage =>
      have hclause := eq_error_of_map_eq_error h
      unfold ClauseStage.settle at hclause
      split at hclause
      · split at hclause
        · cases hclause
          rintro ⟨_, _, _, ⟨⟩⟩
        · cases hclause
      · cases hclause
  | sourceRead c =>
      obtain ⟨v, offset, -, rfl⟩ := sourceSide_error (eq_error_of_map_eq_error h)
      rintro ⟨_, _, _, ⟨⟩⟩
  | _ => cases h

/-- A complaint names what has been found. -/
theorem found_of_complaint {found found' : Option Lexeme} {what : String}
    (h : stage.complaint found = .expected what found') : found' = found := by
  unfold Stage.complaint at h
  split at h
  · unfold ClauseStage.complaint at h
    split at h
    · cases h
    · cases h
    · cases h
      rfl
  · cases h
    rfl

/-- A step is refused by a check that has waited, or at the token that cannot follow. -/
theorem settle_or_of_step (h : stage.step token = .error fault) :
    stage.settle = .error fault ∨ ∃ settled : Stage,
      fault = .malformed token.offset (settled.complaint (some token.lexeme)) := by
  unfold Stage.step at h
  split at h
  · rename_i hsettle
    cases h
    exact .inl hsettle
  · rename_i settled _
    split at h
    · cases h
    · cases h
      exact .inr ⟨settled, rfl⟩

/-- The end of a text is refused by a check that has waited, or since more must follow. -/
theorem settle_or_of_finish {stop : Nat} (h : stage.finish stop = .error fault) :
    stage.settle = .error fault ∨ ∃ settled : Stage,
      fault = .malformed stop (settled.complaint none) := by
  unfold Stage.finish at h
  split at h
  · rename_i hsettle
    cases h
    exact .inl hsettle
  · cases h
  · cases h
  · rename_i settled _ _ _
    cases h
    exact .inr ⟨settled, rfl⟩

end Stage

end Keeps

/-- How tokens and what stands behind them fail to spell a plan. -/
inductive Refused (tokens : List Token) (ending : Ending) : StatementFault → Prop where
  | token {before after : List Token} {token : Token} {stage : Stage} {fault : StatementFault}
      (hsplit : tokens = before ++ token :: after) (hrun : Stage.start.run before = .ok stage)
      (hstep : stage.step token = .error fault) : Refused tokens ending fault
  | finish {stage : Stage} {stop : Nat} {fault : StatementFault} (hending : ending = .ok stop)
      (hrun : Stage.start.run tokens = .ok stage) (hfinish : stage.finish stop = .error fault) :
      Refused tokens ending fault
  | lexical {e : LexicalError} (hending : ending = .error e) :
      Refused tokens ending (.malformed e.offset (.lexical e.reason))

theorem refused_of_planOf {tokens : List Token} {ending : Ending} {fault : StatementFault}
    (h : planOf tokens ending = .error fault) : Refused tokens ending fault := by
  unfold planOf at h
  split at h
  · rename_i hrun
    cases h
    rw [Stage.run_eq_foldlM] at hrun
    obtain ⟨before, token, after, stage, hsplit, hpassed, hstep⟩ := foldlM_eq_error_iff.mp hrun
    rw [← Stage.run_eq_foldlM] at hpassed
    exact .token hsplit hpassed hstep
  · rename_i stage hrun
    split at h
    · exact .finish rfl hrun h
    · cases h
      exact .lexical rfl

namespace Refused

variable {tokens : List Token} {ending : Ending} {fault : StatementFault}

/-- What is true of the places of the tokens and of the end is true of the place of a fault. -/
theorem offset {P : Nat → Prop} (h : Refused tokens ending fault)
    (htokens : ∀ token ∈ tokens, P token.offset) (hok : ∀ stop, ending = .ok stop → P stop)
    (herror : ∀ e, ending = .error e → P e.offset) : P fault.offset := by
  have hstart : Stage.start.Keeps P := trivial
  cases h with
  | token hsplit hrun hstep =>
      rw [hsplit, List.forall_mem_append, List.forall_mem_cons] at htokens
      rcases Stage.settle_or_of_step hstep with hsettle | ⟨settled, rfl⟩
      · exact (hstart.run htokens.1 hrun).settle_error hsettle
      · exact htokens.2.1
  | finish hending hrun hfinish =>
      rcases Stage.settle_or_of_finish hfinish with hsettle | ⟨settled, rfl⟩
      · exact (hstart.run htokens hrun).settle_error hsettle
      · exact hok _ hending
  | lexical hending => exact herror _ hending

end Refused

/-- What has been found at a byte offset is the first thing in a text with which it cannot be
continued to a sentence: a token, or the end of the text. -/
def FirstOffending (text : String) (offset : Nat) : Option Lexeme → Prop
  | some lexeme => ∃ before token after, (scan text).1 = before ++ token :: after ∧
      token.lexeme = lexeme ∧ token.offset = offset ∧ Viable (before.map Token.lexeme) ∧
      ¬ Viable (before.map Token.lexeme ++ [lexeme])
  | none => (scan text).2 = .ok offset ∧ offset = byteLength text.toList ∧
      Viable ((scan text).1.map Token.lexeme) ∧
      ¬ ∃ a b, Grammar.Sentence ((scan text).1.map Token.lexeme) a b

section Text

variable {text : String} {fault : StatementFault}

/-- A fault lies between two characters of the text. -/
theorem Refused.hasBoundary (h : Refused (scan text).1 (scan text).2 fault) :
    (Cursor.start text).HasBoundary fault.offset := by
  have hending := scanFrom_endsWith (Cursor.start text)
  refine h.offset (fun token htoken => scanFrom_token_offset htoken) (fun stop hstop => ?_)
    fun e he => ?_
  · have hgoes : (Cursor.start text).EndsWith (.ok stop) := hstop ▸ hending
    exact hgoes.hasBoundary
  · have herror : (Cursor.start text).EndsWith (.error e) := he ▸ hending
    exact herror

/-- A token out of place is the first thing with which the text cannot be continued to a
sentence. -/
theorem Refused.firstOffending {offset : Nat} {what : String} {found : Option Lexeme}
    (h : Refused (scan text).1 (scan text).2 (.malformed offset (.expected what found))) :
    FirstOffending text offset found := by
  have hmismatch : IsMismatch (.malformed offset (.expected what found)) := ⟨_, _, _, rfl⟩
  cases h with
  | @token before after token stage _ hsplit hrun hstep =>
      rcases Stage.settle_or_of_step hstep with hsettle | ⟨settled, hfault⟩
      · exact absurd hmismatch (Stage.not_isMismatch_of_settle hsettle)
      · obtain ⟨rfl, hreason⟩ := StatementFault.malformed.inj hfault
        cases Stage.found_of_complaint hreason.symm
        exact ⟨before, token, after, hsplit, rfl, rfl, viable_of_run hrun,
          not_viable_of_step hrun hstep hmismatch⟩
  | @finish stage stop _ hending hrun hfinish =>
      rcases Stage.settle_or_of_finish hfinish with hsettle | ⟨settled, hfault⟩
      · exact absurd hmismatch (Stage.not_isMismatch_of_settle hsettle)
      · obtain ⟨rfl, hreason⟩ := StatementFault.malformed.inj hfault
        cases Stage.found_of_complaint hreason.symm
        have hend := scanFrom_endsWith (Cursor.start text)
        have hgoes : (Cursor.start text).EndsWith (.ok offset) := hending ▸ hend
        obtain ⟨passed, hpassed, hoffset⟩ := hgoes
        have htext : text.toList = passed := hpassed.trans (List.append_nil _)
        refine ⟨hending, ?_, viable_of_run hrun, not_sentence_of_finish hrun hfinish hmismatch⟩
        rw [htext]
        exact hoffset.trans (Nat.zero_add _)

end Text

/-- An error of a text points between two of its characters, or at an end of it. If the error is a
token, or the end of the text, in the place of something else, then this is what it points at, and
what stands in front of it can be continued to a sentence of the grammar, but not together with it.
The grammar leaves open which keys are given twice and what the result table is called. -/
theorem points_at_first_offending (text : String) (e : StatementError)
    (h : parse text = .error e) :
    ∃ offset, (∃ before after, text.toList = before ++ after ∧ offset = byteLength before) ∧
      e.position = .locate text offset ∧
      ∀ position what found, e = .malformed position (.expected what found) →
        FirstOffending text offset found := by
  rw [parse_eq] at h
  cases hplan : planOf (scan text).1 (scan text).2 with
  | ok p =>
      rw [hplan] at h
      cases h
  | error fault =>
      rw [hplan] at h
      cases h
      have hrefused := refused_of_planOf hplan
      obtain ⟨rest, passed, htext, hoffset⟩ := hrefused.hasBoundary
      refine ⟨fault.offset, ⟨passed, rest, htext, hoffset.trans (Nat.zero_add _)⟩,
        fault.position_locate text, fun position what found hfault => ?_⟩
      cases fault with
      | duplicateKey offset role key => cases hfault
      | malformed offset reason =>
          cases hfault
          exact hrefused.firstOffending

/-- A statement with a bracket in the place of a parenthesis. -/
def bracketed : String := "DATATUNNEL SOURCE['a'] OPTIONS() SINK('b') OPTIONS()"

/-- Whether a text is refused for a bracket in the place of something else. -/
def isRefusedForBracket : Except StatementError Plan → Bool
  | .error (.malformed _ (.expected _ (some .leftBracket))) => true
  | _ => false

/-- The error points at the bracket. -/
theorem points_at_first_offending_bracketed :
    ∃ e offset, parse bracketed = .error e ∧ e.position = .locate bracketed offset ∧
      FirstOffending bracketed offset (some .leftBracket) := by
  have hbracket : isRefusedForBracket (parse bracketed) = true := by decide +kernel
  unfold isRefusedForBracket at hbracket
  split at hbracket
  · rename_i position what hparse
    obtain ⟨offset, -, hposition, hoffending⟩ := points_at_first_offending bracketed _ hparse
    exact ⟨_, offset, hparse, hposition, hoffending _ _ _ rfl⟩
  · cases hbracket

end Statement

end BatchTransfer
