import Mathlib.Data.List.Basic
import BatchTransfer.Proofs.Statement.Checks

/-!
# What the parser reads

`Stage.reach` reads tokens and makes the checks that wait behind them. There is one equation for each
symbol of the grammar, by induction on its derivations: it says what reading tokens that derive from
the symbol comes to, and leaves the checks to `Clause.enter` and `PlacedClause.check`. So the plan of
a sentence is that of its two clauses (`planOf_of_sentence`), and with the other direction the parser
accepts exactly its grammar (`parse_iff_derives`).
-/

namespace BatchTransfer.Statement

open BatchTransfer.Text
open Grammar (Heading Scalar Item Items Value Entry Entries OptionList)

/-- The lexemes are read from a stage on, and end in a stage with the property. -/
def Stage.Runs (stage : Stage) (ls : List Lexeme) (P : Stage → Prop) : Prop :=
  ∀ tokens : List Token, tokens.map Token.lexeme = ls → ∃ next, stage.run tokens = .ok next ∧ P next

/-- Reads tokens and makes the checks that wait behind them. -/
def Stage.reach (stage : Stage) (tokens : List Token) : Except StatementFault Stage :=
  (stage.run tokens).bind settle

theorem ClauseStage.settle_settle {role : Role} {stage next : ClauseStage}
    (h : stage.settle role = .ok next) : next.settle role = .ok next := by
  cases stage with
  | afterValue c entry offset v =>
      rw [settle] at h
      split at h
      · cases h
      · cases h
        rfl
  | _ =>
      cases h
      rfl

namespace Stage

variable {stage next : Stage} {ls ms : List Lexeme} {lexeme : Lexeme} {P Q : Stage → Prop}
  {token : Token} {tokens : List Token}

theorem run_eq_foldlM (stage : Stage) (tokens : List Token) :
    stage.run tokens = tokens.foldlM step stage := by
  induction tokens generalizing stage with
  | nil => rfl
  | cons token rest ih =>
      rw [run, List.foldlM_cons]
      cases stage.step token with
      | error fault => rfl
      | ok next => exact ih next

theorem run_append {tokens more : List Token} (h : stage.run tokens = .ok next) :
    stage.run (tokens ++ more) = next.run more := by
  rw [run_eq_foldlM] at h ⊢
  rw [List.foldlM_append, h, run_eq_foldlM]
  rfl

theorem Runs.nil (h : P stage) : stage.Runs [] P := by
  intro tokens htokens
  rw [List.map_eq_nil_iff] at htokens
  subst htokens
  exact ⟨stage, rfl, h⟩

theorem Runs.cons (h : ∀ offset stop, ∃ next, stage.step ⟨lexeme, offset, stop⟩ = .ok next ∧
    next.Runs ls P) : stage.Runs (lexeme :: ls) P := by
  intro tokens htokens
  obtain ⟨⟨_, offset, stop⟩, rest, rfl, rfl, hrest⟩ := List.map_eq_cons_iff.mp htokens
  obtain ⟨next, hstep, hnext⟩ := h offset stop
  obtain ⟨last, hlast, hP⟩ := hnext rest hrest
  refine ⟨last, ?_, hP⟩
  rw [Stage.run, hstep]
  exact hlast

theorem Runs.append (h : stage.Runs ls P) (hmore : ∀ next, P next → next.Runs ms Q) :
    stage.Runs (ls ++ ms) Q := by
  intro tokens htokens
  obtain ⟨first, rest, rfl, hfirst, hrest⟩ := List.map_eq_append_iff.mp htokens
  obtain ⟨middle, hmiddle, hP⟩ := h first hfirst
  obtain ⟨last, hlast, hQ⟩ := hmore middle hP rest hrest
  exact ⟨last, (run_append hmiddle).trans hlast, hQ⟩

/-! ### Checks that wait -/

/-- The checks that have waited are made once. -/
theorem settle_settle (h : stage.settle = .ok next) : next.settle = .ok next := by
  cases stage with
  | clause side clauseStage =>
      obtain ⟨settled, hsettled, rfl⟩ := exists_of_map_eq_ok h
      simp [settle, ClauseStage.settle_settle hsettled, Except.map]
  | sourceRead c =>
      obtain ⟨first, -, rfl⟩ := exists_of_map_eq_ok h
      rfl
  | _ =>
      cases h
      rfl

/-- The checks that wait may be made before a token is read. -/
theorem step_settle (h : stage.settle = .ok next) : stage.step token = next.step token := by
  rw [step, step, h, settle_settle h]

/-- The checks that wait may be made before tokens are read. -/
theorem reach_eq_bind_settle (stage : Stage) (tokens : List Token) :
    stage.reach tokens = stage.settle.bind fun settled => settled.reach tokens := by
  cases hsettle : stage.settle with
  | error fault =>
      cases tokens with
      | nil => exact hsettle
      | cons token rest => simp [reach, run, step, hsettle, Except.bind]
  | ok settled =>
      cases tokens with
      | nil => exact hsettle.trans (settle_settle hsettle).symm
      | cons token rest =>
          rw [reach, run, step_settle hsettle]
          rfl

/-- The checks that wait may be made before a statement ends. -/
theorem finish_eq_bind_settle (stage : Stage) (stop : Nat) :
    stage.finish stop = stage.settle.bind fun settled => settled.finish stop := by
  cases hsettle : stage.settle with
  | error fault => simp [finish, hsettle, Except.bind]
  | ok settled => simp [finish, hsettle, settle_settle hsettle, Except.bind]

theorem reach_append (stage : Stage) (tokens more : List Token) :
    stage.reach (tokens ++ more) = (stage.reach tokens).bind fun next => next.reach more := by
  have hrun : stage.run (tokens ++ more) = (stage.run tokens).bind fun next => next.run more := by
    simp only [run_eq_foldlM]
    exact List.foldlM_append
  rw [reach, hrun, reach]
  cases stage.run tokens with
  | error fault => rfl
  | ok next => exact next.reach_eq_bind_settle more

theorem reach_cons (h : stage.step token = .ok next) :
    stage.reach (token :: tokens) = next.reach tokens := by
  rw [reach, run, h]
  rfl

variable {side : Side} {c : Clause} {entry : EntryKey} {clauseStage clauseNext : ClauseStage}

/-- A token with which a clause goes on. -/
theorem step_clause {token : Token} (hsettle : clauseStage.settle side.role = .ok clauseStage)
    (hdone : clauseStage.completed? token.lexeme = none)
    (hnext : clauseStage.advance? side.role token = some clauseNext) :
    (clause side clauseStage).step token = .ok (clause side clauseNext) := by
  simp [Stage.step, Stage.settle, Stage.advance?, Except.map, hsettle, hdone, hnext]

end Stage

/-! ### One equation for each symbol of the grammar -/

namespace Grammar

variable {side : Side} {c : Statement.Clause} {entry : EntryKey} {ls : List Lexeme}
  {tokens : List Token} {v : OptionValue} {vs : List OptionValue} {e : String × OptionValue}
  {es : List (String × OptionValue)} {kind : String} {role : Role} {t : ClauseTree}

/-- No word is both truth values. -/
theorem not_true_of_false {w : String} (h : equalFold w "false" = true) :
    ¬equalFold w "true" = true := by
  intro htrue
  rw [equalFold, beq_iff_eq] at h htrue
  exact absurd (h.symm.trans htrue) (by decide)

theorem Scalar.exists_lexeme (h : Scalar ls v) :
    ∃ lexeme, ls = [lexeme] ∧ scalar? lexeme = some v := by
  cases h with
  | yes hword => exact ⟨_, rfl, if_pos hword⟩
  | no hword => exact ⟨_, rfl, (if_neg (not_true_of_false hword)).trans (if_pos hword)⟩
  | _ => exact ⟨_, rfl, rfl⟩

theorem Item.exists_lexeme (h : Item ls v) :
    ∃ lexeme, ls = [lexeme] ∧ listItem? lexeme = some v := by
  cases h with
  | scalar hscalar =>
      obtain ⟨lexeme, rfl, hlexeme⟩ := hscalar.exists_lexeme
      refine ⟨lexeme, rfl, ?_⟩
      cases lexeme with
      | object r => cases hlexeme
      | _ => exact hlexeme
  | object r => exact ⟨_, rfl, rfl⟩

theorem Item.runs (h : Item ls v) (offset : Nat) (items : List OptionValue) :
    (Stage.clause side (.item c entry offset items)).Runs ls
      (· = .clause side (.afterItem c entry offset (items ++ [v]))) := by
  obtain ⟨lexeme, rfl, hlexeme⟩ := h.exists_lexeme
  refine .cons fun _ _ => ⟨_, Stage.step_clause rfl rfl ?_, .nil rfl⟩
  simp [ClauseStage.advance?, hlexeme]

theorem Items.runs (h : Items ls vs) (offset : Nat) :
    (Stage.clause side (.item c entry offset [])).Runs ls
      (· = .clause side (.afterItem c entry offset vs)) := by
  induction h with
  | one hitem => exact hitem.runs offset []
  | more hinit hlast ih =>
      refine ih.append ?_
      rintro _ rfl
      exact .cons fun _ _ => ⟨_, Stage.step_clause rfl rfl rfl, hlast.runs offset _⟩

/-- A value is read, and stands where its first token does. -/
theorem Value.run_eq (h : Value (tokens.map Token.lexeme) v) :
    ∃ first rest, tokens = first :: rest ∧
      ∀ side c entry, (Stage.clause side (.value c entry)).run tokens =
        .ok (.clause side (.afterValue c entry first.offset v)) := by
  generalize hls : tokens.map Token.lexeme = ls at h
  cases h with
  | scalar hscalar =>
      obtain ⟨lexeme, rfl, hlexeme⟩ := hscalar.exists_lexeme
      obtain ⟨first, rfl, rfl⟩ := List.map_eq_singleton_iff.mp hls
      refine ⟨first, [], rfl, fun side c entry => ?_⟩
      obtain ⟨lexeme, offset, stop⟩ := first
      have hstep : (Stage.clause side (.value c entry)).step ⟨lexeme, offset, stop⟩ =
          .ok (.clause side (.afterValue c entry offset v)) := by
        refine Stage.step_clause rfl rfl ?_
        cases lexeme with
        | leftBracket => cases hlexeme
        | _ => exact congrArg (Option.map _) hlexeme
      rw [Stage.run, hstep]
      rfl
  | @list ls vs hitems =>
      obtain ⟨⟨_, offset, stop⟩, rest, rfl, rfl, hrest⟩ := List.map_eq_cons_iff.mp hls
      refine ⟨_, rest, rfl, fun side c entry => ?_⟩
      have hruns : (Stage.clause side (.item c entry offset [])).Runs (ls ++ [.rightBracket])
          (· = .clause side (.afterValue c entry offset (.list vs))) := by
        refine (hitems.runs offset).append ?_
        rintro _ rfl
        exact .cons fun _ _ => ⟨_, Stage.step_clause rfl rfl rfl, .nil rfl⟩
      obtain ⟨_, hrun, rfl⟩ := hruns rest hrest
      exact hrun

/-- An entry is read into the clause, where its key and its value stand. -/
theorem Entry.reach_eq (h : Entry (tokens.map Token.lexeme) e) :
    ∃ p : PlacedEntry, p.entry = e ∧ entryPlaces tokens = [p.toEntryPlace] ∧
      (∀ token ∈ tokens.getLast?, token.lexeme.isEquals = false) ∧
      ∀ side c stage, stage = .firstKey c ∨ stage = .nextKey c →
        (Stage.clause side stage).reach tokens =
          (c.enter side.role p).map fun next => .clause side (.separator next) := by
  generalize hls : tokens.map Token.lexeme = ls at h
  cases h with
  | @entry key ls v hvalue =>
      obtain ⟨⟨_, keyOffset, keyStop⟩, rest, rfl, rfl, hrest⟩ := List.map_eq_cons_iff.mp hls
      obtain ⟨⟨_, _, _⟩, values, rfl, rfl, rfl⟩ := List.map_eq_cons_iff.mp hrest
      obtain ⟨first, more, rfl, hrun⟩ := hvalue.run_eq
      have hvalues : ∀ token ∈ first :: more, token.lexeme.isEquals = false := fun token htoken =>
        Lexeme.isEquals_of_isOfValue (hvalue.isOfValue _ (List.mem_map_of_mem htoken))
      refine ⟨⟨⟨⟨key, keyOffset⟩, first.offset⟩, v⟩, rfl, ?_, ?_, fun side c stage hstage => ?_⟩
      · rw [entryPlaces, entryPlaces_cons_eq_nil hvalues]
        rfl
      · intro token htoken
        rw [List.getLast?_cons_cons, List.getLast?_cons_cons] at htoken
        exact hvalues token (List.mem_of_getLast? htoken)
      · have hstep : (Stage.clause side stage).step ⟨.word key, keyOffset, keyStop⟩ =
            .ok (.clause side (.equals c ⟨key, keyOffset⟩)) := by
          rcases hstage with rfl | rfl <;> rfl
        rw [Stage.reach_cons hstep, Stage.reach_cons (Stage.step_clause rfl rfl rfl), Stage.reach,
          hrun]
        change Except.map _ (ite _ _ _) = Except.map _ (ite _ _ _)
        split <;> rfl

/-- Entries are read into the clause one after the other. -/
theorem Entries.reach_eq (h : Entries (tokens.map Token.lexeme) es) :
    ∃ ps : List PlacedEntry, ps.map PlacedEntry.entry = es ∧
      entryPlaces tokens = ps.map PlacedEntry.toEntryPlace ∧
      (∀ token ∈ tokens.getLast?, token.lexeme.isEquals = false) ∧
      ∀ side c, (Stage.clause side (.firstKey c)).reach tokens =
        (c.enterAll side.role ps).map fun next => .clause side (.separator next) := by
  generalize hls : tokens.map Token.lexeme = ls at h
  induction h generalizing tokens with
  | one hentry =>
      obtain ⟨p, rfl, hplaces, hlast, hreach⟩ := Entry.reach_eq (hls ▸ hentry)
      refine ⟨[p], rfl, hplaces, hlast, fun side c => ?_⟩
      rw [hreach side c _ (.inl rfl), enterAll_cons]
      cases c.enter side.role p <;> rfl
  | more hinit hlast ih =>
      obtain ⟨first, more, rfl, hfirst, hmore⟩ := List.map_eq_append_iff.mp hls
      obtain ⟨⟨_, offset, stop⟩, rest, rfl, rfl, hrest⟩ := List.map_eq_cons_iff.mp hmore
      obtain ⟨ps, rfl, hplaces, hends, hreach⟩ := ih hfirst
      obtain ⟨p, rfl, hplace, hend, hreachLast⟩ := Entry.reach_eq (hrest ▸ hlast)
      have hcomma : entryPlaces (⟨.comma, offset, stop⟩ :: rest) = entryPlaces rest :=
        entryPlaces_cons_of_not_word (by rintro _ ⟨⟩) rest
      refine ⟨ps ++ [p], by simp, ?_, ?_, fun side c => ?_⟩
      · rw [entryPlaces_append hends (by rintro _ ⟨⟩; rfl), hplaces, hcomma, hplace,
          List.map_append, List.map_singleton]
      · have hne : rest ≠ [] := by
          rintro rfl
          cases hplace
        rw [List.append_cons, List.getLast?_append_of_ne_nil _ hne]
        exact hend
      · rw [Stage.reach_append, hreach, enterAll_append]
        cases c.enterAll side.role ps with
        | error fault => rfl
        | ok next =>
            change Stage.reach _ _ = Except.map _ (Except.bind (.ok next) _)
            rw [Stage.reach_cons (Stage.step_clause rfl rfl rfl),
              hreachLast side next _ (.inr rfl)]
            change _ = Except.map _ (Clause.enterAll _ _ [p])
            rw [enterAll_cons]
            cases next.enter side.role p <;> rfl

/-- A heading is read, unless the kind is empty, and holds no entries. -/
theorem Heading.reach_eq (h : Heading role kind (tokens.map Token.lexeme)) :
    (∀ more, entryPlaces (tokens ++ more) = entryPlaces more) ∧
    ∃ kindOffset, ∀ side : Side, side.role = role → (Stage.clause side .keyword).reach tokens =
      if kind = "" then .error (.malformed kindOffset .emptyKind)
      else .ok (.clause side (.firstKey (.new kind))) := by
  generalize hls : tokens.map Token.lexeme = ls at h
  cases h with
  | heading hkeyword hoptions =>
      simp only [List.map_eq_cons_iff, List.map_eq_nil_iff] at hls
      obtain ⟨⟨_, _, _⟩, _, rfl, rfl, ⟨_, _, _⟩, _, rfl, rfl, ⟨_, kindOffset, _⟩, _, rfl, rfl,
        ⟨_, _, _⟩, _, rfl, rfl, ⟨_, _, _⟩, _, rfl, rfl, ⟨_, _, _⟩, _, rfl, rfl, rfl⟩ := hls
      refine ⟨fun more => ?_, kindOffset, ?_⟩
      · change entryPlaces (_ :: _ :: _ :: _ :: _ :: _ :: more) = _
        rw [entryPlaces, placeAt?_of_not_equals rfl, entryPlaces_cons_of_not_word,
          entryPlaces_cons_of_not_word, entryPlaces_cons_of_not_word, entryPlaces,
          placeAt?_of_not_equals rfl, entryPlaces_cons_of_not_word]
        · rfl
        all_goals rintro _ ⟨⟩
      · rintro side rfl
        refine Eq.trans (Stage.reach_cons (Stage.step_clause rfl rfl (if_pos hkeyword))) ?_
        refine Eq.trans (Stage.reach_cons (Stage.step_clause rfl rfl rfl)) ?_
        -- The kind has been reached: an empty one is refused here, whatever follows.
        split
        · rename_i hkind
          subst hkind
          rfl
        · rename_i hkind
          refine Eq.trans (Stage.reach_cons (Stage.step_clause rfl rfl (if_neg hkind))) ?_
          refine Eq.trans (Stage.reach_cons (Stage.step_clause rfl rfl rfl)) ?_
          refine Eq.trans (Stage.reach_cons (Stage.step_clause rfl rfl (if_pos hoptions))) ?_
          rfl

/-- Options are read up to the parenthesis behind them. -/
theorem OptionList.reach_eq (h : OptionList (tokens.map Token.lexeme) es) {close : Token}
    (hclose : close.lexeme = .rightParen) :
    ∃ ps : List PlacedEntry, ps.map PlacedEntry.entry = es ∧
      entryPlaces (tokens ++ [close]) = ps.map PlacedEntry.toEntryPlace ∧
      ∀ side c, (Stage.clause side (.firstKey c)).reach (tokens ++ [close]) =
        (c.enterAll side.role ps).bind fun next => (Stage.afterClause side next).settle := by
  obtain ⟨_, offset, stop⟩ := close
  subst hclose
  generalize hls : tokens.map Token.lexeme = ls at h
  cases h with
  | none =>
      rw [List.map_eq_nil_iff] at hls
      subst hls
      exact ⟨[], rfl, rfl, fun side c => rfl⟩
  | some hentries =>
      subst hls
      obtain ⟨ps, rfl, hplaces, hlast, hreach⟩ := hentries.reach_eq
      refine ⟨ps, rfl, ?_, fun side c => ?_⟩
      · rw [entryPlaces_append hlast (by rintro _ ⟨⟩; rfl), hplaces]
        exact List.append_nil _
      · rw [Stage.reach_append, hreach]
        cases c.enterAll side.role ps with
        | error fault => rfl
        | ok next => rfl

/-- A clause is read, and its entries are checked where they stand. -/
theorem Clause.reach_eq (h : Clause role (tokens.map Token.lexeme) t) :
    ∃ a : PlacedClause, a.tree = t ∧ entryPlaces tokens = a.places ∧
      ∀ side : Side, side.role = role → (Stage.clause side .keyword).reach tokens =
        (a.check role).bind fun c => (Stage.afterClause side c).settle := by
  generalize hls : tokens.map Token.lexeme = ls at h
  cases h with
  | @clause kind ls ms es hheading hoptions =>
      rw [List.append_assoc] at hls
      obtain ⟨heading, rest, rfl, rfl, hrest⟩ := List.map_eq_append_iff.mp hls
      obtain ⟨options, closing, rfl, rfl, hclosing⟩ := List.map_eq_append_iff.mp hrest
      obtain ⟨close, rfl, hclose⟩ := List.map_eq_singleton_iff.mp hclosing
      obtain ⟨hplaces, kindOffset, hreach⟩ := hheading.reach_eq
      obtain ⟨ps, rfl, hoptionPlaces, hreachOptions⟩ := hoptions.reach_eq hclose
      refine ⟨⟨kind, kindOffset, ps⟩, rfl, (hplaces _).trans hoptionPlaces, ?_⟩
      rintro side rfl
      rw [Stage.reach_append, hreach side rfl, PlacedClause.check]
      split
      · rfl
      · exact hreachOptions side _

/-- No equals sign begins or ends a clause. -/
theorem Clause.exists_bounds (h : Clause role (tokens.map Token.lexeme) t) :
    (∃ first rest, tokens = first :: rest ∧ first.lexeme.isEquals = false) ∧
      ∀ token ∈ tokens.getLast?, token.lexeme.isEquals = false := by
  generalize hls : tokens.map Token.lexeme = ls at h
  cases h with
  | clause hheading hoptions =>
      obtain ⟨before, closing, rfl, hbefore, hclosing⟩ := List.map_eq_append_iff.mp hls
      obtain ⟨close, rfl, hclose⟩ := List.map_eq_singleton_iff.mp hclosing
      constructor
      · cases hheading
        obtain ⟨first, rest, rfl, hfirst, -⟩ := List.map_eq_cons_iff.mp hbefore
        refine ⟨first, _, rfl, ?_⟩
        rw [hfirst]
        rfl
      · intro token htoken
        rw [List.getLast?_concat, Option.mem_some_iff] at htoken
        rw [← htoken, hclose]
        rfl

/-- The clauses of a statement are read, and checked where they stand. -/
theorem Body.reach_eq {a b : ClauseTree} (h : Body (tokens.map Token.lexeme) a b) :
    ∃ source sink : PlacedClause, source.tree = a ∧ sink.tree = b ∧
      entryPlaces tokens = source.places ++ sink.places ∧
      (∀ token ∈ tokens.getLast?, token.lexeme.isEquals = false) ∧
      Stage.start.reach tokens = (planOfClauses source sink).map .complete := by
  generalize hls : tokens.map Token.lexeme = ls at h
  cases h with
  | @body w ls ms a b hword hsource hsink =>
      obtain ⟨⟨_, offset, stop⟩, rest, rfl, rfl, hrest⟩ := List.map_eq_cons_iff.mp hls
      obtain ⟨first, second, rfl, rfl, rfl⟩ := List.map_eq_append_iff.mp hrest
      obtain ⟨source, htree, hplaces, hreach⟩ := hsource.reach_eq
      obtain ⟨sink, htreeSink, hplacesSink, hreachSink⟩ := hsink.reach_eq
      obtain ⟨⟨keyword, more, rfl, hkeyword⟩, hend⟩ := hsource.exists_bounds
      obtain ⟨⟨keywordSink, moreSink, rfl, hkeywordSink⟩, hendSink⟩ := hsink.exists_bounds
      refine ⟨source, sink, htree, htreeSink, ?_, ?_, ?_⟩
      · rw [List.cons_append, entryPlaces, placeAt?_of_not_equals hkeyword]
        change entryPlaces (keyword :: more ++ _) = _
        rw [entryPlaces_append hend (by rintro _ ⟨⟩; exact hkeywordSink), hplaces, hplacesSink]
      · intro token htoken
        rw [← List.cons_append, List.getLast?_append_of_ne_nil _ (List.cons_ne_nil _ _)] at htoken
        exact hendSink token htoken
      · have hstep : Stage.start.step ⟨.word w, offset, stop⟩ = .ok (.clause .source .keyword) := by
          simp [Stage.step, Stage.settle, Stage.advance?, hword]
        rw [Stage.reach_cons hstep, Stage.reach_append, hreach .source rfl, planOfClauses]
        cases source.check .source with
        | error fault => rfl
        | ok c =>
            -- The source side is made before the first token of the sink clause is read.
            change ((sourceSide c).map _).bind _ = Except.map _ ((sourceSide c).bind _)
            cases sourceSide c with
            | error fault => rfl
            | ok first =>
                refine (hreachSink (.sink first) rfl).trans ?_
                change (sink.check .sink).bind _ = ((sink.check .sink).map _).map _
                cases sink.check .sink <;> rfl

end Grammar

/-- Tokens that derive from the grammar spell the plan of their clauses. -/
theorem planOf_of_sentence {tokens : List Token} {a b : ClauseTree} (stop : Nat)
    (h : Grammar.Sentence (tokens.map Token.lexeme) a b) :
    ∃ source sink : PlacedClause, source.tree = a ∧ sink.tree = b ∧
      entryPlaces tokens = source.places ++ sink.places ∧
      planOf tokens (.ok stop) = planOfClauses source sink := by
  have hplan : planOf tokens (.ok stop) =
      (Stage.start.reach tokens).bind fun stage => stage.finish stop := by
    rw [planOf, Stage.reach]
    cases Stage.start.run tokens with
    | error fault => rfl
    | ok stage => exact stage.finish_eq_bind_settle stop
  rw [hplan]
  generalize hls : tokens.map Token.lexeme = ls at h
  cases h with
  | bare hbody =>
      subst hls
      obtain ⟨source, sink, htree, htreeSink, hplaces, -, hreach⟩ := hbody.reach_eq
      refine ⟨source, sink, htree, htreeSink, hplaces, ?_⟩
      rw [hreach]
      cases planOfClauses source sink <;> rfl
  | terminated hbody =>
      obtain ⟨body, semicolon, rfl, rfl, hsemicolon⟩ := List.map_eq_append_iff.mp hls
      obtain ⟨⟨_, _, _⟩, rfl, rfl⟩ := List.map_eq_singleton_iff.mp hsemicolon
      obtain ⟨source, sink, htree, htreeSink, hplaces, hlast, hreach⟩ := hbody.reach_eq
      refine ⟨source, sink, htree, htreeSink, ?_, ?_⟩
      · rw [entryPlaces_append hlast (by rintro _ ⟨⟩; rfl), hplaces]
        exact List.append_nil _
      · rw [Stage.reach_append, hreach]
        cases planOfClauses source sink <;> rfl

/-- Lexemes that derive from the grammar and are admissible are the plan that is read off them. -/
theorem planOf_of_derives {tokens : List Token} {a b : ClauseTree} (stop : Nat)
    (h : Grammar.Sentence (tokens.map Token.lexeme) a b) (hadmissible : Admissible a b) :
    ∃ p, planOf tokens (.ok stop) = .ok p ∧ ReadOff a b p := by
  obtain ⟨source, sink, rfl, rfl, -, hplan⟩ := planOf_of_sentence stop h
  rw [hplan]
  exact exists_planOfClauses hadmissible

/-- What a text spells is the plan of its tokens, with faults at their places. -/
theorem parse_eq (text : String) : parse text =
    (planOf (scan text).1 (scan text).2).mapError (StatementFault.locate text) :=
  rfl

theorem parse_eq_ok {text : String} {p : Plan} :
    parse text = .ok p ↔ planOf (scan text).1 (scan text).2 = .ok p := by
  rw [parse_eq]
  cases planOf (scan text).1 (scan text).2 with
  | error e => exact ⟨nofun, nofun⟩
  | ok p' =>
      constructor <;>
        · intro h
          cases h
          rfl

/-- The parser accepts exactly its grammar: it reads a plan from a text if and only if the text is
all tokens and their lexemes derive from the grammar so that the clauses are admissible. The plan is
the one that is read off these clauses. -/
theorem parse_iff_derives (text : String) :
    ((∃ p, parse text = .ok p) ↔ ∃ tokens stop a b, scan text = (tokens, .ok stop) ∧
      Grammar.Sentence (tokens.map Token.lexeme) a b ∧ Admissible a b) ∧
    ∀ p, parse text = .ok p → ∀ tokens stop a b, scan text = (tokens, .ok stop) →
      Grammar.Sentence (tokens.map Token.lexeme) a b → Admissible a b → ReadOff a b p := by
  constructor
  · constructor
    · rintro ⟨p, hparse⟩
      obtain ⟨stop, a, b, hstop, hderives, hadmissible, -⟩ :=
        derives_of_planOf (parse_eq_ok.mp hparse)
      exact ⟨_, stop, a, b, Prod.ext rfl hstop, hderives, hadmissible⟩
    · rintro ⟨tokens, stop, a, b, hscan, hderives, hadmissible⟩
      obtain ⟨p, hplan, -⟩ := planOf_of_derives stop hderives hadmissible
      refine ⟨p, parse_eq_ok.mpr ?_⟩
      rw [hscan]
      exact hplan
  · intro p hparse tokens stop a b hscan hderives hadmissible
    obtain ⟨q, hplan, hread⟩ := planOf_of_derives stop hderives hadmissible
    rw [parse_eq_ok, hscan, hplan, Except.ok.injEq] at hparse
    exact hparse ▸ hread

end BatchTransfer.Statement
