import BatchTransfer.Proofs.Statement.Chunks
import BatchTransfer.Proofs.Statement.Completeness
import Mathlib.Logic.Relation

/-!
# Spelling a statement in another way

Blanks and comments may be put in where a token begins or ends, and words that are no names of options
may be written in other letter cases. `Respells` is one such change to a text. The first kind leaves
the lexemes as they are (`outline_insert`), the second leaves everything else as it is
(`scanFrom_recase`) and the parser does not notice it (`Stage.step_recase`). So a text is accepted just
if it is accepted after any number of changes, as the same plan: `Respells.parse_iff`.
-/

namespace BatchTransfer.Statement

open BatchTransfer.Text

/-! ### Places in a text -/

/-- The longer of two beginnings of a text goes on from the shorter one. -/
theorem exists_append_of_byteLength_le {before after before' after' : List Char}
    (h : before ++ after = before' ++ after') (hle : byteLength before ≤ byteLength before') :
    ∃ between, before' = before ++ between ∧ after = between ++ after' := by
  obtain ⟨between, rfl, rfl⟩ | ⟨between, rfl, rfl⟩ := List.append_eq_append_iff.mp h
  · exact ⟨between, rfl, rfl⟩
  · rw [byteLength_append] at hle
    cases byteLength_eq_zero.mp (Nat.eq_zero_of_le_zero (by omega : byteLength between ≤ 0))
    exact ⟨[], by simp, by simp⟩

/-- Beginnings of a text with the same number of bytes are the same. -/
theorem append_inj_of_byteLength_eq {before after before' after' : List Char}
    (h : before ++ after = before' ++ after') (hlength : byteLength before = byteLength before') :
    before = before' ∧ after = after' := by
  obtain ⟨between, rfl, rfl⟩ := exists_append_of_byteLength_le h (Nat.le_of_eq hlength)
  rw [byteLength_append] at hlength
  cases byteLength_eq_zero.mp (by omega : byteLength between = 0)
  exact ⟨(List.append_nil _).symm, rfl⟩

/-- A beginning of a text that goes on behind its first token. -/
theorem exists_append_behind {gap chunk rest before after : List Char} {c : Char}
    (h : before ++ after = gap ++ c :: (chunk ++ rest))
    (hle : byteLength gap + byteLength (c :: chunk) ≤ byteLength before) :
    ∃ between, before = gap ++ c :: chunk ++ between ∧ rest = between ++ after := by
  rw [← byteLength_append] at hle
  refine exists_append_of_byteLength_le ?_ hle
  rw [h, List.append_assoc, List.cons_append]

/-! ### Blanks and comments -/

theorem Gap.alike {gap : List Char} (h : Gap gap) (rest : List Char) : Alike rest (gap ++ rest) := by
  cases gap with
  | nil => exact .refl rest
  | cons c cs => exact .inl (h.stops (List.cons_ne_nil c cs) rest)

/-- What is passed over in front of a text leaves its tokens as they are. -/
theorem outline_gap {gap : List Char} (h : Gap gap) (offset offset' : Nat) (cs : List Char) :
    outline ⟨offset, gap ++ cs⟩ = outline ⟨offset', cs⟩ := by
  have hskip : Cursor.skip ⟨offset, gap ++ cs⟩ = Cursor.skip ⟨offset + byteLength gap, cs⟩ :=
    h offset cs
  rw [outline, scanFrom_congr hskip]
  exact outline_offset _ _ cs

/-- What comes behind a token that does not go on with it gives the other lexemes. -/
theorem outline_chunk {gap chunk rest rest' : List Char} {c : Char} {lexeme : Lexeme}
    (hgap : Gap gap) (hchunk : Chunk c chunk rest lexeme) (hrest : Alike rest rest')
    (offset offset' : Nat) :
    outline ⟨offset, gap ++ c :: (chunk ++ rest')⟩ =
      (lexeme :: (outline ⟨offset', rest'⟩).1, (outline ⟨offset', rest'⟩).2) := by
  rw [outline_offset offset' (offset + byteLength gap + byteLength (c :: chunk)), outline, outline,
    scanFrom_chunk hgap hchunk hrest]
  rfl

/-- A token of a text does not begin in front of the place where the text stands. -/
theorem le_offset_of_mem {cs : List Char} {offset : Nat} {token : Token}
    (h : token ∈ (scanFrom ⟨offset, cs⟩).1) :
    offset ≤ token.offset ∧ token.offset ≤ token.stop := by
  obtain ⟨before, c, chunk, rest, -, -, hoffset, hstop⟩ := exists_chunk_of_mem h
  omega

/-- What is passed over, put in where a token begins or ends, leaves the lexemes as they are. -/
theorem outline_insert {filler after : List Char} (hfiller : Gap filler) (before : List Char)
    (offset : Nat)
    (hboundary : ∃ token ∈ (scanFrom ⟨offset, before ++ after⟩).1,
      token.offset = offset + byteLength before ∨ token.stop = offset + byteLength before) :
    outline ⟨offset, before ++ (filler ++ after)⟩ = outline ⟨offset, before ++ after⟩ := by
  generalize hcs : before ++ after = cs at hboundary
  induction cs using scan_induction generalizing before offset with
  | nothing cs ended hnothing =>
      obtain ⟨token, hmem, -⟩ := hboundary
      rw [(hnothing offset).1] at hmem
      cases hmem
  | token gap c chunk rest lexeme hgap hchunk ih =>
      obtain ⟨token, hmem, hplace⟩ := hboundary
      rw [scanFrom_chunk hgap hchunk (.refl rest)] at hmem
      by_cases hfirst : byteLength before = byteLength gap
      · -- The first token begins here.
        obtain ⟨rfl, rfl⟩ := append_inj_of_byteLength_eq hcs hfirst
        rw [← List.append_assoc, outline_gap (hgap.append hfiller) offset 0,
          outline_gap hgap offset 0]
      · -- Here the first token ends, or another one begins or ends.
        have hbehind : byteLength gap + byteLength (c :: chunk) ≤ byteLength before := by
          cases hmem with
          | head =>
              dsimp only at hplace
              omega
          | tail _ hmem =>
              have hlater := le_offset_of_mem hmem
              omega
        obtain ⟨between, rfl, rfl⟩ := exists_append_behind hcs hbehind
        have hsame : outline ⟨0, between ++ (filler ++ after)⟩ = outline ⟨0, between ++ after⟩ := by
          simp only [byteLength_append] at hplace
          cases hmem with
          | head =>
              dsimp only at hplace
              cases byteLength_eq_zero.mp (by omega : byteLength between = 0)
              exact outline_gap hfiller 0 0 after
          | tail _ hmem =>
              have hnext := ih between (offset + byteLength gap + byteLength (c :: chunk)) rfl
                ⟨token, hmem, by omega⟩
              rw [outline_offset 0 _ (between ++ (filler ++ after)), hnext]
              exact outline_offset _ _ _
        have halike : Alike (between ++ after) (between ++ (filler ++ after)) :=
          (hfiller.alike after).append between
        simp only [List.append_assoc, List.cons_append]
        rw [outline_chunk hgap hchunk halike offset 0, outline_chunk hgap hchunk (.refl _) offset 0,
          hsame]

/-! ### Letter case -/

theorem utf8Size_toLower (c : Char) : c.toLower.utf8Size = c.utf8Size := by
  have hcode := toNat_toLower c
  split at hcode
  · have hsize {d : Char} (hd : d.toNat ≤ 122) : d.utf8Size = 1 := by
      rw [Char.utf8Size, if_pos]
      rw [UInt32.le_iff_toNat_le]
      exact Nat.le_trans hd (by decide)
    rw [hsize (by omega), hsize (by omega)]
  · rw [Char.toNat_inj.mp hcode]

/-- Texts that differ in letter case only have the same number of bytes. -/
theorem byteLength_eq_of_map_toLower {cs ds : List Char}
    (h : cs.map Char.toLower = ds.map Char.toLower) : byteLength cs = byteLength ds := by
  induction cs generalizing ds with
  | nil =>
      rw [List.map_eq_nil_iff.mp h.symm]
  | cons c cs ih =>
      obtain ⟨d, ds, rfl, hc, hcs⟩ := List.map_eq_cons_iff.mp h.symm
      rw [byteLength_cons, byteLength_cons, ih hcs.symm, ← utf8Size_toLower c, ← hc,
        utf8Size_toLower]

theorem Alike.of_map_toLower {cs ds : List Char} (h : cs.map Char.toLower = ds.map Char.toLower)
    (rest : List Char) : Alike (cs ++ rest) (ds ++ rest) := by
  cases cs with
  | nil =>
      rw [List.map_eq_nil_iff.mp h.symm]
      exact .refl _
  | cons c cs =>
      obtain ⟨d, ds, rfl, hc, -⟩ := List.map_eq_cons_iff.mp h.symm
      exact .inr (congrArg some hc)

/-- What is read as a word is the characters of the word. -/
theorem Chunk.of_word {c : Char} {chunk rest : List Char} {w : String}
    (h : Chunk c chunk rest (.word w)) :
    w.toList = c :: chunk ∧ isWordStart c = true ∧ (∀ d ∈ c :: chunk, isWordChar d = true) ∧
      Stops rest := by
  have hscan := h 0 rest (.refl rest)
  obtain hsign | hliteral | ⟨hstart, word, hlexeme, hcs, hchars, hstops⟩ := scanLexeme_cases hscan
  · unfold signOf? at hsign
    repeat' split at hsign
    all_goals cases hsign
  · cases hliteral
  · have hword : c :: chunk = word := by
      rw [← List.cons_append] at hcs
      exact List.append_cancel_right hcs
    cases hlexeme
    rw [String.toList_ofList, hword]
    exact ⟨rfl, hstart, hchars, hstops⟩

/-- A word in another letter case is read as a word in its place. -/
theorem Chunk.recase {c : Char} {chunk rest : List Char} {w w' : String}
    (h : Chunk c chunk rest (.word w)) (hcase : equalFold w w' = true) :
    ∃ d ds, w'.toList = d :: ds ∧ byteLength (d :: ds) = byteLength (c :: chunk) ∧
      Chunk d ds rest (.word w') := by
  obtain ⟨hw, hstart, hchars, hstops⟩ := h.of_word
  rw [equalFold, beq_iff_eq, hw] at hcase
  obtain ⟨d, ds, hw', hd, hds⟩ := List.map_eq_cons_iff.mp hcase.symm
  refine ⟨d, ds, hw', ?_, ?_⟩
  · rw [← hw']
    exact byteLength_eq_of_map_toLower hcase.symm
  · have hstart' : isWordStart d = true := by
      rw [isWordStart_toLower, hd, ← isWordStart_toLower]
      exact hstart
    have hchars' : ∀ e ∈ d :: ds, isWordChar e = true := by
      intro e he
      have hmem : e.toLower ∈ (c :: chunk).map Char.toLower := by
        rw [hcase, hw']
        exact List.mem_map_of_mem he
      obtain ⟨e', he', hsame⟩ := List.mem_map.mp hmem
      rw [isWordChar_toLower, ← hsame, ← isWordChar_toLower]
      exact hchars e' he'
    have hword := Chunk.word hstart' hchars' hstops
    rwa [← hw', String.ofList_toList] at hword

/-- Where a word is written in another letter case, that word alone changes. -/
theorem scanFrom_recase {w w' : String} (hcase : equalFold w w' = true) {after : List Char}
    {more : List Token} {stop : Nat} (before : List Char) (offset : Nat) (tokens : List Token)
    (hscan : (scanFrom ⟨offset, before ++ (w.toList ++ after)⟩).1 =
      tokens ++ ⟨.word w, offset + byteLength before, stop⟩ :: more) :
    scanFrom ⟨offset, before ++ (w'.toList ++ after)⟩ =
      (tokens ++ ⟨.word w', offset + byteLength before, stop⟩ :: more,
        (scanFrom ⟨offset, before ++ (w.toList ++ after)⟩).2) := by
  generalize hcs : before ++ (w.toList ++ after) = cs at hscan ⊢
  induction cs using scan_induction generalizing before offset tokens with
  | nothing cs ended hnothing =>
      rw [(hnothing offset).1] at hscan
      cases List.append_eq_nil_iff.mp hscan.symm |>.2
  | token gap c chunk rest lexeme hgap hchunk ih =>
      rw [scanFrom_chunk hgap hchunk (.refl rest)] at hscan ⊢
      cases tokens with
      | nil =>
          obtain ⟨hfirst, hmore⟩ := List.cons.inj hscan
          obtain ⟨hlexeme, hplace, hstop⟩ := Token.mk.inj hfirst
          subst hlexeme hmore hstop
          obtain ⟨rfl, hrest⟩ := append_inj_of_byteLength_eq hcs (by omega)
          obtain ⟨hw, -⟩ := hchunk.of_word
          obtain ⟨d, ds, hw', hlength, hword⟩ := hchunk.recase hcase
          rw [hw, ← List.cons_append] at hrest
          cases List.append_cancel_left hrest
          rw [hw', List.cons_append, scanFrom_chunk hgap hword (.refl _), hlength]
          rfl
      | cons token tokens =>
          obtain ⟨hfirst, hmore⟩ := List.cons.inj hscan
          have hmem : ⟨.word w, offset + byteLength before, stop⟩ ∈ (scanFrom
              ⟨offset + byteLength gap + byteLength (c :: chunk), rest⟩).1 := by
            rw [hmore]
            exact List.mem_append_right _ List.mem_cons_self
          have hlater : offset + byteLength gap + byteLength (c :: chunk) ≤
              offset + byteLength before := (le_offset_of_mem hmem).1
          obtain ⟨between, rfl, rfl⟩ := exists_append_behind hcs (by omega)
          have halike : Alike (between ++ (w.toList ++ after)) (between ++ (w'.toList ++ after)) :=
            (Alike.of_map_toLower (eq_of_beq hcase) after).append between
          have hplace : offset + byteLength (gap ++ c :: chunk ++ between) =
              offset + byteLength gap + byteLength (c :: chunk) + byteLength between := by
            simp only [byteLength_append]
            omega
          rw [hplace] at hmore ⊢
          have hnext := ih between _ tokens rfl hmore
          simp only [List.append_assoc, List.cons_append]
          rw [scanFrom_chunk hgap hchunk halike, hnext, hfirst]

/-! ### What the parser makes of it -/

theorem equalFold_congr {w w' : String} (h : equalFold w w' = true) (keyword : String) :
    equalFold w keyword = equalFold w' keyword := by
  rw [equalFold, beq_iff_eq] at h
  rw [equalFold, equalFold, h]

/-- Whether the next word is the name of an option. -/
def Stage.awaitsName : Stage → Bool
  | clause _ (.firstKey _) | clause _ (.nextKey _) => true
  | _ => false

/-- Whether the next word is the name of an option when the tokens have been read. -/
def AwaitsName (tokens : List Token) : Prop :=
  ∃ stage, Stage.run .start tokens = .ok stage ∧ stage.awaitsName = true

section Recase

variable {w w' : String} {stage : Stage} {offset stop : Nat}

theorem scalar?_recase (hcase : equalFold w w' = true) : scalar? (.word w) = scalar? (.word w') := by
  simp only [scalar?, equalFold_congr hcase]

/-- A keyword or a truth value is read in any letter case. -/
theorem Stage.advance?_recase (hcase : equalFold w w' = true) (hname : stage.awaitsName = false) :
    stage.advance? ⟨.word w, offset, stop⟩ = stage.advance? ⟨.word w', offset, stop⟩ := by
  cases stage with
  | start => simp only [Stage.advance?, equalFold_congr hcase]
  | clause side clauseStage =>
      cases clauseStage with
      | firstKey | nextKey => cases hname
      | keyword | optionsWord =>
          simp only [Stage.advance?, ClauseStage.completed?, ClauseStage.advance?,
            equalFold_congr hcase]
      | value | item =>
          simp only [Stage.advance?, ClauseStage.completed?, ClauseStage.advance?, listItem?,
            scalar?_recase hcase]
      | _ => rfl
  | _ => rfl

/-- The checks that wait do not come to the name of an option. -/
theorem Stage.awaitsName_of_settle {settled : Stage} (h : stage.settle = .ok settled)
    (hname : stage.awaitsName = false) : settled.awaitsName = false := by
  cases stage with
  | start | complete | ended =>
      cases h
      rfl
  | sourceRead c =>
      rw [Stage.settle] at h
      cases hside : sourceSide c with
      | error e =>
          rw [hside] at h
          cases h
      | ok first =>
          rw [hside] at h
          cases h
          rfl
  | clause side clauseStage =>
      cases clauseStage with
      | afterValue c entry offset v =>
          rw [Stage.settle, ClauseStage.settle] at h
          split at h <;> cases h
          rfl
      | _ =>
          cases h
          exact hname

/-- A step with a word that is no name of an option does not depend on its letter case. -/
theorem Stage.step_recase (hcase : equalFold w w' = true) (hname : stage.awaitsName = false)
    {next : Stage} :
    stage.step ⟨.word w, offset, stop⟩ = .ok next ↔
      stage.step ⟨.word w', offset, stop⟩ = .ok next := by
  rw [Stage.step, Stage.step]
  cases hsettle : stage.settle with
  | error fault => constructor <;> (intro h; cases h)
  | ok settled =>
      have hsame : settled.advance? ⟨.word w, offset, stop⟩ =
          settled.advance? ⟨.word w', offset, stop⟩ :=
        Stage.advance?_recase hcase (Stage.awaitsName_of_settle hsettle hname)
      simp only [hsame]
      cases settled.advance? ⟨.word w', offset, stop⟩ with
      | none => constructor <;> (intro h; cases h)
      | some advanced => exact Iff.rfl

/-- Tokens that are read in a row are read one part after the other. -/
theorem Stage.exists_run_of_append {stage last : Stage} {tokens more : List Token}
    (h : stage.run (tokens ++ more) = .ok last) :
    ∃ middle, stage.run tokens = .ok middle ∧ middle.run more = .ok last := by
  induction tokens generalizing stage with
  | nil => exact ⟨stage, rfl, h⟩
  | cons token tokens ih =>
      rw [List.cons_append, Stage.run] at h
      rw [Stage.run]
      cases hstep : stage.step token with
      | error fault =>
          rw [hstep] at h
          cases h
      | ok next =>
          rw [hstep] at h
          exact ih h

/-- Tokens in which a word has another letter case are read to the same stage. -/
theorem Stage.run_recase {tokens more : List Token} (hcase : equalFold w w' = true)
    (hname : ¬ AwaitsName tokens) {last : Stage}
    (h : Stage.run .start (tokens ++ ⟨.word w, offset, stop⟩ :: more) = .ok last) :
    Stage.run .start (tokens ++ ⟨.word w', offset, stop⟩ :: more) = .ok last := by
  obtain ⟨stage, hstage, hmore⟩ := Stage.exists_run_of_append h
  have hawaits : stage.awaitsName = false :=
    Bool.eq_false_iff.mpr fun hawaits => hname ⟨stage, hstage, hawaits⟩
  rw [Stage.run_append hstage]
  rw [Stage.run] at hmore ⊢
  cases hstep : stage.step ⟨.word w, offset, stop⟩ with
  | error fault =>
      rw [hstep] at hmore
      cases hmore
  | ok next =>
      rw [hstep] at hmore
      rw [(Stage.step_recase hcase hawaits).mp hstep]
      exact hmore

theorem planOf_recase {tokens more : List Token} {ending : Ending} (hcase : equalFold w w' = true)
    (hname : ¬ AwaitsName tokens) {p : Plan}
    (h : planOf (tokens ++ ⟨.word w, offset, stop⟩ :: more) ending = .ok p) :
    planOf (tokens ++ ⟨.word w', offset, stop⟩ :: more) ending = .ok p := by
  rw [planOf] at h ⊢
  cases hrun : Stage.run .start (tokens ++ ⟨.word w, offset, stop⟩ :: more) with
  | error fault =>
      rw [hrun] at h
      cases h
  | ok stage =>
      rw [hrun] at h
      rw [Stage.run_recase hcase hname hrun]
      exact h

end Recase

/-- Texts with the same lexemes are the same plan. -/
theorem parse_of_outline {text text' : String}
    (h : outline (.start text) = outline (.start text')) {p : Plan} (hparse : parse text = .ok p) :
    parse text' = .ok p := by
  obtain ⟨stop, a, b, hstop, hderives, hadmissible, hread⟩ :=
    derives_of_planOf (parse_eq_ok.mp hparse)
  obtain ⟨hlexemes, hended⟩ := Prod.mk.inj h
  obtain ⟨stop', hstop'⟩ : ∃ stop', (scan text').2 = .ok stop' := by
    have hok : (scan text').2.isOk = true := hended.symm.trans (by rw [← scan, hstop]; rfl)
    cases hending : (scan text').2 with
    | ok stop' => exact ⟨stop', rfl⟩
    | error e =>
        rw [hending] at hok
        cases hok
  rw [show (scan text).1.map Token.lexeme = (scan text').1.map Token.lexeme from hlexemes]
    at hderives
  obtain ⟨q, hplan, hq⟩ := planOf_of_derives stop' hderives hadmissible
  rw [parse_eq_ok, hstop', hplan, hq.unique hread]

/-! ### Changes to a text -/

/-- What may be put in between two tokens: a run of blanks, or a comment with the end of its line. -/
inductive Filler : List Char → Prop where
  | blanks {cs : List Char} (h : ∀ c ∈ cs, isBlank c = true) : Filler cs
  | comment {body : List Char} (h : '\n' ∉ body) : Filler ('-' :: '-' :: (body ++ ['\n']))

theorem Filler.gap {filler : List Char} (h : Filler filler) : Gap filler := by
  cases h with
  | comment h => exact .comment h
  | blanks h =>
      induction filler with
      | nil => exact .nil
      | cons c cs ih =>
          exact (Gap.blank (h c List.mem_cons_self)).append
            (ih fun d hd => h d (List.mem_cons_of_mem c hd))

/-- Whether a token of the text begins or ends at the byte offset. -/
def IsBoundary (text : String) (offset : Nat) : Prop :=
  ∃ token ∈ (scan text).1, token.offset = offset ∨ token.stop = offset

/-- One change to the spelling of a text: blanks or a comment are put in where a token begins or ends,
or a word is written in another letter case which is not read as the name of an option. -/
inductive Respells : String → String → Prop where
  | filled {text : String} {before filler after : List Char} (htext : text.toList = before ++ after)
      (hboundary : IsBoundary text (byteLength before)) (hfiller : Filler filler) :
      Respells text (String.ofList (before ++ (filler ++ after)))
  | recased {text w w' : String} {before after : List Char} {tokens more : List Token} {stop : Nat}
      (htext : text.toList = before ++ (w.toList ++ after))
      (hscan : (scan text).1 = tokens ++ ⟨.word w, byteLength before, stop⟩ :: more)
      (hname : ¬ AwaitsName tokens) (hcase : equalFold w w' = true) :
      Respells text (String.ofList (before ++ (w'.toList ++ after)))

namespace Respells

theorem step_iff {text text' : String} (h : Respells text text') (p : Plan) :
    parse text' = .ok p ↔ parse text = .ok p := by
  cases h with
  | @filled before filler after htext hboundary hfiller =>
      have hsame : outline (.start (String.ofList (before ++ (filler ++ after)))) =
          outline (.start text) := by
        obtain ⟨token, hmem, hplace⟩ := hboundary
        rw [scan, Cursor.start, htext] at hmem
        rw [Cursor.start, Cursor.start, String.toList_ofList, htext]
        exact outline_insert hfiller.gap before 0 ⟨token, hmem, by omega⟩
      exact ⟨parse_of_outline hsame, parse_of_outline hsame.symm⟩
  | @recased w w' before after tokens more stop htext hscan hname hcase =>
      have hrecased : scan (String.ofList (before ++ (w'.toList ++ after))) =
          (tokens ++ ⟨.word w', byteLength before, stop⟩ :: more, (scan text).2) := by
        rw [scan, Cursor.start, htext] at hscan
        rw [scan, scan, Cursor.start, Cursor.start, String.toList_ofList, htext]
        rw [← Nat.zero_add (byteLength before)] at hscan ⊢
        exact scanFrom_recase hcase before 0 tokens hscan
      rw [parse_eq_ok, parse_eq_ok, hrecased, hscan]
      exact ⟨planOf_recase ((equalFold_comm w' w).trans hcase) hname, planOf_recase hcase hname⟩

/-- Only tokens matter. However often blanks or comments are put into a text where a token begins or
ends, and words that are no names of options are written in another letter case, the text is accepted
just if it was accepted before, and then as the same plan. -/
theorem parse_iff {text text' : String} (h : Relation.ReflTransGen Respells text text') (p : Plan) :
    parse text' = .ok p ↔ parse text = .ok p := by
  induction h with
  | refl => exact Iff.rfl
  | tail _ hlast ih => exact (hlast.step_iff p).trans ih

/-- What stands behind the first keyword of a statement. -/
def behindKeyword : List Char := " SOURCE('a') OPTIONS(x=true) SINK('b') OPTIONS()".toList

/-- A statement that begins with a keyword. -/
def statementOf (keyword : List Char) : String := String.ofList (keyword ++ behindKeyword)

/-- The first keyword may be written in small letters, with a comment in front of it. -/
theorem parse_iff_keyword :
    ∃ p, parse (statementOf "DATATUNNEL".toList) = .ok p ∧
      parse (statementOf (['-', '-', '\n'] ++ "datatunnel".toList)) = .ok p := by
  have haccepted : (parse (statementOf "DATATUNNEL".toList)).isOk = true := by decide +kernel
  have hrecased : Respells (statementOf "DATATUNNEL".toList) (statementOf "datatunnel".toList) := by
    have hkeyword : "DATATUNNEL".toList = 'D' :: "ATATUNNEL".toList := by decide
    have hletters : ('D' :: "ATATUNNEL".toList).all isWordChar = true := by decide
    have hblank : behindKeyword.head? = some ' ' := by decide
    have hword : Chunk 'D' "ATATUNNEL".toList behindKeyword (.word "DATATUNNEL") := by
      refine .word (by decide) (List.all_eq_true.mp hletters) fun d hd => ?_
      rw [hblank] at hd
      cases hd
      decide
    obtain ⟨stop, more, hscan⟩ : ∃ stop more, (scan (statementOf "DATATUNNEL".toList)).1 =
        [] ++ ⟨.word "DATATUNNEL", byteLength [], stop⟩ :: more := by
      rw [scan, Cursor.start, statementOf, String.toList_ofList, hkeyword, List.cons_append]
      exact ⟨_, _, congrArg Prod.fst (scanFrom_chunk Gap.nil hword (.refl behindKeyword) 0)⟩
    have hname : ¬ AwaitsName [] := by
      rintro ⟨stage, hstage, hawaits⟩
      cases hstage
      cases hawaits
    have htext : (statementOf "DATATUNNEL".toList).toList =
        [] ++ ("DATATUNNEL".toList ++ behindKeyword) := String.toList_ofList
    have hcase : equalFold "DATATUNNEL" "datatunnel" = true := by decide
    have hsmall := Respells.recased htext hscan hname hcase
    rw [List.nil_append] at hsmall
    exact hsmall
  have hfilled : Respells (statementOf "datatunnel".toList)
      (statementOf (['-', '-', '\n'] ++ "datatunnel".toList)) := by
    have hboundary : (scan (statementOf "datatunnel".toList)).1.any (·.offset == 0) = true := by
      decide +kernel
    obtain ⟨token, hmem, hoffset⟩ := List.any_eq_true.mp hboundary
    have hstarts : IsBoundary (statementOf "datatunnel".toList) (byteLength []) :=
      ⟨token, hmem, .inl (eq_of_beq hoffset)⟩
    have hcomment : Filler ('-' :: '-' :: ([] ++ ['\n'])) := .comment List.not_mem_nil
    have htext : (statementOf "datatunnel".toList).toList =
        [] ++ ("datatunnel".toList ++ behindKeyword) := String.toList_ofList
    have hcommented := Respells.filled htext hstarts hcomment
    rw [statementOf, statementOf, List.append_assoc]
    rw [statementOf] at hcommented
    exact hcommented
  cases hparse : parse (statementOf "DATATUNNEL".toList) with
  | error e =>
      rw [hparse] at haccepted
      cases haccepted
  | ok p => exact ⟨p, rfl, (parse_iff (.tail (.single hrecased) hfilled) p).mpr hparse⟩

end Respells

end BatchTransfer.Statement
