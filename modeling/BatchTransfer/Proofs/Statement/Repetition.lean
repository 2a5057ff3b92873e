import BatchTransfer.Proofs.Statement.Completeness
import Mathlib

/-!
# Keys that are given twice

A text that derives from the grammar is refused at the first key that its source repeats, then at a
result table without a name, then at the first key that its sink repeats, and is a statement
otherwise (`reports_first_repetition`). The places are those of the tokens, so the answer does not
depend on where the parser keeps the entries of a clause.
-/

namespace BatchTransfer.Statement

open BatchTransfer.Text

section Outcome

variable {a b : PlacedClause}

/-- A source clause that repeats a key is refused, whatever the sink clause is. -/
theorem planOfClauses_of_source_repeats (ha : a.kind ≠ "") (hkeys : ¬ a.tree.keys.Nodup) :
    ∃ repeated, FirstRepetition a.places repeated ∧
      planOfClauses a b = .error (.duplicateKey repeated.offset .source repeated.key) := by
  obtain ⟨repeated, hrepeated, hcheck⟩ := a.exists_check_error ha hkeys .source
  exact ⟨repeated, hrepeated, by rw [planOfClauses, hcheck]; rfl⟩

/-- A source clause that does not name its result table is refused, whatever the sink clause is. -/
theorem planOfClauses_of_unnamed (ha : a.kind ≠ "") (hkeys : a.tree.keys.Nodup)
    (hnames : ¬ a.tree.NamesResultTable) :
    ∃ place ∈ a.places, place.key = resultTableKey ∧
      planOfClauses a b = .error (.malformed place.valueOffset .unnamedResultTable) := by
  obtain ⟨c, hc⟩ := a.exists_check ha hkeys .source
  obtain ⟨place, hmem, hkey, hside⟩ := PlacedClause.exists_sourceSide_error hc hnames
  refine ⟨place, hmem, hkey, ?_⟩
  rw [planOfClauses, hc, Except.bind, hside]
  rfl

/-- A sink clause that repeats a key is refused behind a source clause that passes. -/
theorem planOfClauses_of_sink_repeats (ha : a.tree.Admissible) (hnames : a.tree.NamesResultTable)
    (hb : b.kind ≠ "") (hkeys : ¬ b.tree.keys.Nodup) :
    ∃ repeated, FirstRepetition b.places repeated ∧
      planOfClauses a b = .error (.duplicateKey repeated.offset .sink repeated.key) := by
  obtain ⟨c, hc⟩ := a.exists_check ha.kind_ne ha.keys_nodup .source
  obtain ⟨first, hfirst⟩ := (PlacedClause.holds_of_check hc).exists_sourceSide hnames
  obtain ⟨repeated, hrepeated, hcheck⟩ := b.exists_check_error hb hkeys .sink
  refine ⟨repeated, hrepeated, ?_⟩
  rw [planOfClauses, hc, Except.bind, hfirst, Except.bind, hcheck]
  rfl

end Outcome

/-- What becomes of a text that derives from the grammar, with names for both connectors. The keys of
the two clauses stand at the places of the text's entries, one clause behind the other. If the source
gives a key twice, the error is the first repetition in the source; otherwise, if it has an entry for
the result table that does not name it, the value of this entry; otherwise, if the sink gives a key
twice, the first repetition in the sink. A text with none of these is a statement. -/
theorem reports_first_repetition (text : String) (tokens : List Token) (stop : Nat)
    (a b : ClauseTree) (hscan : scan text = (tokens, .ok stop))
    (hderives : Grammar.Sentence (tokens.map Token.lexeme) a b) (ha : a.kind ≠ "")
    (hb : b.kind ≠ "") :
    ∃ source sink : List EntryPlace, entryPlaces tokens = source ++ sink ∧
      source.map (·.key) = a.keys ∧ sink.map (·.key) = b.keys ∧
      (¬ a.keys.Nodup → ∃ repeated, FirstRepetition source repeated ∧ parse text =
        .error (.duplicateKey (.locate text repeated.offset) .source repeated.key)) ∧
      (a.keys.Nodup → ¬ a.NamesResultTable → ∃ place ∈ source, place.key = resultTableKey ∧
        parse text = .error (.malformed (.locate text place.valueOffset) .unnamedResultTable)) ∧
      (a.keys.Nodup → a.NamesResultTable → ¬ b.keys.Nodup →
        ∃ repeated, FirstRepetition sink repeated ∧ parse text =
          .error (.duplicateKey (.locate text repeated.offset) .sink repeated.key)) ∧
      (a.keys.Nodup → a.NamesResultTable → b.keys.Nodup →
        ∃ p, parse text = .ok p ∧ ReadOff a b p) := by
  obtain ⟨source, sink, rfl, rfl, hplaces, hplan⟩ := planOf_of_sentence stop hderives
  have hparse : parse text = (planOfClauses source sink).mapError (StatementFault.locate text) := by
    rw [parse_eq, hscan, hplan]
  rw [hparse]
  refine ⟨source.places, sink.places, hplaces, source.keys_tree.symm, sink.keys_tree.symm,
    ?sourceRepeats, ?unnamed, ?sinkRepeats, ?passes⟩
  case sourceRepeats =>
    intro hkeys
    obtain ⟨repeated, hrepeated, hfault⟩ := planOfClauses_of_source_repeats ha hkeys
    exact ⟨repeated, hrepeated, by rw [hfault]; rfl⟩
  case unnamed =>
    intro hkeys hnames
    obtain ⟨place, hmem, hkey, hfault⟩ := planOfClauses_of_unnamed ha hkeys hnames
    exact ⟨place, hmem, hkey, by rw [hfault]; rfl⟩
  case sinkRepeats =>
    intro hkeys hnames hsinkKeys
    obtain ⟨repeated, hrepeated, hfault⟩ :=
      planOfClauses_of_sink_repeats ⟨ha, hkeys⟩ hnames hb hsinkKeys
    exact ⟨repeated, hrepeated, by rw [hfault]; rfl⟩
  case passes =>
    intro hkeys hnames hsinkKeys
    obtain ⟨p, hp, hread⟩ := exists_planOfClauses ⟨⟨ha, hkeys⟩, ⟨hb, hsinkKeys⟩, hnames⟩
    exact ⟨p, by rw [hp]; rfl, hread⟩

/-- A statement whose source gives a key twice. -/
def repeatedKey : String := "DATATUNNEL SOURCE('a') OPTIONS(k='x', k='y') SINK('b') OPTIONS()"

/-- The error names the key that is given twice, and its side. -/
theorem reports_first_repetition_repeatedKey :
    ∃ position, parse repeatedKey = .error (.duplicateKey position .source "k") := by
  have hlexemes : (scan repeatedKey).1.map Token.lexeme =
      [.word "DATATUNNEL", .word "SOURCE", .leftParen, .quoted "a", .rightParen, .word "OPTIONS",
        .leftParen, .word "k", .equals, .quoted "x", .comma, .word "k", .equals, .quoted "y",
        .rightParen, .word "SINK", .leftParen, .quoted "b", .rightParen, .word "OPTIONS", .leftParen,
        .rightParen] := by
    cbv
  obtain ⟨stop, hstop⟩ : ∃ stop, (scan repeatedKey).2 = .ok stop := ⟨64, by cbv⟩
  have hword : equalFold "DATATUNNEL" "DATATUNNEL" = true := by decide
  have hoptions : equalFold "OPTIONS" "OPTIONS" = true := by decide
  have hsource : Grammar.Clause .source _ ⟨"a", [("k", .string "x"), ("k", .string "y")]⟩ :=
    .clause (.heading (by decide : equalFold "SOURCE" "SOURCE" = true) hoptions)
      (.some (.more (.one (.entry "k" (.scalar (.string "x"))))
        (.entry "k" (.scalar (.string "y")))))
  have hsink : Grammar.Clause .sink _ ⟨"b", []⟩ :=
    .clause (.heading (by decide : equalFold "SINK" "SINK" = true) hoptions) .none
  have hsentence := Grammar.Sentence.bare (.body hword hsource hsink)
  have hderives : Grammar.Sentence ((scan repeatedKey).1.map Token.lexeme) _ _ :=
    hlexemes ▸ hsentence
  have hscan : scan repeatedKey = ((scan repeatedKey).1, .ok stop) := by rw [← hstop]
  obtain ⟨source, sink, -, hsourceKeys, -, hrepeats, -⟩ :=
    reports_first_repetition repeatedKey _ stop _ _ hscan hderives (by decide) (by decide)
  obtain ⟨repeated, ⟨before, after, hsplit, -⟩, hparse⟩ := hrepeats (by decide)
  have hkey : repeated.key ∈ ["k", "k"] := by
    rw [show ["k", "k"] = source.map (·.key) from hsourceKeys.symm, hsplit]
    simp
  have hname : repeated.key = "k" := by simpa using hkey
  exact ⟨_, hname ▸ hparse⟩

end BatchTransfer.Statement
