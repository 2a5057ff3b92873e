import BatchTransfer.Statement.Parser

/-!
# The grammar of statements

The grammar is given by one relation for each of its symbols. `Grammar.Value ls v` says that the
lexemes `ls` derive from the symbol for values and stand for the value `v`, and so on up to
`Grammar.Sentence`, whose derivations stand for two clauses with their entries in the order in
which they are written. `Admissible` are the conditions that the grammar does not express, and
`ReadOff` says which plan two clauses are. A plan is determined by the clauses that it is read off
(`ReadOff.unique`).
-/

namespace BatchTransfer.Statement

open BatchTransfer.Text

/-- A clause as it is written: the kind of connector and the entries in order. -/
structure ClauseTree where
  kind : String
  entries : List (String × OptionValue)

namespace Grammar

/-- `scalar := string | number | true | false`. -/
inductive Scalar : List Lexeme → OptionValue → Prop where
  | string (s : String) : Scalar [.quoted s] (.string s)
  | integer (i : Int) : Scalar [.integer i] (.integer i)
  | float (x : Float) : Scalar [.float x] (.float x)
  | yes {w : String} (hword : equalFold w "true" = true) : Scalar [.word w] (.boolean true)
  | no {w : String} (hword : equalFold w "false" = true) : Scalar [.word w] (.boolean false)

/-- `item := scalar | object`. -/
inductive Item : List Lexeme → OptionValue → Prop where
  | scalar {ls : List Lexeme} {v : OptionValue} (h : Scalar ls v) : Item ls v
  | object (r : Record) : Item [.object r] (.object r)

/-- One item or more, with commas between. -/
inductive Items : List Lexeme → List OptionValue → Prop where
  | one {ls : List Lexeme} {v : OptionValue} (h : Item ls v) : Items ls [v]
  | more {ls ms : List Lexeme} {vs : List OptionValue} {v : OptionValue}
      (hinit : Items ls vs) (hlast : Item ms v) : Items (ls ++ .comma :: ms) (vs ++ [v])

/-- `value := scalar | [ items ]`. -/
inductive Value : List Lexeme → OptionValue → Prop where
  | scalar {ls : List Lexeme} {v : OptionValue} (h : Scalar ls v) : Value ls v
  | list {ls : List Lexeme} {vs : List OptionValue} (h : Items ls vs) :
      Value (.leftBracket :: (ls ++ [.rightBracket])) (.list vs)

/-- `option := identifier = value`. -/
inductive Entry : List Lexeme → String × OptionValue → Prop where
  | entry (key : String) {ls : List Lexeme} {v : OptionValue} (h : Value ls v) :
      Entry (.word key :: .equals :: ls) (key, v)

/-- One option or more, with commas between. -/
inductive Entries : List Lexeme → List (String × OptionValue) → Prop where
  | one {ls : List Lexeme} {e : String × OptionValue} (h : Entry ls e) : Entries ls [e]
  | more {ls ms : List Lexeme} {es : List (String × OptionValue)} {e : String × OptionValue}
      (hinit : Entries ls es) (hlast : Entry ms e) : Entries (ls ++ .comma :: ms) (es ++ [e])

/-- Options between parentheses, of which there may be none. -/
inductive OptionList : List Lexeme → List (String × OptionValue) → Prop where
  | none : OptionList [] []
  | some {ls : List Lexeme} {es : List (String × OptionValue)} (h : Entries ls es) :
      OptionList ls es

/-- The part of a clause in front of its options: `K ( string ) OPTIONS (`. -/
inductive Heading (role : Role) (kind : String) : List Lexeme → Prop where
  | heading {keyword options : String} (hkeyword : equalFold keyword role.keyword = true)
      (hoptions : equalFold options "OPTIONS" = true) :
      Heading role kind
        [.word keyword, .leftParen, .quoted kind, .rightParen, .word options, .leftParen]

/-- `clause(K) := K ( string ) OPTIONS ( options )`. -/
inductive Clause (role : Role) : List Lexeme → ClauseTree → Prop where
  | clause {kind : String} {ls ms : List Lexeme} {es : List (String × OptionValue)}
      (hheading : Heading role kind ls) (hoptions : OptionList ms es) :
      Clause role (ls ++ ms ++ [.rightParen]) ⟨kind, es⟩

/-- `DATATUNNEL clause(SOURCE) clause(SINK)`. -/
inductive Body : List Lexeme → ClauseTree → ClauseTree → Prop where
  | body {w : String} {ls ms : List Lexeme} {a b : ClauseTree}
      (hword : equalFold w "DATATUNNEL" = true) (hsource : Clause .source ls a)
      (hsink : Clause .sink ms b) : Body (.word w :: (ls ++ ms)) a b

/-- `statement := DATATUNNEL clause(SOURCE) clause(SINK) [;]`. -/
inductive Sentence : List Lexeme → ClauseTree → ClauseTree → Prop where
  | bare {ls : List Lexeme} {a b : ClauseTree} (h : Body ls a b) : Sentence ls a b
  | terminated {ls : List Lexeme} {a b : ClauseTree} (h : Body ls a b) :
      Sentence (ls ++ [.semicolon]) a b

end Grammar

namespace ClauseTree

/-- The keys of a clause in the order in which they are written. -/
def keys (t : ClauseTree) : List String := t.entries.map Prod.fst

/-- A clause that names a kind and gives no key twice. -/
structure Admissible (t : ClauseTree) : Prop where
  kind_ne : t.kind ≠ ""
  keys_nodup : t.keys.Nodup

/-- Whether the entry that names the result table, if there is one, names it. -/
def NamesResultTable (t : ClauseTree) : Prop :=
  ∀ v, (resultTableKey, v) ∈ t.entries → ∃ name, name ≠ "" ∧ v = .string name

end ClauseTree

/-- The conditions on the clauses of a statement that the grammar does not express. -/
structure Admissible (a b : ClauseTree) : Prop where
  source : a.Admissible
  sink : b.Admissible
  result_table : a.NamesResultTable

/-- The plan `p` is read off the source clause `a` and the sink clause `b`. -/
structure ReadOff (a b : ClauseTree) (p : Plan) : Prop where
  source_kind : p.source.kind = a.kind
  sink_kind : p.sink.kind = b.kind
  source_option : ∀ key v, p.source.options.get? key = some v ↔
    key ≠ resultTableKey ∧ (key, v) ∈ a.entries
  sink_option : ∀ key v, p.sink.options.get? key = some v ↔ (key, v) ∈ b.entries
  result_table : ∀ name, p.resultTable = some name ↔ (resultTableKey, .string name) ∈ a.entries

/-- Two plans that are read off the same clauses are the same. -/
theorem ReadOff.unique {a b : ClauseTree} {p q : Plan} (hp : ReadOff a b p)
    (hq : ReadOff a b q) : p = q := by
  obtain ⟨⟨sourceKind, sourceOptions⟩, ⟨sinkKind, sinkOptions⟩, resultTable⟩ := p
  obtain ⟨⟨sourceKind', sourceOptions'⟩, ⟨sinkKind', sinkOptions'⟩, resultTable'⟩ := q
  have hsource : sourceOptions = sourceOptions' :=
    KeyMap.ext_get? fun key => Option.ext fun v =>
      (hp.source_option key v).trans (hq.source_option key v).symm
  have hsink : sinkOptions = sinkOptions' :=
    KeyMap.ext_get? fun key => Option.ext fun v =>
      (hp.sink_option key v).trans (hq.sink_option key v).symm
  have hresult : resultTable = resultTable' :=
    Option.ext fun name => (hp.result_table name).trans (hq.result_table name).symm
  have hsourceKind : sourceKind = sourceKind' := hp.source_kind.trans hq.source_kind.symm
  have hsinkKind : sinkKind = sinkKind' := hp.sink_kind.trans hq.sink_kind.symm
  subst hsource hsink hresult hsourceKind hsinkKind
  rfl

end BatchTransfer.Statement
