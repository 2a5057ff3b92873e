import BatchTransfer.Proofs.Refusal
import BatchTransfer.Proofs.Statement.Grammar

/-!
# What the parser accepts

Every stage of the parser stands for what has been read so far. `Stage.Reads` says this for the
lexemes behind a stage, as the beginning of a derivation; a token that is read keeps it, so a
statement that is read to its end derives from the grammar (`derives_of_planOf`).
-/

namespace BatchTransfer.Statement

open BatchTransfer.Text

/-! ### Clauses under way -/

/-- The clause `c` holds the entries of `t`, of which no two have the same key. -/
structure Clause.Holds (c : Clause) (t : ClauseTree) : Prop where
  kind : c.kind = t.kind
  option : ∀ key v, c.options.get? key = some v ↔ key ≠ resultTableKey ∧ (key, v) ∈ t.entries
  result_table : ∀ v, (∃ offset, c.resultTable = some (v, offset)) ↔
    (resultTableKey, v) ∈ t.entries
  keys_nodup : t.keys.Nodup

/-- A source side holds the kind and the entries of `t`, with the entry that names the result table
apart. -/
structure SourceSide.Holds (first : SourceSide) (t : ClauseTree) : Prop where
  kind : first.endpoint.kind = t.kind
  option : ∀ key v, first.endpoint.options.get? key = some v ↔
    key ≠ resultTableKey ∧ (key, v) ∈ t.entries
  result_table : ∀ name, first.resultTable = some name ↔
    (resultTableKey, .string name) ∈ t.entries
  names : t.NamesResultTable

namespace Clause.Holds

variable {c : Clause} {t : ClauseTree} {kind key : String} {v : OptionValue} {offset : Nat}

theorem new (kind : String) : (Clause.new kind).Holds ⟨kind, []⟩ where
  kind := rfl
  option := by simp [Clause.new]
  result_table := by simp [Clause.new]
  keys_nodup := List.nodup_nil

/-- A clause has a key if one of its entries has it. -/
theorem hasKey_iff (h : c.Holds t) : c.hasKey key = true ↔ key ∈ t.keys := by
  have hmem : key ∈ t.keys ↔ ∃ v, (key, v) ∈ t.entries := by simp [ClauseTree.keys]
  rw [hmem, Clause.hasKey]
  split
  · rename_i hkey
    rw [hkey, Option.isSome_iff_exists]
    constructor
    · rintro ⟨⟨v, offset⟩, hv⟩
      exact ⟨v, (h.result_table v).mp ⟨offset, hv⟩⟩
    · rintro ⟨v, hv⟩
      obtain ⟨offset, hoffset⟩ := (h.result_table v).mpr hv
      exact ⟨_, hoffset⟩
  · rename_i hkey
    rw [KeyMap.contains, Option.isSome_iff_exists]
    exact exists_congr fun v => (h.option key v).trans (and_iff_right hkey)

/-- A clause with another entry holds it as the last one. -/
theorem add (h : c.Holds t) (hkey : c.hasKey key = false) (v : OptionValue) (offset : Nat) :
    (c.add key v offset).Holds ⟨t.kind, t.entries ++ [(key, v)]⟩ := by
  have hfresh : key ∉ t.keys := fun hmem => by simp [h.hasKey_iff.mpr hmem] at hkey
  have hnone : ∀ u, (key, u) ∉ t.entries := fun u hu => hfresh (List.mem_map_of_mem hu)
  have hnodup : (t.entries ++ [(key, v)]).map Prod.fst |>.Nodup := by
    rw [List.map_append, List.nodup_append]
    refine ⟨h.keys_nodup, by simp, ?_⟩
    rintro a ha b hb rfl
    rw [List.map_singleton, List.mem_singleton] at hb
    rw [hb] at ha
    exact hfresh ha
  -- The result table is kept apart from the options, so its key is looked up in another place.
  by_cases htable : key = resultTableKey
  · subst htable
    refine ⟨by simpa [Clause.add] using h.kind, ?_, ?_, hnodup⟩
    · intro other u
      simp only [Clause.add, if_true, h.option, List.mem_append, List.mem_singleton, Prod.mk.injEq]
      exact and_congr_right fun hother => by simp [hother]
    · intro u
      simp only [Clause.add, if_true, List.mem_append, hnone u, false_or, List.mem_singleton,
        Prod.mk.injEq, true_and, Option.some.injEq]
      exact ⟨fun ⟨_, hu, _⟩ => hu.symm, fun hu => ⟨_, hu.symm, rfl⟩⟩
  · refine ⟨by simpa [Clause.add, htable] using h.kind, ?_, ?_, hnodup⟩
    · intro other u
      simp only [Clause.add, if_neg htable, KeyMap.get?_insert]
      split
      · rename_i hother
        subst hother
        simp [htable, hnone u, eq_comm]
      · rename_i hother
        simp [h.option, hother]
    · intro u
      have hne : (resultTableKey, u) ≠ (key, v) := fun heq => htable (congrArg Prod.fst heq).symm
      simp [Clause.add, htable, h.result_table, Ne.symm htable]

/-- A source side holds what its clause does. -/
theorem of_sourceSide (h : c.Holds t) {first : SourceSide} (hfirst : sourceSide c = .ok first) :
    first.Holds t := by
  unfold sourceSide at hfirst
  split at hfirst
  · rename_i hnone
    cases hfirst
    have habsent : ∀ v, (resultTableKey, v) ∉ t.entries := fun v hv => by
      obtain ⟨offset, hoffset⟩ := (h.result_table v).mpr hv
      simp [hnone] at hoffset
    exact ⟨h.kind, h.option, fun name => by simp [habsent], fun v hv => absurd hv (habsent v)⟩
  · rename_i name offset hsome
    split at hfirst
    · cases hfirst
    · rename_i hne
      cases hfirst
      have honly : ∀ v, (resultTableKey, v) ∈ t.entries ↔ v = .string name := fun v => by
        rw [← h.result_table v, hsome]
        simp [eq_comm]
      refine ⟨h.kind, h.option, fun other => ?_, fun v hv => ⟨name, hne, (honly v).mp hv⟩⟩
      rw [honly]
      simp [eq_comm]
  · cases hfirst

/-- A clause whose entry for the result table names it is a source side. -/
theorem exists_sourceSide (h : c.Holds t) (hnames : t.NamesResultTable) :
    ∃ first, sourceSide c = .ok first := by
  unfold sourceSide
  split
  · exact ⟨_, rfl⟩
  · rename_i name offset hsome
    obtain ⟨name', hne, heq⟩ := hnames _ ((h.result_table _).mp ⟨offset, hsome⟩)
    cases heq
    rw [if_neg hne]
    exact ⟨_, rfl⟩
  · rename_i v offset hother hsome
    obtain ⟨name, -, heq⟩ := hnames _ ((h.result_table _).mp ⟨offset, hsome⟩)
    exact absurd heq (hother name)

/-- The options of a side are all entries of its clause. -/
theorem toEndpoint_get? (h : c.Holds t) (key : String) (v : OptionValue) :
    c.toEndpoint.options.get? key = some v ↔ (key, v) ∈ t.entries := by
  unfold Clause.toEndpoint
  split
  · rename_i u offset hsome
    have htable := (h.result_table v).symm
    rw [hsome] at htable
    by_cases hkey : key = resultTableKey
    · subst hkey
      rw [htable]
      simp
    · simp [hkey, h.option]
  · rename_i hnone
    by_cases hkey : key = resultTableKey
    · subst hkey
      have htable := h.result_table v
      rw [hnone] at htable
      simp only [h.option, ne_eq, not_true_eq_false, false_and, false_iff]
      exact fun hv => by simpa using htable.mpr hv
    · simp [hkey, h.option]

theorem toEndpoint_kind (h : c.Holds t) : c.toEndpoint.kind = t.kind := by
  rw [← h.kind, Clause.toEndpoint]
  split <;> rfl

/-- A plan whose sides hold two clauses is read off them. -/
theorem readOff (h : c.Holds t) {first : SourceSide} {a : ClauseTree} (hfirst : first.Holds a) :
    ReadOff a t ⟨first.endpoint, c.toEndpoint, first.resultTable⟩ :=
  ⟨hfirst.kind, h.toEndpoint_kind, hfirst.option, h.toEndpoint_get?, hfirst.result_table⟩

end Clause.Holds

/-! ### What a stage stands for -/

namespace Grammar

/-- What is read of a list in front of an item: the items before it, with a comma behind. -/
inductive BeforeItem : List Lexeme → List OptionValue → Prop where
  | first : BeforeItem [] []
  | next {ls : List Lexeme} {vs : List OptionValue} (h : Items ls vs) :
      BeforeItem (ls ++ [.comma]) vs

theorem BeforeItem.append {ls ms : List Lexeme} {vs : List OptionValue} {v : OptionValue}
    (h : BeforeItem ls vs) (hitem : Item ms v) : Items (ls ++ ms) (vs ++ [v]) := by
  cases h with
  | first => exact .one hitem
  | next hinit =>
      rw [List.append_assoc, List.singleton_append]
      exact .more hinit hitem

/-- What is read of a clause in front of the key of an entry, with the entries in `c`. -/
inductive BeforeEntry (role : Role) (c : Statement.Clause) : List Lexeme → Prop where
  | first {kind : String} {ls : List Lexeme} (hheading : Heading role kind ls) (hkind : kind ≠ "")
      (hholds : c.Holds ⟨kind, []⟩) : BeforeEntry role c ls
  | next {kind : String} {ls ms : List Lexeme} {es : List (String × OptionValue)}
      (hheading : Heading role kind ls) (hkind : kind ≠ "") (hentries : Entries ms es)
      (hholds : c.Holds ⟨kind, es⟩) : BeforeEntry role c (ls ++ ms ++ [.comma])

/-- What is read of a clause behind an entry, with the entries in `c`. -/
inductive AfterEntry (role : Role) (c : Statement.Clause) : List Lexeme → Prop where
  | entries {kind : String} {ls ms : List Lexeme} {es : List (String × OptionValue)}
      (hheading : Heading role kind ls) (hkind : kind ≠ "") (hentries : Entries ms es)
      (hholds : c.Holds ⟨kind, es⟩) : AfterEntry role c (ls ++ ms)

theorem BeforeEntry.append {role : Role} {c : Statement.Clause} {ls ms : List Lexeme}
    {key : String} {v : OptionValue} (h : BeforeEntry role c ls) (hentry : Entry ms (key, v))
    (hkey : c.hasKey key = false) (offset : Nat) :
    AfterEntry role (c.add key v offset) (ls ++ ms) := by
  cases h with
  | first hheading hkind hholds =>
      exact .entries hheading hkind (.one hentry) (hholds.add hkey v offset)
  | next hheading hkind hentries hholds =>
      rw [List.append_assoc, List.append_assoc, List.singleton_append]
      exact .entries hheading hkind (.more hentries hentry) (hholds.add hkey v offset)

end Grammar

open Grammar (Heading Scalar Item Items Value Entry Entries BeforeItem BeforeEntry AfterEntry)

/-- The lexemes `ls` are what has been read of a clause up to a stage. -/
def ClauseStage.Reads (role : Role) (ls : List Lexeme) : ClauseStage → Prop
  | keyword => ls = []
  | kindParen => ∃ w, equalFold w role.keyword = true ∧ ls = [.word w]
  | kind => ∃ w, equalFold w role.keyword = true ∧ ls = [.word w, .leftParen]
  | kindEnd k => k ≠ "" ∧
      ∃ w, equalFold w role.keyword = true ∧ ls = [.word w, .leftParen, .quoted k]
  | optionsWord k => k ≠ "" ∧
      ∃ w, equalFold w role.keyword = true ∧ ls = [.word w, .leftParen, .quoted k, .rightParen]
  | optionsParen k => k ≠ "" ∧ ∃ ms, Heading role k (ms ++ [.leftParen]) ∧ ls = ms
  | firstKey c => ∃ k, k ≠ "" ∧ Heading role k ls ∧ c = .new k
  | nextKey c => BeforeEntry role c ls
  | equals c entry => ∃ ms, BeforeEntry role c ms ∧ ls = ms ++ [.word entry.key]
  | value c entry => ∃ ms, BeforeEntry role c ms ∧ ls = ms ++ [.word entry.key, .equals]
  | item c entry _ items => ∃ ms ns, BeforeEntry role c ms ∧ BeforeItem ns items ∧
      ls = ms ++ .word entry.key :: .equals :: .leftBracket :: ns
  | afterItem c entry _ items => ∃ ms ns, BeforeEntry role c ms ∧ Items ns items ∧
      ls = ms ++ .word entry.key :: .equals :: .leftBracket :: ns
  | afterValue c entry _ v => ∃ ms ns, BeforeEntry role c ms ∧ Value ns v ∧
      ls = ms ++ .word entry.key :: .equals :: ns
  | separator c => AfterEntry role c ls

/-- A lexeme that is a scalar derives from the symbol for scalars. -/
theorem scalar_of_scalar? {lexeme : Lexeme} {v : OptionValue} (h : scalar? lexeme = some v) :
    Scalar [lexeme] v := by
  unfold scalar? at h
  split at h
  · cases h
    exact .string _
  · cases h
    exact .integer _
  · cases h
    exact .float _
  · split at h
    · rename_i hword
      cases h
      exact .yes hword
    · split at h
      · rename_i hword
        cases h
        exact .no hword
      · cases h
  · cases h

theorem item_of_listItem? {lexeme : Lexeme} {v : OptionValue} (h : listItem? lexeme = some v) :
    Item [lexeme] v := by
  unfold listItem? at h
  split at h
  · cases h
    exact .object _
  · exact .scalar (scalar_of_scalar? h)

namespace ClauseStage

variable {role : Role} {ls : List Lexeme} {stage next : ClauseStage}

/-- The checks that have waited change nothing about what has been read. -/
theorem Reads.settle (h : stage.Reads role ls) (hnext : stage.settle role = .ok next) :
    next.Reads role ls := by
  unfold ClauseStage.settle at hnext
  split at hnext
  · rename_i c entry offset v
    split at hnext
    · cases hnext
    · rename_i hkey
      cases hnext
      obtain ⟨ms, ns, hbefore, hvalue, rfl⟩ := h
      -- Only here is it known that the key is new.
      exact hbefore.append (.entry _ hvalue) (Bool.not_eq_true _ ▸ hkey) offset
  · cases hnext
    exact h

/-- A token that is read is behind what has been read. -/
theorem Reads.advance {token : Token} (h : stage.Reads role ls)
    (hnext : stage.advance? role token = some next) :
    next.Reads role (ls ++ [token.lexeme]) := by
  revert hnext
  fun_cases advance? role stage token with
  | case1 w _ _ hword =>
      rintro ⟨⟩
      rw [show ls = [] from h]
      exact ⟨w, hword, rfl⟩
  | case3 =>
      rintro ⟨⟩
      obtain ⟨w, hword, rfl⟩ := h
      exact ⟨w, hword, rfl⟩
  | case5 k _ _ hk =>
      rintro ⟨⟩
      obtain ⟨w, hword, rfl⟩ := h
      exact ⟨hk, w, hword, rfl⟩
  | case6 =>
      rintro ⟨⟩
      obtain ⟨hk, w, hword, rfl⟩ := h
      exact ⟨hk, w, hword, rfl⟩
  | case7 k options _ _ hoptions =>
      rintro ⟨⟩
      obtain ⟨hk, w, hword, rfl⟩ := h
      exact ⟨hk, _, .heading hword hoptions, rfl⟩
  | case9 k =>
      rintro ⟨⟩
      obtain ⟨hk, ms, hheading, rfl⟩ := h
      exact ⟨k, hk, hheading, rfl⟩
  | case10 c w =>
      rintro ⟨⟩
      obtain ⟨k, hk, hheading, rfl⟩ := h
      exact ⟨ls, .first hheading hk (.new k), rfl⟩
  | case11 c w =>
      rintro ⟨⟩
      exact ⟨ls, h, rfl⟩
  | case12 =>
      rintro ⟨⟩
      obtain ⟨ms, hbefore, rfl⟩ := h
      exact ⟨ms, hbefore, by simp⟩
  | case13 =>
      rintro ⟨⟩
      obtain ⟨ms, hbefore, rfl⟩ := h
      exact ⟨ms, [], hbefore, .first, by simp⟩
  | case14 c entry lexeme =>
      intro hnext
      obtain ⟨v, hv, rfl⟩ := Option.map_eq_some_iff.mp hnext
      obtain ⟨ms, hbefore, rfl⟩ := h
      exact ⟨ms, [lexeme], hbefore, .scalar (scalar_of_scalar? hv), by simp⟩
  | case15 c entry offset items lexeme =>
      intro hnext
      obtain ⟨v, hv, rfl⟩ := Option.map_eq_some_iff.mp hnext
      obtain ⟨ms, ns, hbefore, hitems, rfl⟩ := h
      exact ⟨ms, ns ++ [lexeme], hbefore, hitems.append (item_of_listItem? hv), by simp⟩
  | case16 =>
      rintro ⟨⟩
      obtain ⟨ms, ns, hbefore, hitems, rfl⟩ := h
      exact ⟨ms, ns ++ [.comma], hbefore, .next hitems, by simp⟩
  | case17 =>
      rintro ⟨⟩
      obtain ⟨ms, ns, hbefore, hitems, rfl⟩ := h
      exact ⟨ms, _, hbefore, .list hitems, by simp⟩
  | case18 =>
      rintro ⟨⟩
      obtain ⟨hheading, hk, hentries, hholds⟩ := h
      exact .next hheading hk hentries hholds
  | _ => rintro ⟨⟩

/-- A clause that is completed derives from the symbol for clauses, and holds what it stands for. -/
theorem Reads.completed {lexeme : Lexeme} {c : Clause} (h : stage.Reads role ls)
    (hdone : stage.completed? lexeme = some c) :
    ∃ t, Grammar.Clause role (ls ++ [lexeme]) t ∧ t.kind ≠ "" ∧ c.Holds t := by
  unfold completed? at hdone
  split at hdone
  · cases hdone
    obtain ⟨k, hk, hheading, rfl⟩ := h
    refine ⟨⟨k, []⟩, ?_, hk, .new k⟩
    simpa using Grammar.Clause.clause hheading .none
  · cases hdone
    obtain ⟨hheading, hk, hentries, hholds⟩ := h
    exact ⟨_, .clause hheading (.some hentries), hk, hholds⟩
  · cases hdone

end ClauseStage

/-! ### Statements under way -/

/-- The lexemes `ls` are what has been read of a statement up to the clause of a side. -/
def Side.Reads (ls : List Lexeme) : Side → Prop
  | source => ∃ w, equalFold w "DATATUNNEL" = true ∧ ls = [.word w]
  | sink first => ∃ w ms a, equalFold w "DATATUNNEL" = true ∧ Grammar.Clause .source ms a ∧
      a.Admissible ∧ first.Holds a ∧ ls = .word w :: ms

/-- The lexemes `ls` are what has been read of a statement up to a stage. -/
def Stage.Reads (ls : List Lexeme) : Stage → Prop
  | start => ls = []
  | clause side stage => ∃ ms ns, side.Reads ms ∧ stage.Reads side.role ns ∧ ls = ms ++ ns
  | sourceRead c => ∃ w ms a, equalFold w "DATATUNNEL" = true ∧ Grammar.Clause .source ms a ∧
      a.kind ≠ "" ∧ c.Holds a ∧ ls = .word w :: ms
  | complete p => ∃ a b, Grammar.Body ls a b ∧ Admissible a b ∧ ReadOff a b p
  | ended p => ∃ a b ms, Grammar.Body ms a b ∧ Admissible a b ∧ ReadOff a b p ∧
      ls = ms ++ [.semicolon]

namespace Stage

variable {ls : List Lexeme} {stage next : Stage}

theorem Reads.settle (h : stage.Reads ls) (hnext : stage.settle = .ok next) : next.Reads ls := by
  cases stage with
  | clause side clauseStage =>
      obtain ⟨settled, hsettled, rfl⟩ := exists_of_map_eq_ok hnext
      obtain ⟨ms, ns, hside, hreads, rfl⟩ := h
      exact ⟨ms, ns, hside, hreads.settle hsettled, rfl⟩
  | sourceRead c =>
      obtain ⟨first, hfirst, rfl⟩ := exists_of_map_eq_ok hnext
      obtain ⟨w, ms, a, hword, hsource, hkind, hholds, rfl⟩ := h
      have hadmissible : a.Admissible := ⟨hkind, hholds.keys_nodup⟩
      have hside := hholds.of_sourceSide hfirst
      exact ⟨_, [], ⟨w, ms, a, hword, hsource, hadmissible, hside, rfl⟩, rfl, by simp⟩
  | _ =>
      cases hnext
      exact h

/-- The stage behind a complete clause stands for what has been read up to its end. -/
theorem Reads.afterClause {side : Side} {ms ns : List Lexeme} {c : Clause} {t : ClauseTree}
    (hside : side.Reads ms) (hclause : Grammar.Clause side.role ns t) (hkind : t.kind ≠ "")
    (hholds : c.Holds t) : (afterClause side c).Reads (ms ++ ns) := by
  cases side with
  | source =>
      obtain ⟨w, hword, rfl⟩ := hside
      exact ⟨w, ns, t, hword, hclause, hkind, hholds, rfl⟩
  | sink first =>
      obtain ⟨w, ls, a, hword, hsource, ha, hfirst, rfl⟩ := hside
      have hadmissible : Admissible a t := ⟨ha, ⟨hkind, hholds.keys_nodup⟩, hfirst.names⟩
      exact ⟨a, t, .body hword hsource hclause, hadmissible, hholds.readOff hfirst⟩

theorem Reads.advance {token : Token} (h : stage.Reads ls)
    (hnext : stage.advance? token = some next) :
    next.Reads (ls ++ [token.lexeme]) := by
  unfold Stage.advance? at hnext
  split at hnext
  · rename_i w offset stop
    split at hnext
    · rename_i hword
      cases hnext
      rw [show ls = [] from h]
      exact ⟨_, [], ⟨w, hword, rfl⟩, rfl, rfl⟩
    · cases hnext
  · rename_i side stage
    obtain ⟨ms, ns, hside, hreads, rfl⟩ := h
    rw [List.append_assoc]
    split at hnext
    · rename_i c hdone
      cases hnext
      obtain ⟨t, hclause, hkind, hholds⟩ := hreads.completed hdone
      exact .afterClause hside hclause hkind hholds
    · obtain ⟨advanced, hadvanced, rfl⟩ := Option.map_eq_some_iff.mp hnext
      exact ⟨ms, _, hside, hreads.advance hadvanced, rfl⟩
  · cases hnext
    obtain ⟨a, b, hbody, hadmissible, hread⟩ := h
    exact ⟨a, b, ls, hbody, hadmissible, hread, rfl⟩
  · cases hnext

/-- A step keeps what a stage stands for. -/
theorem Reads.step {token : Token} (h : stage.Reads ls) (hnext : stage.step token = .ok next) :
    next.Reads (ls ++ [token.lexeme]) := by
  unfold Stage.step at hnext
  split at hnext
  · cases hnext
  · rename_i settled hsettled
    split at hnext
    · rename_i advanced hadvanced
      cases hnext
      exact (h.settle hsettled).advance hadvanced
    · cases hnext

/-- A run keeps what a stage stands for. -/
theorem Reads.run {tokens : List Token} (h : stage.Reads ls) (hnext : stage.run tokens = .ok next) :
    next.Reads (ls ++ tokens.map Token.lexeme) := by
  induction tokens generalizing stage ls with
  | nil =>
      cases hnext
      simpa using h
  | cons token rest ih =>
      rw [Stage.run] at hnext
      split at hnext
      · cases hnext
      · rename_i middle hstep
        simpa using ih (h.step hstep) hnext

/-- A stage in which a statement may end stands for a statement. -/
theorem Reads.finish {offset : Nat} {p : Plan} (h : stage.Reads ls)
    (hplan : stage.finish offset = .ok p) :
    ∃ a b, Grammar.Sentence ls a b ∧ Admissible a b ∧ ReadOff a b p := by
  unfold Stage.finish at hplan
  split at hplan
  · cases hplan
  · rename_i settled
    cases hplan
    obtain ⟨a, b, hbody, hadmissible, hread⟩ := h.settle settled
    exact ⟨a, b, .bare hbody, hadmissible, hread⟩
  · rename_i settled
    cases hplan
    obtain ⟨a, b, ms, hbody, hadmissible, hread, rfl⟩ := h.settle settled
    exact ⟨a, b, .terminated hbody, hadmissible, hread⟩
  · cases hplan

end Stage

/-- Tokens that spell a plan derive from the grammar, and the plan is read off the derivation. -/
theorem derives_of_planOf {tokens : List Token} {ending : Ending} {p : Plan}
    (h : planOf tokens ending = .ok p) :
    ∃ stop a b, ending = .ok stop ∧ Grammar.Sentence (tokens.map Token.lexeme) a b ∧
      Admissible a b ∧ ReadOff a b p := by
  unfold planOf at h
  split at h
  · cases h
  · rename_i stage hrun
    have hstart : Stage.start.Reads [] := rfl
    have hreads := hstart.run hrun
    rw [List.nil_append] at hreads
    split at h
    · rename_i stop
      obtain ⟨a, b, hderives, hadmissible, hread⟩ := hreads.finish h
      exact ⟨stop, a, b, rfl, hderives, hadmissible, hread⟩
    · cases h

end BatchTransfer.Statement
