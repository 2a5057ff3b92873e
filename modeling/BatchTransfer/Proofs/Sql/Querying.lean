import BatchTransfer.Proofs.Sql.Tokens
import BatchTransfer.Proofs.Text.Blanks
import BatchTransfer.Sql.Select

/-!
# The tokens of queries

Whatever the names of a table and its columns are, the tokens of a query over the table are those of
a template up to its condition, in which each name is one token and is read as it was given
(`query_reads_back`). The condition comes last and changes nothing of what stands before it. It is
taken without the blanks around it and without the keyword that may begin it, so that the keyword
may be given or not (`Introduces.bareCondition_eq`).
-/

namespace BatchTransfer.Sql

open BatchTransfer.Text

/-- The marks of queries: backticks around names, and quotes of either kind around texts. -/
def isQueryMark (c : Char) : Bool := c == '`' || c == '\'' || c == '"'

/-- A name between backticks as a token. -/
def Token.name (name : String) : Token := .quoted '`' name.toList

/-- The tokens of the columns of a query. -/
def selectTokens : Projection → List Token
  | .all => [.symbol '*']
  | .columns names => (names.map Token.name).intersperse (.symbol ',')

/-- The template of a query before its condition. The parts are those of the name of the table. -/
def queryTokens (projection : Projection) (parts : List String) : List Token :=
  .keyword "SELECT" :: selectTokens projection ++
    .keyword "FROM" :: (parts.map Token.name).intersperse (.symbol '.')

/-- Whether a name consists of these parts with dots between them. -/
structure ConsistsOf (name : String) (parts : List String) : Prop where
  ne_nil : parts ≠ []
  joined : ".".intercalate parts = name
  whole : ∀ part ∈ parts, '.' ∉ part.toList

/-- Whether a text is the keyword of conditions, in any letter case, with `rest` behind it. -/
def FollowsWhere (rest cs : List Char) : Prop :=
  ∃ keyword, cs = keyword ++ rest ∧ equalFold (String.ofList keyword) whereKeyword = true ∧
    endsKeyword rest = true

/-- What a condition says: all that stands between blanks, but for a keyword that begins it. -/
inductive Says (condition : List Char) : List Char → Prop where
  | all (h : ∀ rest, ¬ FollowsWhere rest (trimChars condition)) :
      Says condition (trimChars condition)
  | behindWhere {rest : List Char} (h : FollowsWhere rest (trimChars condition)) :
      Says condition (trimChars rest)

/-- Whether a text is a predicate: it is not blank, and no keyword begins it. -/
structure IsPredicate (predicate : List Char) : Prop where
  not_blank : ∃ c ∈ predicate, isBlank c = false
  not_keyword : ∀ rest, ¬ FollowsWhere rest (trimChars predicate)

/-- A predicate with a keyword in front, in any letter case and with any blanks around it. -/
inductive Introduces (predicate : List Char) : List Char → Prop where
  | keyword {before keyword after : List Char} (hbefore : ∀ c ∈ before, isBlank c = true)
      (hkeyword : equalFold (String.ofList keyword) whereKeyword = true)
      (hafter : ∀ c ∈ after, isBlank c = true) (hend : endsKeyword (after ++ predicate) = true) :
      Introduces predicate (before ++ keyword ++ after ++ predicate)

/-! ### Names -/

variable {rest cs condition predicate : List Char}

/-- A name consists of the pieces between its dots. -/
theorem consistsOf_splitPieces (name : String) :
    ConsistsOf name ((splitPieces (· == '.') name.toList).map String.ofList) where
  ne_nil := by simpa using splitPieces_ne_nil _ _
  joined := by
    have hpieces : (String.toList ∘ String.ofList : List Char → List Char) = id :=
      funext fun _ => String.toList_ofList
    rw [← String.toList_inj, String.toList_intercalate, List.map_map, hpieces, List.map_id]
    exact intercalate_splitPieces '.' name.toList
  whole part hpart := by
    obtain ⟨piece, hpiece, rfl⟩ := List.mem_map.mp hpart
    rw [String.toList_ofList]
    intro hdot
    have hclear := eq_false_of_mem_splitPieces hpiece '.' hdot
    simp at hclear

/-- Reads characters between tokens that others follow. -/
def readQuery (cs : List Char) : List Token × Mode := run isQueryMark .between cs

theorem readQuery_append {tokens : List Token} (h : readQuery cs = (tokens, .between)) :
    readQuery (cs ++ rest) = (readQuery rest).map (tokens ++ ·) id :=
  run_append h

/-- The columns, and the keyword behind them. -/
theorem readQuery_selectList (projection : Projection) :
    readQuery (selectList projection ++ " FROM ".toList) =
      (selectTokens projection ++ [.keyword "FROM"], .between) := by
  cases projection with
  | all => decide
  | columns names =>
      have htexts : names.map (fun name => backticked name.toList) =
          (names.map String.toList).map (quoted '`') := List.map_map.symm
      have htokens : names.map Token.name = (names.map String.toList).map (Token.quoted '`') :=
        List.map_map.symm
      have hfrom : " FROM ".toList = ' ' :: "FROM ".toList := by decide
      rw [selectList, commaSeparated, htexts, selectTokens, htokens, hfrom, readQuery,
        run_intercalate (by decide) rfl (by decide) (by decide)]
      rfl

/-- The name of a table, and a blank behind it. -/
theorem readQuery_tableName (table : String) :
    readQuery (tableName table ++ [' ']) =
      ((((splitPieces (· == '.') table.toList).map String.ofList).map Token.name).intersperse
        (.symbol '.'), .between) := by
  have htokens (pieces : List (List Char)) :
      (pieces.map String.ofList).map Token.name = pieces.map (Token.quoted '`') := by
    simp [Token.name, Function.comp_def]
  rw [tableName, htokens, readQuery]
  change run isQueryMark .between (['.'].intercalate (List.map (quoted '`') _) ++ [' ']) = _
  rw [run_intercalate (by decide) rfl (by decide) (by decide)]
  simp [run, step, enter, isQueryMark, isWordChar, isBlank]

theorem selectChars_none (table : String) (projection : Projection) :
    selectChars table projection none =
      "SELECT ".toList ++ (selectList projection ++ " FROM ".toList ++ tableName table) := by
  unfold selectChars
  simp only [Option.map_none, List.append_nil, List.append_assoc]

/-- Up to a blank behind it, a query without a condition is read as its template. -/
theorem readQuery_select (table : String) (projection : Projection) :
    readQuery (selectChars table projection none ++ [' ']) =
      (queryTokens projection ((splitPieces (· == '.') table.toList).map String.ofList),
        .between) := by
  have hselect : readQuery "SELECT ".toList = ([.keyword "SELECT"], .between) := by decide
  rw [selectChars_none, List.append_assoc, List.append_assoc, readQuery_append hselect,
    readQuery_append (readQuery_selectList projection), readQuery_tableName, queryTokens]
  simp only [Prod.map, id, List.cons_append, List.nil_append, List.append_assoc]

/-! ### Conditions -/

/-- A condition stands behind the query without it. -/
theorem select_some (table : String) (projection : Projection) (condition : String) :
    select table projection (some condition) = select table projection none ++
      if bareCondition condition.toList = [] then ""
      else " WHERE (" ++ String.ofList (bareCondition condition.toList) ++ ")" := by
  unfold select
  rw [selectChars_none]
  unfold selectChars
  cases h : bareCondition condition.toList with
  | nil => simp only [Option.map_some, h, List.append_nil, List.append_assoc, if_true,
      String.append_empty]
  | cons c cs =>
      have hclose : String.ofList [')'] = ")" := by decide
      simp only [Option.map_some, h, List.append_assoc, reduceCtorEq, if_false,
        String.ofList_append, String.ofList_toList, String.append_assoc, hclose]

theorem length_of_equalFold {text : List Char}
    (h : equalFold (String.ofList text) whereKeyword = true) :
    text.length = whereKeyword.length := by
  have hlower := congrArg List.length (eq_of_beq h)
  rwa [List.length_map, List.length_map, String.toList_ofList, String.length_toList] at hlower

theorem ne_nil_of_equalFold {text : List Char}
    (h : equalFold (String.ofList text) whereKeyword = true) : text ≠ [] := by
  rintro rfl
  cases length_of_equalFold h

/-- A keyword is followed by what is behind as many characters as it has. -/
theorem FollowsWhere.eq_drop (h : FollowsWhere rest cs) :
    equalFold (String.ofList (cs.take whereKeyword.length)) whereKeyword = true ∧
      endsKeyword (cs.drop whereKeyword.length) = true ∧
      rest = cs.drop whereKeyword.length := by
  obtain ⟨keyword, rfl, hkeyword, hend⟩ := h
  rw [← length_of_equalFold hkeyword, List.take_left, List.drop_left]
  exact ⟨hkeyword, hend, rfl⟩

/-- Behind a beginning of a text without blanks at its ends, there may be blanks at the beginning
only. -/
theorem trimChars_of_hasBareEnds {first : List Char} (h : HasBareEnds (first ++ rest)) :
    trimChars rest = rest.dropWhile isBlank := by
  refine List.rdropWhile_eq_self_iff.mpr fun hne => ?_
  obtain ⟨before, hbefore⟩ := List.dropWhile_suffix (l := rest) isBlank
  have hlast : (first ++ (before ++ rest.dropWhile isBlank)).getLast? =
      some ((rest.dropWhile isBlank).getLast hne) := by
    rw [← List.append_assoc, List.getLast?_append_of_ne_nil _ hne,
      List.getLast?_eq_some_getLast hne]
  rw [hbefore] at hlast
  rw [h.last _ hlast]
  exact Bool.false_ne_true

/-- What a condition says is kept of it. -/
theorem says_bareCondition (condition : List Char) : Says condition (bareCondition condition) := by
  unfold bareCondition
  dsimp only
  split
  · rename_i hkeyword
    rw [Bool.and_eq_true] at hkeyword
    have hsplit := List.take_append_drop whereKeyword.length (trimChars condition)
    rw [← trimChars_of_hasBareEnds (hsplit.symm ▸ hasBareEnds_trimChars condition)]
    exact .behindWhere ⟨_, hsplit.symm, hkeyword⟩
  · rename_i hkeyword
    refine .all fun rest hrest => hkeyword ?_
    rw [Bool.and_eq_true]
    exact ⟨hrest.eq_drop.1, hrest.eq_drop.2.1⟩

/-- A condition says one thing only. -/
theorem Says.unique {c d : List Char} (h : Says condition c) (h' : Says condition d) : c = d := by
  cases h with
  | all hall =>
      cases h' with
      | all => rfl
      | behindWhere hrest => exact absurd hrest (hall _)
  | behindWhere hrest =>
      cases h' with
      | all hall => exact absurd hrest (hall _)
      | behindWhere hrest' => rw [hrest.eq_drop.2.2, hrest'.eq_drop.2.2]

/-- A keyword holds no blanks. -/
theorem isBlank_of_equalFold {text : List Char}
    (h : equalFold (String.ofList text) whereKeyword = true) : ∀ c ∈ text, isBlank c = false := by
  intro c hc
  have hlower : c.toLower ∈ whereKeyword.toList.map Char.toLower := by
    rw [← eq_of_beq h, String.toList_ofList]
    exact List.mem_map_of_mem hc
  have hletters : (whereKeyword.toList.map Char.toLower).all (fun d => !isBlank d) = true := by
    decide
  rw [isBlank_toLower, ← Bool.not_eq_true']
  exact List.all_eq_true.mp hletters _ hlower

/-- A keyword in front of a text leaves no blanks at the ends, whatever stands between. -/
theorem hasBareEnds_keyword_append {keyword middle : List Char} (h : HasBareEnds middle)
    (hne : middle ≠ []) (hkeyword : equalFold (String.ofList keyword) whereKeyword = true)
    (between : List Char) : HasBareEnds (keyword ++ (between ++ middle)) := by
  obtain ⟨k, ks, rfl⟩ := List.exists_cons_of_ne_nil (ne_nil_of_equalFold hkeyword)
  constructor
  · intro c hc
    exact isBlank_of_equalFold hkeyword c (Option.mem_some.mp hc ▸ List.mem_cons_self)
  · rw [← List.append_assoc, List.getLast?_append_of_ne_nil _ hne]
    exact h.last

theorem endsKeyword_append (hne : cs ≠ []) : endsKeyword (cs ++ rest) = endsKeyword cs := by
  cases cs with
  | nil => exact absurd rfl hne
  | cons c cs => rfl

theorem IsPredicate.trimChars_ne_nil (h : IsPredicate predicate) : trimChars predicate ≠ [] := by
  obtain ⟨c, hc, hbare⟩ := h.not_blank
  have hsurrounds := surrounds_trimChars predicate
  intro hnil
  rw [hnil] at hsurrounds
  cases hsurrounds with
  | blanks hbefore hafter =>
      have hblank : isBlank c = true := by
        rw [List.append_nil, List.mem_append] at hc
        exact hc.elim (hbefore c) (hafter c)
      rw [hbare] at hblank
      cases hblank

/-- A predicate with a keyword in front says what it says without. -/
theorem Introduces.bareCondition_eq (h : Introduces predicate condition)
    (hpredicate : IsPredicate predicate) : bareCondition condition = bareCondition predicate := by
  have hblank := hpredicate.trimChars_ne_nil
  have hsays : Says predicate (trimChars predicate) := .all hpredicate.not_keyword
  refine Says.unique (says_bareCondition condition) ?_
  rw [(says_bareCondition predicate).unique hsays]
  have hbare := hasBareEnds_trimChars predicate
  have hsurrounds := surrounds_trimChars predicate
  generalize trimChars predicate = middle at *
  cases h with
  | @keyword before keyword after hbefore hkeyword hafter hend =>
      cases hsurrounds with
      | @blanks start stop hstart hstop =>
          have hblanks : ∀ c ∈ after ++ start, isBlank c = true := by
            intro c hc
            exact (List.mem_append.mp hc).elim (hafter c) (hstart c)
          have htrim : trimChars (before ++ keyword ++ after ++ (start ++ middle ++ stop)) =
              keyword ++ (after ++ start ++ middle) := by
            have hwhole : Surrounds (keyword ++ (after ++ start ++ middle))
                (before ++ (keyword ++ (after ++ start ++ middle)) ++ stop) :=
              .blanks hbefore hstop
            refine trimChars_eq_iff.mpr ⟨hasBareEnds_keyword_append hbare hblank hkeyword _, ?_⟩
            simpa only [List.append_assoc] using hwhole
          have hmiddle : trimChars (after ++ start ++ middle) = middle := by
            refine trimChars_eq_iff.mpr ⟨hbare, ?_⟩
            simpa only [List.append_nil] using Surrounds.blanks hblanks (List.forall_mem_nil _)
          have hend' : endsKeyword (after ++ start ++ middle) = true := by
            rw [← List.append_assoc, ← List.append_assoc, endsKeyword_append (by simp [hblank])]
              at hend
            exact hend
          have hsays := Says.behindWhere ⟨keyword, htrim, hkeyword, hend'⟩
          rwa [hmiddle] at hsays

/-! ### Queries -/

/-- Whatever the names and the condition are, a query without its condition is read as its template,
in which the columns and the parts of the table's name are read as they were given. A condition adds
something at the end only: nothing if it says nothing, and else what it says, between parentheses
behind the keyword, where the reader of a query is between tokens. A predicate may be given with a
keyword in front or without: the query is the same. -/
theorem query_reads_back (table : String) (projection : Projection) :
    (∃ parts, ConsistsOf table parts ∧
      tokens? isQueryMark (select table projection none) = some (queryTokens projection parts) ∧
      run isQueryMark .between (select table projection none ++ " WHERE (").toList =
        (queryTokens projection parts ++ [.keyword "WHERE", .symbol '('], .between)) ∧
    (∀ condition : String, ∃ c, Says condition.toList c ∧
      select table projection (some condition) = select table projection none ++
        if c = [] then "" else " WHERE (" ++ String.ofList c ++ ")") ∧
    (∀ predicate condition : String, IsPredicate predicate.toList →
      Introduces predicate.toList condition.toList →
        select table projection (some condition) = select table projection (some predicate)) := by
  have hblank := readQuery_select table projection
  refine ⟨⟨_, consistsOf_splitPieces table, ?_, ?_⟩, fun condition => ?_,
    fun predicate condition hpredicate hintroduces => ?_⟩
  · rw [tokens?, select, String.toList_ofList]
    exact scan_of_run_blank (by decide) hblank
  · have hwhere : run isQueryMark .between "WHERE (".toList =
        ([.keyword "WHERE", .symbol '('], .between) := by decide
    have hbehind : " WHERE (".toList = [' '] ++ "WHERE (".toList := by decide
    rw [String.toList_append, select, String.toList_ofList, hbehind, ← List.append_assoc,
      run_append hblank, hwhere]
    rfl
  · exact ⟨_, says_bareCondition _, select_some table projection condition⟩
  · rw [select_some, select_some, hintroduces.bareCondition_eq hpredicate]

/-- A predicate that begins with the letters of the keyword, and a table whose name holds a
backtick. -/
theorem query_reads_back_whereabouts :
    IsPredicate "whereabouts = 'x'".toList ∧
      Introduces "whereabouts = 'x'".toList " Where\twhereabouts = 'x'".toList ∧
      select "a`b.c" .all (some " Where\twhereabouts = 'x'") =
        select "a`b.c" .all (some "whereabouts = 'x'") := by
  have hpredicate : IsPredicate "whereabouts = 'x'".toList := by
    refine ⟨⟨'w', by decide, by decide⟩, fun rest hrest => ?_⟩
    have hend := hrest.eq_drop.2.1
    revert hend
    decide
  have hintroduces : Introduces "whereabouts = 'x'".toList " Where\twhereabouts = 'x'".toList :=
    @Introduces.keyword _ " ".toList "Where".toList "\t".toList (List.all_eq_true.mp (by decide))
      (by decide) (List.all_eq_true.mp (by decide)) (by decide)
  exact ⟨hpredicate, hintroduces, (query_reads_back _ _).2.2 _ _ hpredicate hintroduces⟩

end BatchTransfer.Sql
