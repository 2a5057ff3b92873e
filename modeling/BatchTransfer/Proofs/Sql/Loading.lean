import BatchTransfer.Proofs.Sql.Tokens
import BatchTransfer.Sql.Copy

/-!
# The tokens of loading statements

Whatever the names and texts are that a loading statement is made of, its tokens are those of a
fixed template, in which each of them is one token and is read as it was given
(`loading_statements_read_back`). Nothing can be put into a name, an address or a credential that
would be read as another part of the statement, and different statements are written differently.
-/

namespace BatchTransfer.Sql

/-- The marks of standard SQL: double quotes around names and single quotes around texts. -/
def isStandardMark (c : Char) : Bool := c == '"' || c == '\''

namespace Token

def identifier (name : String) : Token := .quoted '"' name.toList

def literal (text : String) : Token := .quoted '\'' text.toList

/-- The text between two marks of a kind. -/
def text? (mark : Char) : Token → Option String
  | quoted m cs => if mark == m then some (String.ofList cs) else none
  | _ => none

end Token

/-- The tokens of a schema and a table. -/
def qualifiedTokens (schema table : String) : List Token :=
  [.identifier schema, .symbol '.', .identifier table]

/-- The tokens of a list of columns, where there is one. -/
def columnTokens : Option (List String) → List Token
  | none => []
  | some names =>
      .symbol '(' :: (names.map Token.identifier).intersperse (.symbol ',') ++ [.symbol ')']

/-- The tokens of the credentials. -/
def CopyCredentials.tokens : CopyCredentials → List Token
  | role name => [.keyword "IAM_ROLE", .literal name]
  | keys accessKey secretKey =>
      [.keyword "ACCESS_KEY_ID", .literal accessKey.exposed,
        .keyword "SECRET_ACCESS_KEY", .literal secretKey.exposed]

/-- The tokens between the credentials and the region. -/
def formatTokens : List Token :=
  [.keyword "FORMAT", .keyword "AS", .keyword "JSON", .literal "auto", .keyword "MANIFEST",
    .keyword "REGION"]

/-- What the statement is made of that copies the files of a manifest into a table. -/
structure CopyStatement where
  schema : String
  table : String
  columns : Option (List String)
  manifest : String
  credentials : CopyCredentials
  region : String
  deriving DecidableEq

/-- The statement in words. -/
def CopyStatement.text (s : CopyStatement) : String :=
  copy s.schema s.table s.columns s.manifest s.credentials s.region

/-- The template of the statement. -/
def CopyStatement.tokens (s : CopyStatement) : List Token :=
  .keyword "COPY" :: qualifiedTokens s.schema s.table ++ columnTokens s.columns ++
    [.keyword "FROM", .literal s.manifest] ++ s.credentials.tokens ++ formatTokens ++
    [.literal s.region]

/-- The template of the statement that empties a table. -/
def deleteTokens (schema table : String) : List Token :=
  [.keyword "DELETE", .keyword "FROM"] ++ qualifiedTokens schema table

/-! ### Reading the parts -/

/-- Reads characters between tokens by the rules of standard SQL. -/
def readStandard (cs : List Char) : Option (List Token) := scan isStandardMark .between cs

variable {rest : List Char}

/-- Fixed characters that do not end in the middle of a token are read as they are, whatever
follows. -/
theorem readStandard_fixed (cs : List Char) {tokens : List Token}
    (h : run isStandardMark .between cs = (tokens, .between)) :
    readStandard (cs ++ rest) = (readStandard rest).map (tokens ++ ·) :=
  scan_append h

theorem readStandard_nil : readStandard [] = some [] := rfl

theorem readStandard_identifier {name : String} (h : rest.head? ≠ some '"') :
    readStandard (identifier name ++ rest) = (readStandard rest).map (.identifier name :: ·) :=
  scan_quoted (by decide) h

theorem readStandard_literal {text : String} (h : rest.head? ≠ some '\'') :
    readStandard (literal text ++ rest) = (readStandard rest).map (.literal text :: ·) :=
  scan_quoted (by decide) h

theorem readStandard_qualified {schema table : String} (h : rest.head? ≠ some '"') :
    readStandard (qualified schema table ++ rest) =
      (readStandard rest).map (qualifiedTokens schema table ++ ·) := by
  have hdot : readStandard ('.' :: (identifier table ++ rest)) =
      (readStandard (identifier table ++ rest)).map ([.symbol '.'] ++ ·) :=
    readStandard_fixed ['.'] (by decide)
  rw [qualified, List.append_assoc, List.cons_append, readStandard_identifier (by simp), hdot,
    readStandard_identifier h, Option.map_map, Option.map_map]
  rfl

/-- The names of a list of columns, with a parenthesis behind them. -/
theorem readStandard_names (names : List String) :
    readStandard (commaSeparated (names.map identifier) ++ ')' :: rest) =
      (readStandard rest).map
        ((names.map Token.identifier).intersperse (.symbol ',') ++ .symbol ')' :: ·) := by
  have htexts : names.map identifier = (names.map String.toList).map (quoted '"') :=
    List.map_map.symm
  have hidentifiers : names.map Token.identifier =
      (names.map String.toList).map (Token.quoted '"') := List.map_map.symm
  have hnames : run isStandardMark .between (commaSeparated (names.map identifier) ++ [')']) =
      ((names.map Token.identifier).intersperse (.symbol ',') ++ [.symbol ')'], .between) := by
    rw [commaSeparated, htexts, hidentifiers,
      run_intercalate (by decide) rfl (by decide) (by decide)]
    rfl
  rw [List.append_cons, readStandard_fixed _ hnames]
  simp

/-- The columns, where they are listed, and the keyword behind them. -/
theorem readStandard_columnList (columns : Option (List String)) :
    readStandard (columnList columns ++ (" FROM ".toList ++ rest)) =
      (readStandard rest).map (columnTokens columns ++ .keyword "FROM" :: ·) := by
  have hfrom : readStandard (" FROM ".toList ++ rest) =
      (readStandard rest).map ([.keyword "FROM"] ++ ·) :=
    readStandard_fixed " FROM ".toList (by decide)
  cases columns with
  | none => exact hfrom
  | some names =>
      have hopen (cs : List Char) :
          readStandard (" (".toList ++ cs) = (readStandard cs).map ([.symbol '('] ++ ·) :=
        readStandard_fixed " (".toList (by decide)
      rw [columnList, List.append_assoc, List.append_assoc, List.singleton_append, hopen,
        readStandard_names, hfrom, Option.map_map, Option.map_map]
      simp [columnTokens, Function.comp_def]

/-- The credentials. -/
theorem readStandard_credentials (credentials : CopyCredentials) (h : rest.head? ≠ some '\'') :
    readStandard (credentials.chars ++ rest) =
      (readStandard rest).map (credentials.tokens ++ ·) := by
  cases credentials with
  | role name =>
      have hrole (cs : List Char) : readStandard ("IAM_ROLE ".toList ++ cs) =
          (readStandard cs).map ([.keyword "IAM_ROLE"] ++ ·) :=
        readStandard_fixed "IAM_ROLE ".toList (by decide)
      change readStandard ("IAM_ROLE ".toList ++ literal name ++ rest) = _
      simp only [List.append_assoc]
      rw [hrole, readStandard_literal h, Option.map_map]
      rfl
  | keys accessKey secretKey =>
      have haccess (cs : List Char) : readStandard ("ACCESS_KEY_ID ".toList ++ cs) =
          (readStandard cs).map ([.keyword "ACCESS_KEY_ID"] ++ ·) :=
        readStandard_fixed "ACCESS_KEY_ID ".toList (by decide)
      have hsecret (cs : List Char) : readStandard (" SECRET_ACCESS_KEY ".toList ++ cs) =
          (readStandard cs).map ([.keyword "SECRET_ACCESS_KEY"] ++ ·) :=
        readStandard_fixed " SECRET_ACCESS_KEY ".toList (by decide)
      change readStandard ("ACCESS_KEY_ID ".toList ++ literal accessKey.exposed ++
        " SECRET_ACCESS_KEY ".toList ++ literal secretKey.exposed ++ rest) = _
      simp only [List.append_assoc]
      rw [haccess, readStandard_literal (by simp), hsecret, readStandard_literal h,
        Option.map_map, Option.map_map, Option.map_map]
      rfl

/-- A text at the end of a statement. -/
theorem readStandard_lastLiteral (text : String) :
    readStandard (literal text) = some [.literal text] := by
  rw [← List.append_nil (literal text), readStandard_literal (by simp), readStandard_nil]
  rfl

/-- The statement that copies files is read as its template. -/
theorem tokens?_copy (s : CopyStatement) : tokens? isStandardMark s.text = some s.tokens := by
  have hcopy (cs : List Char) :
      readStandard ("COPY ".toList ++ cs) = (readStandard cs).map ([.keyword "COPY"] ++ ·) :=
    readStandard_fixed "COPY ".toList (by decide)
  have hblank (cs : List Char) : readStandard (' ' :: cs) = (readStandard cs).map ([] ++ ·) :=
    readStandard_fixed [' '] (by decide)
  have hformat (cs : List Char) :
      readStandard (" FORMAT AS JSON 'auto' MANIFEST REGION ".toList ++ cs) =
        (readStandard cs).map (formatTokens ++ ·) :=
    readStandard_fixed " FORMAT AS JSON 'auto' MANIFEST REGION ".toList (by decide)
  have hcolumns (cs : List Char) :
      (columnList s.columns ++ (" FROM ".toList ++ cs)).head? ≠ some '"' := by
    cases s.columns <;> simp [columnList]
  rw [tokens?, CopyStatement.text, copy, String.toList_ofList]
  change readStandard (copyChars ..) = _
  unfold copyChars
  simp only [List.append_assoc, List.cons_append]
  rw [hcopy, readStandard_qualified (hcolumns _), readStandard_columnList,
    readStandard_literal (by simp), hblank, readStandard_credentials _ (by simp), hformat,
    readStandard_lastLiteral]
  simp [CopyStatement.tokens]

/-- The statement that empties a table is read as its template. -/
theorem tokens?_delete (schema table : String) :
    tokens? isStandardMark (delete schema table) = some (deleteTokens schema table) := by
  have hlast : readStandard (qualified schema table) = some (qualifiedTokens schema table) := by
    rw [← List.append_nil (qualified schema table), readStandard_qualified (by simp),
      readStandard_nil]
    rfl
  rw [tokens?, delete, String.toList_ofList]
  calc readStandard (deleteChars schema table)
    _ = (readStandard (qualified schema table)).map ([.keyword "DELETE", .keyword "FROM"] ++ ·) :=
        readStandard_fixed "DELETE FROM ".toList (by decide)
    _ = some (deleteTokens schema table) := by
        rw [hlast]
        rfl

/-! ### What a template is made of -/

/-- The texts between marks of a kind. -/
def marked (mark : Char) (tokens : List Token) : List String := tokens.filterMap (Token.text? mark)

/-- The texts that credentials consist of. -/
def CopyCredentials.texts : CopyCredentials → List String
  | role name => [name]
  | keys accessKey secretKey => [accessKey.exposed, secretKey.exposed]

variable {mark : Char}

@[simp]
theorem marked_nil : marked mark [] = [] := rfl

@[simp]
theorem marked_cons (token : Token) (tokens : List Token) :
    marked mark (token :: tokens) = (token.text? mark).toList ++ marked mark tokens := by
  cases h : token.text? mark <;> simp [marked, h]

@[simp]
theorem marked_append (tokens more : List Token) :
    marked mark (tokens ++ more) = marked mark tokens ++ marked mark more :=
  List.filterMap_append

@[simp]
theorem Token.text?_identifier (name : String) :
    (Token.identifier name).text? mark = if mark = '"' then some name else none := by
  simp [identifier, text?]

@[simp]
theorem Token.text?_literal (text : String) :
    (Token.literal text).text? mark = if mark = '\'' then some text else none := by
  simp [literal, text?]

@[simp]
theorem Token.text?_keyword (name : String) : (Token.keyword name).text? mark = none := rfl

@[simp]
theorem Token.text?_symbol (c : Char) : (Token.symbol c).text? mark = none := rfl

/-- Names with commas between them are the names. -/
theorem marked_intersperse (names : List String) :
    marked mark ((names.map Token.identifier).intersperse (.symbol ',')) =
      if mark = '"' then names else [] := by
  induction names with
  | nil => simp
  | cons name names ih =>
      cases names with
      | nil => split <;> simp [*]
      | cons other names =>
          rw [List.map_cons, List.map_cons, List.intersperse_cons_cons, marked_cons, marked_cons,
            ← List.map_cons, ih]
          split <;> simp [*]

/-- The names in a template are the schema, the table and the columns. -/
theorem identifiers_tokens (s : CopyStatement) :
    marked '"' s.tokens = s.schema :: s.table :: s.columns.getD [] := by
  have hcolumns : marked '"' (columnTokens s.columns) = s.columns.getD [] := by
    cases s.columns <;> simp [columnTokens, marked_intersperse]
  have hcredentials : marked '"' s.credentials.tokens = [] := by
    cases s.credentials <;> simp [CopyCredentials.tokens]
  simp [CopyStatement.tokens, qualifiedTokens, formatTokens, hcolumns, hcredentials]

/-- The texts in a template are the manifest, the credentials, one that is fixed, and the region. -/
theorem literals_tokens (s : CopyStatement) :
    marked '\'' s.tokens = s.manifest :: s.credentials.texts ++ ["auto", s.region] := by
  have hcolumns : marked '\'' (columnTokens s.columns) = [] := by
    cases s.columns <;> simp [columnTokens, marked_intersperse]
  have hcredentials : marked '\'' s.credentials.tokens = s.credentials.texts := by
    cases s.credentials <;> simp [CopyCredentials.tokens, CopyCredentials.texts]
  simp [CopyStatement.tokens, qualifiedTokens, formatTokens, hcolumns, hcredentials]

/-- There is a parenthesis in a template if and only if columns are listed. -/
theorem parenthesis_mem_tokens_iff (s : CopyStatement) :
    .symbol '(' ∈ s.tokens ↔ s.columns.isSome = true := by
  have hcolumns : .symbol '(' ∈ columnTokens s.columns ↔ s.columns.isSome = true := by
    cases s.columns <;> simp [columnTokens]
  have hcredentials : .symbol '(' ∉ s.credentials.tokens := by
    cases s.credentials <;>
      simp [CopyCredentials.tokens, Token.keyword, Token.literal]
  simp [CopyStatement.tokens, qualifiedTokens, formatTokens, hcolumns, hcredentials, Token.keyword,
    Token.literal, Token.identifier]

/-- Credentials are known by their texts. -/
theorem CopyCredentials.eq_of_texts_append_eq {credentials credentials' : CopyCredentials}
    {region region' : String} (h : credentials.texts ++ ["auto", region] =
      credentials'.texts ++ ["auto", region']) :
    credentials = credentials' ∧ region = region' := by
  cases credentials with
  | role name => cases credentials' <;> simp_all [texts]
  | keys accessKey secretKey =>
      cases credentials' with
      | role name => simp [texts] at h
      | keys accessKey' secretKey' =>
          obtain ⟨access⟩ := accessKey
          obtain ⟨secret⟩ := secretKey
          obtain ⟨access'⟩ := accessKey'
          obtain ⟨secret'⟩ := secretKey'
          simp_all [texts]

/-- A template tells what its statement is made of. -/
theorem CopyStatement.eq_of_tokens_eq {s s' : CopyStatement} (h : s.tokens = s'.tokens) :
    s = s' := by
  have hnames := congrArg (marked '"') h
  have htexts := congrArg (marked '\'') h
  have hlisted : s.columns.isSome = true ↔ s'.columns.isSome = true := by
    rw [← parenthesis_mem_tokens_iff, ← parenthesis_mem_tokens_iff, h]
  rw [identifiers_tokens, identifiers_tokens, List.cons.injEq, List.cons.injEq] at hnames
  rw [literals_tokens, literals_tokens, List.cons_append, List.cons_append, List.cons.injEq]
    at htexts
  obtain ⟨hschema, htable, hcolumns⟩ := hnames
  obtain ⟨hmanifest, hrest⟩ := htexts
  obtain ⟨hcredentials, hregion⟩ := CopyCredentials.eq_of_texts_append_eq hrest
  have hlist : s.columns = s'.columns := by
    cases hs : s.columns <;> cases hs' : s'.columns <;> simp_all
  cases s
  cases s'
  simp_all

/-- Whatever the names and texts are, the statement that copies files and the one that empties a
table are read by the rules of standard SQL as their templates: the keywords are those of the
template, and each name is one identifier and each text one literal that are read as they were
given. Hence statements that are made of different parts are different, also where one lists no
columns and the other an empty list, or where their credentials are of different kinds. -/
theorem loading_statements_read_back :
    (∀ s : CopyStatement, tokens? isStandardMark s.text = some s.tokens) ∧
      (∀ schema table,
        tokens? isStandardMark (delete schema table) = some (deleteTokens schema table)) ∧
      (∀ s s' : CopyStatement, s.text = s'.text ↔ s = s') ∧
      (∀ schema table schema' table',
        delete schema table = delete schema' table' ↔ schema = schema' ∧ table = table') := by
  refine ⟨tokens?_copy, tokens?_delete, fun s s' => ⟨fun h => ?_, congrArg _⟩,
    fun schema table schema' table' => ⟨fun h => ?_, fun ⟨hschema, htable⟩ => ?_⟩⟩
  · have htokens := tokens?_copy s
    rw [h, tokens?_copy, Option.some.injEq] at htokens
    exact (CopyStatement.eq_of_tokens_eq htokens).symm
  · have htokens := tokens?_delete schema table
    rw [h, tokens?_delete, Option.some.injEq] at htokens
    have hnames := congrArg (marked '"') htokens
    simpa [deleteTokens, qualifiedTokens, eq_comm] using hnames
  · rw [hschema, htable]

end BatchTransfer.Sql
