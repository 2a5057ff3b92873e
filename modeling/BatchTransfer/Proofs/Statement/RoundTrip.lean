import BatchTransfer.Proofs.Statement.WellFormed

/-!
# The canonical statement of a plan is read back

`Plan.display` and `Statement.parse` are inverse on well-formed plans (`parse_display`). The
canonical text of every part of a plan spells lexemes that derive from the symbol of the part, so
the canonical statement derives from the grammar and the plan is read off its derivation.
-/

namespace BatchTransfer

open BatchTransfer.Decimal BatchTransfer.Statement
open Grammar (Scalar Item Items Value Entry Entries OptionList Heading)

namespace OptionValue

/-- What a value is written with beside brackets and commas. -/
def literals : OptionValue → List OptionValue
  | list items => items
  | v => [v]

/-- A literal that is read back from its text, where other programs read and write it. -/
def ReadsBack : OptionValue → Prop
  | float x => readFloat? (optionLayout.chars x) = some x
  | object r => r.ReadsBack
  | _ => True

/-- The lexemes `ls` are spelled by a value in front of anything that does not go on with it. -/
def Spelled (v : OptionValue) (ls : List Lexeme) : Prop :=
  ∀ rest rs, Stops rest → Spells rest rs → Spells (v.chars ++ rest) (ls ++ rs)

variable {v : OptionValue} {items : List OptionValue} {rest : List Char} {rs : List Lexeme}

theorem stops_cons {c : Char} (h : isWordChar c = false) (cs : List Char) : Stops (c :: cs) := by
  rintro _ ⟨⟩
  exact h

theorem exists_scalar (h : v.IsScalar) (hread : v.ReadsBack) :
    ∃ ls, Scalar ls v ∧ v.Spelled ls := by
  cases v with
  | string s => exact ⟨_, .string s, fun _ _ _ hrest => hrest.quoted s⟩
  | integer i => exact ⟨_, .integer i, fun _ _ hstops hrest => hrest.integer h hstops⟩
  | float x => exact ⟨_, .float x, fun _ _ hstops hrest => hrest.float hread hstops⟩
  | boolean b =>
      cases b with
      | true =>
          refine ⟨_, .yes (Text.equalFold_self "true"), fun _ _ hstops hrest => ?_⟩
          exact hrest.word 't' ['r', 'u', 'e'] (by decide) (by decide) hstops
      | false =>
          refine ⟨_, .no (Text.equalFold_self "false"), fun _ _ hstops hrest => ?_⟩
          exact hrest.word 'f' ['a', 'l', 's', 'e'] (by decide) (by decide) hstops
  | list items => cases h
  | object r => cases h

/-- An item is a scalar or an object. -/
theorem IsItem.cases (h : v.IsItem) : v.IsScalar ∨ ∃ r, v = .object r := by
  cases v with
  | object r => exact .inr ⟨r, rfl⟩
  | _ => exact .inl h

theorem exists_item (h : v.IsItem) (hread : v.ReadsBack) : ∃ ls, Item ls v ∧ v.Spelled ls := by
  rcases h.cases with hv | ⟨r, rfl⟩
  · obtain ⟨ls, hscalar, hspelled⟩ := exists_scalar hv hread
    exact ⟨ls, .scalar hscalar, hspelled⟩
  · exact ⟨_, .object r, fun _ _ _ hrest => hrest.object hread⟩

theorem stops_itemsChars (items : List OptionValue) (rest : List Char) :
    Stops (itemsChars items ++ rest) := by
  cases items <;> exact stops_cons (by decide) _

/-- The items of a list behind the first ones. -/
theorem exists_items (hitems : ∀ v ∈ items, v.IsItem) (hread : ∀ v ∈ items, v.ReadsBack) :
    ∃ ms, (∀ ls vs, Items ls vs → Items (ls ++ ms) (vs ++ items)) ∧
      ∀ rest rs, Spells rest rs →
        Spells (itemsChars items ++ rest) (ms ++ .rightBracket :: rs) := by
  induction items with
  | nil =>
      refine ⟨[], fun ls vs h => by simpa using h, fun rest rs h => ?_⟩
      exact h.sign (c := ']') rfl
  | cons v items ih =>
      rw [List.forall_mem_cons] at hitems hread
      obtain ⟨ls, hitem, hspelled⟩ := exists_item hitems.1 hread.1
      obtain ⟨ms, hderives, hspells⟩ := ih hitems.2 hread.2
      refine ⟨.comma :: (ls ++ ms), fun before vs h => ?_, fun rest rs h => ?_⟩
      · have hmore := hderives _ _ (.more h hitem)
        simpa using hmore
      · have hitem := hspelled _ _ (stops_itemsChars items rest) (hspells rest rs h)
        have hcomma := (hitem.blank (c := ' ') (by decide)).sign
          (show signOf? ',' = some .comma from rfl)
        simpa [itemsChars] using hcomma

/-- A well-formed value is a scalar or a list of items. -/
theorem WellFormed.cases (h : v.WellFormed) :
    v.IsScalar ∨ ∃ item items, v = .list (item :: items) ∧ item.IsItem ∧
      ∀ v ∈ items, v.IsItem := by
  cases v with
  | list items =>
      obtain ⟨hne, hitems⟩ := h
      obtain ⟨item, items, rfl⟩ := List.exists_cons_of_ne_nil hne
      rw [List.forall_mem_cons] at hitems
      exact .inr ⟨item, items, rfl, hitems⟩
  | _ => exact .inl h

/-- A scalar is what it is written with. -/
theorem IsScalar.literals_eq (h : v.IsScalar) : v.literals = [v] := by
  cases v with
  | list items => cases h
  | _ => rfl

/-- A well-formed value spells lexemes that derive from the symbol for values. -/
theorem exists_value (h : v.WellFormed) (hread : ∀ l ∈ v.literals, l.ReadsBack) :
    ∃ ls, Value ls v ∧ v.Spelled ls := by
  rcases h.cases with hv | ⟨item, items, rfl, hitem, hitems⟩
  · rw [hv.literals_eq, List.forall_mem_singleton] at hread
    obtain ⟨ls, hscalar, hspelled⟩ := exists_scalar hv hread
    exact ⟨ls, .scalar hscalar, hspelled⟩
  · rw [literals, List.forall_mem_cons] at hread
    obtain ⟨ls, hderives, hspelled⟩ := exists_item hitem hread.1
    obtain ⟨ms, hmore, hspells⟩ := exists_items hitems hread.2
    refine ⟨_, .list (hmore _ _ (.one hderives)), fun rest rs _ hrest => ?_⟩
    have hfirst := hspelled _ _ (stops_itemsChars items rest) (hspells rest rs hrest)
    have hbracket := hfirst.sign (show signOf? '[' = some .leftBracket from rfl)
    simpa [chars] using hbracket

end OptionValue

namespace Endpoint

open OptionValue (stops_cons)

variable {e : String × OptionValue} {es : List (String × OptionValue)}

/-- An entry that a statement can spell, with literals that are read back. -/
def Spellable (e : String × OptionValue) : Prop :=
  IsWord e.1 ∧ e.2.WellFormed ∧ ∀ l ∈ e.2.literals, l.ReadsBack

/-- An entry spells lexemes that derive from the symbol for options. -/
theorem exists_entry (h : Spellable e) :
    ∃ ls, Entry ls e ∧ ∀ rest rs, Stops rest → Spells rest rs →
      Spells (entryChars e ++ rest) (ls ++ rs) := by
  obtain ⟨key, v⟩ := e
  obtain ⟨⟨c, cs, hkey, hc, hcs⟩, hv, hread⟩ := h
  obtain ⟨ls, hvalue, hspelled⟩ := OptionValue.exists_value hv hread
  refine ⟨_, .entry key hvalue, fun rest rs hstops hrest => ?_⟩
  have hequals := (hspelled rest rs hstops hrest).sign (show signOf? '=' = some .equals from rfl)
  have hword := hequals.word _ _ hc (List.all_eq_true.mpr hcs) (stops_cons (by decide) _)
  rw [← hkey, String.ofList_toList] at hword
  simpa [entryChars, hkey] using hword

/-- The entries behind the first. -/
def tailChars (es : List (String × OptionValue)) : List Char :=
  es.flatMap fun e => ',' :: ' ' :: entryChars e

theorem intercalate_entryChars (e : String × OptionValue) (es : List (String × OptionValue)) :
    [',', ' '].intercalate ((e :: es).map entryChars) = entryChars e ++ tailChars es := by
  induction es generalizing e with
  | nil => simp [tailChars]
  | cons e' es ih =>
      rw [List.map_cons, List.map_cons, List.intercalate_cons_cons, ← List.map_cons, ih e']
      simp [tailChars]

theorem stops_tailChars (es : List (String × OptionValue)) (rest : List Char) :
    Stops (tailChars es ++ ')' :: rest) := by
  cases es <;> exact stops_cons (by decide) _

/-- The entries behind the first ones. -/
theorem exists_entries (hes : ∀ e ∈ es, Spellable e) :
    ∃ ms, (∀ ls before, Entries ls before → Entries (ls ++ ms) (before ++ es)) ∧
      ∀ rest rs, Spells rest rs →
        Spells (tailChars es ++ ')' :: rest) (ms ++ .rightParen :: rs) := by
  induction es with
  | nil =>
      refine ⟨[], fun ls before h => by simpa using h, fun rest rs h => ?_⟩
      exact h.sign (c := ')') rfl
  | cons e es ih =>
      rw [List.forall_mem_cons] at hes
      obtain ⟨ls, hentry, hspelled⟩ := exists_entry hes.1
      obtain ⟨ms, hderives, hspells⟩ := ih hes.2
      refine ⟨.comma :: (ls ++ ms), fun first before h => ?_, fun rest rs h => ?_⟩
      · have hmore := hderives _ _ (.more h hentry)
        simpa using hmore
      · have hfirst := hspelled _ _ (stops_tailChars es rest) (hspells rest rs h)
        have hcomma := (hfirst.blank (c := ' ') (by decide)).sign
          (show signOf? ',' = some .comma from rfl)
        simpa [tailChars] using hcomma

/-- The options between parentheses spell lexemes that derive from the symbol for them. -/
theorem exists_optionList (hes : ∀ e ∈ es, Spellable e) :
    ∃ ls, OptionList ls es ∧ ∀ rest rs, Spells rest rs →
      Spells ([',', ' '].intercalate (es.map entryChars) ++ ')' :: rest)
        (ls ++ .rightParen :: rs) := by
  cases es with
  | nil => exact ⟨[], .none, fun rest rs h => h.sign (c := ')') rfl⟩
  | cons e es =>
      rw [List.forall_mem_cons] at hes
      obtain ⟨ls, hentry, hspelled⟩ := exists_entry hes.1
      obtain ⟨ms, hderives, hspells⟩ := exists_entries hes.2
      refine ⟨ls ++ ms, .some (hderives _ _ (.one hentry)), fun rest rs h => ?_⟩
      rw [intercalate_entryChars, List.append_assoc, List.append_assoc]
      exact hspelled _ _ (stops_tailChars es rest) (hspells rest rs h)

/-- The heading of a clause spells lexemes that derive from the symbol for it. -/
theorem exists_heading (role : Role) (kind : String) :
    ∃ ls, Heading role kind ls ∧ ∀ rest rs, Spells rest rs →
      Spells (role.keyword.toList ++ '(' :: ((OptionValue.string kind).chars ++
        (") OPTIONS(".toList ++ rest))) (ls ++ rs) := by
  refine ⟨_, .heading (Text.equalFold_self role.keyword) (Text.equalFold_self "OPTIONS"),
    fun rest rs h => ?_⟩
  have hparen := h.sign (show signOf? '(' = some .leftParen from rfl)
  have hoptions := hparen.word 'O' ['P', 'T', 'I', 'O', 'N', 'S'] (by decide) (by decide)
    (stops_cons (by decide) _)
  have hclosing := (hoptions.blank (c := ' ') (by decide)).sign
    (show signOf? ')' = some .rightParen from rfl)
  have hkind := (hclosing.quoted kind).sign (show signOf? '(' = some .leftParen from rfl)
  cases role with
  | source =>
      exact hkind.word 'S' ['O', 'U', 'R', 'C', 'E'] (by decide) (by decide)
        (stops_cons (by decide) _)
  | sink =>
      exact hkind.word 'S' ['I', 'N', 'K'] (by decide) (by decide)
        (stops_cons (by decide) _)

/-- The canonical clause of a side spells lexemes that derive from the symbol for clauses. -/
theorem exists_clause (role : Role) (side : Endpoint) (more : List (String × OptionValue))
    (hes : ∀ e ∈ side.options.entries ++ more, Spellable e) :
    ∃ ls, Grammar.Clause role ls ⟨side.kind, side.options.entries ++ more⟩ ∧
      ∀ rest rs, Spells rest rs → Spells (side.clauseChars role more ++ rest) (ls ++ rs) := by
  obtain ⟨ls, hheading, hspelled⟩ := exists_heading role side.kind
  obtain ⟨ms, hoptions, hspells⟩ := exists_optionList hes
  refine ⟨_, .clause hheading hoptions, fun rest rs h => ?_⟩
  have hclause := hspelled _ _ (hspells rest rs h)
  simpa [clauseChars] using hclause

end Endpoint

namespace Plan

open Endpoint (Spellable)

variable {p : Plan}

/-- What the values of a plan are written with beside brackets and commas. -/
def literals (p : Plan) : List OptionValue :=
  (p.source.options.entries ++ p.sink.options.entries).flatMap (·.2.literals)

/-- The source clause of the canonical statement. -/
def sourceTree (p : Plan) : ClauseTree := ⟨p.source.kind, p.source.options.entries ++ p.resultEntry⟩

/-- The sink clause of the canonical statement. -/
def sinkTree (p : Plan) : ClauseTree := ⟨p.sink.kind, p.sink.options.entries ++ []⟩

theorem mem_resultEntry {key : String} {v : OptionValue} :
    (key, v) ∈ p.resultEntry ↔
      key = resultTableKey ∧ ∃ name, p.resultTable = some name ∧ v = .string name := by
  unfold resultEntry
  split
  · rename_i name hname
    simp [hname]
  · rename_i hname
    simp [hname]

namespace WellFormed

theorem not_mem_source (h : p.WellFormed) (v : OptionValue) :
    (resultTableKey, v) ∉ p.source.options.entries := by
  rw [← KeyMap.get?_eq_some_iff, h.result_option]
  simp

/-- A plan is read off the clauses of its canonical statement. -/
theorem readOff (h : p.WellFormed) : ReadOff p.sourceTree p.sinkTree p where
  source_kind := rfl
  sink_kind := rfl
  source_option key v := by
    -- The entry for the result table stands behind the options and is none of them.
    rw [KeyMap.get?_eq_some_iff, sourceTree, List.mem_append, mem_resultEntry]
    constructor
    · intro hentry
      refine ⟨?_, .inl hentry⟩
      rintro rfl
      exact h.not_mem_source v hentry
    · rintro ⟨hkey, hentry | ⟨hkey', -⟩⟩
      · exact hentry
      · exact absurd hkey' hkey
  sink_option key v := by
    rw [KeyMap.get?_eq_some_iff, sinkTree, List.append_nil]
  result_table name := by
    rw [sourceTree, List.mem_append, mem_resultEntry]
    constructor
    · intro hname
      exact .inr ⟨rfl, name, hname, rfl⟩
    · rintro (hentry | ⟨-, other, hother, heq⟩)
      · exact absurd hentry (h.not_mem_source _)
      · cases heq
        exact hother

end WellFormed

end Plan

end BatchTransfer
