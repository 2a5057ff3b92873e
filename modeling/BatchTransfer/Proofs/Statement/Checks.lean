import BatchTransfer.Proofs.Statement.Places
import BatchTransfer.Proofs.Statement.Soundness

/-!
# The checks that a statement must pass

What the grammar does not express is checked clause by clause: that a kind has a name, that no key is
given twice, and that the result table has a name. These checks are about the entries of a clause and
the places where they stand, so `planOfClauses` makes them for clauses with places, apart from the
reading of tokens. A clause with a name passes if its keys are all different
(`PlacedClause.exists_check`), and is refused at its first repetition otherwise
(`PlacedClause.exists_check_error`).
-/

namespace BatchTransfer.Statement

/-- Adds an entry to a clause, unless its key has been given before. -/
def Clause.enter (role : Role) (c : Clause) (e : PlacedEntry) : Except StatementFault Clause :=
  if c.hasKey e.key then .error (.duplicateKey e.offset role e.key)
  else .ok (c.add e.key e.value e.valueOffset)

/-- Adds entries to a clause, up to the first whose key has been given before. -/
def Clause.enterAll (role : Role) (c : Clause) (es : List PlacedEntry) :
    Except StatementFault Clause :=
  es.foldlM (enter role) c

/-- A clause with the places of its kind and of its entries. -/
structure PlacedClause where
  kind : String
  kindOffset : Nat
  entries : List PlacedEntry

namespace PlacedClause

/-- The clause without places. -/
def tree (t : PlacedClause) : ClauseTree := ⟨t.kind, t.entries.map PlacedEntry.entry⟩

/-- The places of the entries. -/
def places (t : PlacedClause) : List EntryPlace := t.entries.map PlacedEntry.toEntryPlace

/-- Checks the kind of the clause and adds its entries. -/
def check (t : PlacedClause) (role : Role) : Except StatementFault Clause :=
  if t.kind = "" then .error (.malformed t.kindOffset .emptyKind)
  else (Clause.new t.kind).enterAll role t.entries

theorem keys_tree (t : PlacedClause) : t.tree.keys = t.places.map (·.key) := by
  simp [tree, ClauseTree.keys, places, PlacedEntry.entry, Function.comp_def]

end PlacedClause

/-- The plan that two clauses are, if they pass the checks. The source clause is checked first. -/
def planOfClauses (source sink : PlacedClause) : Except StatementFault Plan :=
  (source.check .source).bind fun c =>
    (sourceSide c).bind fun first =>
      (sink.check .sink).map fun d => ⟨first.endpoint, d.toEndpoint, first.resultTable⟩

/-! ### Keys that are given twice -/

/-- The first entry of a clause whose key has been given before. -/
def FirstRepetition (places : List EntryPlace) (repeated : EntryPlace) : Prop :=
  ∃ before after, places = before ++ repeated :: after ∧
    (before.map (·.key)).Nodup ∧ repeated.key ∈ before.map (·.key)

theorem FirstRepetition.not_nodup {places : List EntryPlace} {repeated : EntryPlace}
    (h : FirstRepetition places repeated) : ¬ (places.map (·.key)).Nodup := by
  obtain ⟨before, after, rfl, -, hmem⟩ := h
  rw [List.map_append, List.map_cons, List.nodup_append]
  rintro ⟨-, -, hapart⟩
  exact hapart _ hmem _ List.mem_cons_self rfl

section Entries

variable {role : Role} {c c' : Clause} {t : ClauseTree} {kind : String} {e : PlacedEntry}
  {es : List PlacedEntry} {fault : StatementFault}

theorem enter_eq_error_iff : c.enter role e = .error fault ↔
    c.hasKey e.key = true ∧ fault = .duplicateKey e.offset role e.key := by
  rw [Clause.enter]
  cases c.hasKey e.key <;> simp [eq_comm]

theorem enterAll_cons : c.enterAll role (e :: es) =
    (c.enter role e).bind fun next => next.enterAll role es :=
  List.foldlM_cons

theorem enterAll_cons_eq_ok_iff : c.enterAll role (e :: es) = .ok c' ↔
    c.hasKey e.key = false ∧ (c.add e.key e.value e.valueOffset).enterAll role es = .ok c' := by
  rw [enterAll_cons, Clause.enter]
  cases c.hasKey e.key <;> simp [Except.bind]

theorem enterAll_append (more : List PlacedEntry) : c.enterAll role (es ++ more) =
    (c.enterAll role es).bind fun next => next.enterAll role more :=
  List.foldlM_append

/-- A clause holds the entries that have been added to it. -/
theorem Clause.Holds.enterAll (h : c.Holds t) (hadded : c.enterAll role es = .ok c') :
    c'.Holds ⟨t.kind, t.entries ++ es.map PlacedEntry.entry⟩ := by
  induction es generalizing c t with
  | nil =>
      cases hadded
      simpa using h
  | cons e es ih =>
      obtain ⟨hkey, hrest⟩ := enterAll_cons_eq_ok_iff.mp hadded
      simpa [PlacedEntry.entry] using ih (h.add hkey e.value e.valueOffset) hrest

/-- The entry that names the result table keeps the place of its value. -/
theorem exists_of_resultTable {v : OptionValue} {offset : Nat}
    (hadded : c.enterAll role es = .ok c') (htable : c'.resultTable = some (v, offset)) :
    c.resultTable = some (v, offset) ∨ ∃ e ∈ es, e.key = resultTableKey ∧ e.valueOffset = offset := by
  induction es generalizing c with
  | nil =>
      cases hadded
      exact .inl htable
  | cons e es ih =>
      obtain ⟨-, hrest⟩ := enterAll_cons_eq_ok_iff.mp hadded
      rcases ih hrest with hbefore | ⟨e', he', hkey⟩
      · rw [Clause.add] at hbefore
        split at hbefore
        · rename_i hkey
          cases hbefore
          exact .inr ⟨e, List.mem_cons_self, hkey, rfl⟩
        · exact .inl hbefore
      · exact .inr ⟨e', List.mem_cons_of_mem _ he', hkey⟩

/-- Entries that are refused are refused at their first repetition. -/
theorem exists_firstRepetition (h : (Clause.new kind).enterAll role es = .error fault) :
    ∃ repeated, FirstRepetition (es.map PlacedEntry.toEntryPlace) repeated ∧
      fault = .duplicateKey repeated.offset role repeated.key := by
  obtain ⟨before, e, after, passed, rfl, hpassed, hrefused⟩ := foldlM_eq_error_iff.mp h
  obtain ⟨hkey, rfl⟩ := enter_eq_error_iff.mp hrefused
  have hholds := (Clause.Holds.new kind).enterAll hpassed
  refine ⟨e.toEntryPlace, ⟨before.map PlacedEntry.toEntryPlace,
    after.map PlacedEntry.toEntryPlace, by simp, ?_, ?_⟩, rfl⟩
  · simpa [ClauseTree.keys, PlacedEntry.entry, Function.comp_def] using hholds.keys_nodup
  · simpa [ClauseTree.keys, PlacedEntry.entry, Function.comp_def] using hholds.hasKey_iff.mp hkey

/-- A source side is refused only for its result table. -/
theorem sourceSide_error (h : sourceSide c = .error fault) :
    ∃ v offset, c.resultTable = some (v, offset) ∧
      fault = .malformed offset .unnamedResultTable := by
  unfold sourceSide at h
  split at h
  · cases h
  · rename_i name offset htable
    split at h
    · cases h
      exact ⟨_, offset, htable, rfl⟩
    · cases h
  · rename_i v offset _ htable
    cases h
    exact ⟨v, offset, htable, rfl⟩

end Entries

namespace PlacedClause

variable {t : PlacedClause} {role : Role} {c : Clause} {fault : StatementFault}

/-- A clause that passes holds its entries. -/
theorem holds_of_check (h : t.check role = .ok c) : c.Holds t.tree := by
  rw [check] at h
  split at h
  · cases h
  · exact (Clause.Holds.new t.kind).enterAll h

/-- A clause with a name is refused only at its first repetition. -/
theorem exists_firstRepetition_of_check (hkind : t.kind ≠ "") (h : t.check role = .error fault) :
    ∃ repeated, FirstRepetition t.places repeated ∧
      fault = .duplicateKey repeated.offset role repeated.key := by
  rw [check, if_neg hkind] at h
  exact exists_firstRepetition h

/-- A clause with a name passes if no key is given twice. -/
theorem exists_check (hkind : t.kind ≠ "") (hkeys : t.tree.keys.Nodup) (role : Role) :
    ∃ c, t.check role = .ok c := by
  cases hcheck : t.check role with
  | ok c => exact ⟨c, rfl⟩
  | error fault =>
      obtain ⟨repeated, hrepeated, -⟩ := exists_firstRepetition_of_check hkind hcheck
      exact absurd (t.keys_tree ▸ hkeys) hrepeated.not_nodup

/-- A clause with a name is refused at its first repetition if a key is given twice. -/
theorem exists_check_error (hkind : t.kind ≠ "") (hkeys : ¬ t.tree.keys.Nodup) (role : Role) :
    ∃ repeated, FirstRepetition t.places repeated ∧
      t.check role = .error (.duplicateKey repeated.offset role repeated.key) := by
  cases hcheck : t.check role with
  | ok c => exact absurd (holds_of_check hcheck).keys_nodup hkeys
  | error fault =>
      obtain ⟨repeated, hrepeated, rfl⟩ := exists_firstRepetition_of_check hkind hcheck
      exact ⟨repeated, hrepeated, rfl⟩

/-- A clause whose entry for the result table does not name it is refused at the value of this
entry. -/
theorem exists_sourceSide_error (hcheck : t.check role = .ok c) (hnames : ¬ t.tree.NamesResultTable) :
    ∃ place ∈ t.places, place.key = resultTableKey ∧
      sourceSide c = .error (.malformed place.valueOffset .unnamedResultTable) := by
  have hplace {v : OptionValue} {offset : Nat} (htable : c.resultTable = some (v, offset)) :
      ∃ place ∈ t.places, place.key = resultTableKey ∧ place.valueOffset = offset := by
    rw [check] at hcheck
    split at hcheck
    · cases hcheck
    · rcases exists_of_resultTable hcheck htable with hnew | ⟨e, he, hkey, hoffset⟩
      · cases hnew
      · exact ⟨e.toEntryPlace, List.mem_map_of_mem he, hkey, hoffset⟩
  cases hside : sourceSide c with
  | ok first => exact absurd ((holds_of_check hcheck).of_sourceSide hside).names hnames
  | error fault =>
      obtain ⟨v, offset, htable, rfl⟩ := sourceSide_error hside
      obtain ⟨place, hmem, hkey, rfl⟩ := hplace htable
      exact ⟨place, hmem, hkey, rfl⟩

end PlacedClause

/-! ### The outcome of all checks -/

section Outcome

variable {a b : PlacedClause}

/-- Clauses that are admissible pass the checks, and the plan is read off them. -/
theorem exists_planOfClauses (h : Admissible a.tree b.tree) :
    ∃ p, planOfClauses a b = .ok p ∧ ReadOff a.tree b.tree p := by
  obtain ⟨c, hc⟩ := a.exists_check h.source.kind_ne h.source.keys_nodup .source
  obtain ⟨d, hd⟩ := b.exists_check h.sink.kind_ne h.sink.keys_nodup .sink
  have hsource := PlacedClause.holds_of_check hc
  obtain ⟨first, hfirst⟩ := hsource.exists_sourceSide h.result_table
  refine ⟨⟨first.endpoint, d.toEndpoint, first.resultTable⟩, ?_,
    (PlacedClause.holds_of_check hd).readOff (hsource.of_sourceSide hfirst)⟩
  simp [planOfClauses, hc, hfirst, hd, Except.bind, Except.map]

end Outcome

end BatchTransfer.Statement
