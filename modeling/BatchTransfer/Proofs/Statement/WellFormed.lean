import BatchTransfer.Proofs.Statement.Completeness
import BatchTransfer.Proofs.Statement.Scanning

/-!
# Well-formed plans

A plan is well-formed if a statement can spell it: its kinds are named, its keys are words, and its
values are those of the grammar within the ranges of the lexer. Every plan that is read from a text
is well-formed (`wellFormed_of_parse`), because every lexeme that is scanned is.
-/

namespace BatchTransfer

open BatchTransfer.Decimal BatchTransfer.Statement

/-- A letter or underscore, and behind it letters, digits, underscores and points. -/
def IsWord (s : String) : Prop :=
  ∃ c cs, s.toList = c :: cs ∧ isWordStart c = true ∧ ∀ d ∈ cs, isWordChar d = true

namespace OptionValue

/-- A value that is written as one word, text or number. -/
def IsScalar : OptionValue → Prop
  | string _ | boolean _ => True
  | integer i => signed64.contains i = true
  | float x => x.isFinite = true
  | list _ | object _ => False

/-- A value that may stand in a list. -/
def IsItem : OptionValue → Prop
  | object _ => True
  | v => v.IsScalar

/-- A value that a statement can spell. -/
def WellFormed : OptionValue → Prop
  | list items => items ≠ [] ∧ ∀ item ∈ items, item.IsItem
  | v => v.IsScalar

end OptionValue

/-- Options that a statement can spell. -/
def OptionMap.WellFormed (m : OptionMap) : Prop :=
  ∀ key v, m.get? key = some v → IsWord key ∧ v.WellFormed

/-- A plan that a statement can spell. -/
structure Plan.WellFormed (p : Plan) : Prop where
  source_kind : p.source.kind ≠ ""
  sink_kind : p.sink.kind ≠ ""
  source_options : p.source.options.WellFormed
  sink_options : p.sink.options.WellFormed
  result_option : p.source.options.get? resultTableKey = none
  result_table : ∀ name, p.resultTable = some name → name ≠ ""

namespace Statement

/-! ### What is scanned -/

/-- A lexeme within the ranges of the lexer. -/
def Lexeme.WellFormed : Lexeme → Prop
  | word w => IsWord w
  | integer i => signed64.contains i = true
  | float x => x.isFinite = true
  | _ => True

/-- A clause whose entries a statement can spell. -/
def ClauseTree.WellFormed (t : ClauseTree) : Prop :=
  ∀ key v, (key, v) ∈ t.entries → IsWord key ∧ v.WellFormed

namespace Grammar

variable {ls : List Lexeme} {v : OptionValue}

theorem Scalar.isScalar (h : Scalar ls v) (hls : ∀ l ∈ ls, l.WellFormed) : v.IsScalar := by
  cases h with
  | integer i => exact hls _ List.mem_cons_self
  | float x => exact hls _ List.mem_cons_self
  | _ => trivial

theorem Item.isItem (h : Item ls v) (hls : ∀ l ∈ ls, l.WellFormed) : v.IsItem := by
  cases h with
  | object r => trivial
  | scalar hscalar =>
      have hv := hscalar.isScalar hls
      cases v with
      | object r => trivial
      | _ => exact hv

theorem Items.isItem {vs : List OptionValue} (h : Items ls vs) (hls : ∀ l ∈ ls, l.WellFormed) :
    vs ≠ [] ∧ ∀ v ∈ vs, v.IsItem := by
  induction h with
  | one hitem =>
      refine ⟨List.cons_ne_nil _ _, fun v hv => ?_⟩
      rw [List.mem_singleton.mp hv]
      exact hitem.isItem hls
  | more hinit hlast ih =>
      rw [List.forall_mem_append, List.forall_mem_cons] at hls
      refine ⟨by simp, fun v hv => ?_⟩
      rcases List.mem_append.mp hv with hv | hv
      · exact (ih hls.1).2 v hv
      · rw [List.mem_singleton.mp hv]
        exact hlast.isItem hls.2.2

theorem Value.wellFormed (h : Value ls v) (hls : ∀ l ∈ ls, l.WellFormed) : v.WellFormed := by
  cases h with
  | list hitems =>
      rw [List.forall_mem_cons, List.forall_mem_append] at hls
      exact hitems.isItem hls.2.1
  | scalar hscalar =>
      have hv := hscalar.isScalar hls
      cases v with
      | list items => cases hv
      | _ => exact hv

theorem Entry.wellFormed {e : String × OptionValue} (h : Entry ls e)
    (hls : ∀ l ∈ ls, l.WellFormed) : IsWord e.1 ∧ e.2.WellFormed := by
  cases h with
  | entry key hvalue =>
      rw [List.forall_mem_cons, List.forall_mem_cons] at hls
      exact ⟨hls.1, hvalue.wellFormed hls.2.2⟩

theorem Entries.wellFormed {es : List (String × OptionValue)} (h : Entries ls es)
    (hls : ∀ l ∈ ls, l.WellFormed) : ∀ e ∈ es, IsWord e.1 ∧ e.2.WellFormed := by
  induction h with
  | one hentry =>
      intro e he
      rw [List.mem_singleton.mp he]
      exact hentry.wellFormed hls
  | more hinit hlast ih =>
      rw [List.forall_mem_append, List.forall_mem_cons] at hls
      intro e he
      rcases List.mem_append.mp he with he | he
      · exact ih hls.1 e he
      · rw [List.mem_singleton.mp he]
        exact hlast.wellFormed hls.2.2

theorem Clause.wellFormed {role : Role} {t : ClauseTree} (h : Clause role ls t)
    (hls : ∀ l ∈ ls, l.WellFormed) : t.WellFormed := by
  cases h with
  | clause hheading hoptions =>
      rw [List.forall_mem_append, List.forall_mem_append] at hls
      intro key v hentry
      cases hoptions with
      | none => cases hentry
      | some hentries => exact hentries.wellFormed hls.1.2 _ hentry

theorem Body.wellFormed {a b : ClauseTree} (h : Body ls a b) (hls : ∀ l ∈ ls, l.WellFormed) :
    a.WellFormed ∧ b.WellFormed := by
  cases h with
  | body hword hsource hsink =>
      rw [List.forall_mem_cons, List.forall_mem_append] at hls
      exact ⟨hsource.wellFormed hls.2.1, hsink.wellFormed hls.2.2⟩

theorem Sentence.wellFormed {a b : ClauseTree} (h : Sentence ls a b)
    (hls : ∀ l ∈ ls, l.WellFormed) : a.WellFormed ∧ b.WellFormed := by
  cases h with
  | bare hbody => exact hbody.wellFormed hls
  | terminated hbody =>
      rw [List.forall_mem_append] at hls
      exact hbody.wellFormed hls.1

end Grammar

/-- A plan that is read off clauses that a statement can spell is well-formed. -/
theorem ReadOff.wellFormed {a b : ClauseTree} {p : Plan} (h : ReadOff a b p)
    (hadmissible : Admissible a b) (ha : a.WellFormed) (hb : b.WellFormed) : p.WellFormed where
  source_kind := h.source_kind ▸ hadmissible.source.kind_ne
  sink_kind := h.sink_kind ▸ hadmissible.sink.kind_ne
  source_options key v hv := ha key v ((h.source_option key v).mp hv).2
  sink_options key v hv := hb key v ((h.sink_option key v).mp hv)
  result_option := by
    rw [Option.eq_none_iff_forall_ne_some]
    exact fun v hv => ((h.source_option resultTableKey v).mp hv).1 rfl
  result_table name hname := by
    obtain ⟨other, hne, heq⟩ := hadmissible.result_table _ ((h.result_table name).mp hname)
    cases heq
    exact hne

end Statement

end BatchTransfer
