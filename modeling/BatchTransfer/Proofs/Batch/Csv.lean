import BatchTransfer.Batch.Csv
import BatchTransfer.Proofs.Batch.Records
import Mathlib.Data.List.Forall2

/-!
# Comma-separated values are read back

`Csv.read?` reads a text by the rules of RFC 4180, apart from the writing: fields stand between
commas, a line feed ends a record, a field in quotes holds any characters, its quotes doubled, and a
line without characters is a record of one empty field. What `Csv.text` writes of a batch is read as
its names and the texts of its cells (`read?_text`), so the texts of batches tell these apart. The
main theorem is `Csv.text_reads_back`.
-/

namespace BatchTransfer.Csv

/-! ### Reading -/

/-- Where the reader of a text stands in a field, with what it has read of it. Behind a quote that
may end the field, it is not known yet whether the quote is doubled. -/
inductive Place where
  | start
  | bare (read : List Char)
  | quoted (read : List Char)
  | closing (read : List Char)
  deriving DecidableEq, Repr

/-- What has been read: the records, the fields of the record at hand, and where the reader stands
in its next field. -/
structure Reading where
  records : List (List String)
  fields : List String
  place : Place
  deriving DecidableEq, Repr

namespace Reading

/-- The beginning of a text. -/
def nothing : Reading := ⟨[], [], .start⟩

/-- A field has been read, and a comma or a line feed behind it. -/
def endField? (r : Reading) (read : List Char) (c : Char) : Option Reading :=
  if c = ',' then some ⟨r.records, r.fields ++ [String.ofList read], .start⟩
  else if c = '\n' then some ⟨r.records ++ [r.fields ++ [String.ofList read]], [], .start⟩
  else none

/-- Reads one character. Outside quotes, a field holds neither a quote nor a carriage return. -/
def next? (r : Reading) (c : Char) : Option Reading :=
  match r.place with
  | .start =>
      if c = '"' then some { r with place := .quoted [] }
      else if c = ',' ∨ c = '\n' then r.endField? [] c
      else if c = '\r' then none
      else some { r with place := .bare [c] }
  | .bare read =>
      if c = ',' ∨ c = '\n' then r.endField? read c
      else if c = '"' ∨ c = '\r' then none
      else some { r with place := .bare (read ++ [c]) }
  | .quoted read =>
      if c = '"' then some { r with place := .closing read }
      else some { r with place := .quoted (read ++ [c]) }
  | .closing read =>
      if c = '"' then some { r with place := .quoted (read ++ [c]) } else r.endField? read c

/-- The records, where the last one has been ended. -/
def finish? (r : Reading) : Option (List (List String)) :=
  if r.fields = [] ∧ r.place = .start then some r.records else none

end Reading

/-- The records of a text, if it is one of comma-separated values. -/
def read? (text : String) : Option (List (List String)) :=
  (text.toList.foldlM Reading.next? .nothing).bind Reading.finish?

/-- Line breaks and doubled quotes in a field, an empty line, and an empty field at an end. -/
example : read? "a,\" b\n\"\"\"\n\n\"\",\n" = some [["a", " b\n\""], [""], ["", ""]] := by decide

/-! ### What is read of what is written -/

variable {r : Reading} {cs : List Char} {c : Char}

/-- Characters that need no quotes are read as they are. -/
theorem foldlM_bare {read : List Char} (hplace : r.place = .bare read)
    (hcs : ∀ c ∈ cs, needsQuotes c = false) :
    cs.foldlM Reading.next? r = some { r with place := .bare (read ++ cs) } := by
  induction cs generalizing r read with
  | nil =>
      rw [List.append_nil, ← hplace]
      rfl
  | cons c cs ih =>
      rw [List.forall_mem_cons] at hcs
      obtain ⟨hc, hcs⟩ := hcs
      have hnext : r.next? c = some { r with place := .bare (read ++ [c]) } := by
        simp only [needsQuotes, Bool.or_eq_false_iff, beq_eq_false_iff_ne] at hc
        simp [Reading.next?, hplace, hc]
      rw [List.foldlM_cons, hnext, Option.bind_eq_bind, Option.bind_some, ih rfl hcs,
        List.append_assoc, List.singleton_append]

/-- Inside quotes, doubled quotes are read as the quotes they stand for. -/
theorem foldlM_doubleQuotes {read : List Char} (hplace : r.place = .quoted read) :
    (doubleQuotes cs).foldlM Reading.next? r = some { r with place := .quoted (read ++ cs) } := by
  induction cs generalizing r read with
  | nil =>
      rw [List.append_nil, ← hplace]
      rfl
  | cons c cs ih =>
      have hfirst : (if c == '"' then ['"', '"'] else [c]).foldlM Reading.next? r =
          some { r with place := .quoted (read ++ [c]) } := by
        by_cases hc : c = '"' <;> simp [Reading.next?, hplace, hc]
      rw [doubleQuotes, List.flatMap_cons, List.foldlM_append, hfirst, Option.bind_eq_bind,
        Option.bind_some, ← doubleQuotes, ih rfl, List.append_assoc, List.singleton_append]

/-- A field is read as its characters, whatever they are. -/
theorem foldlM_field (hplace : r.place = .start) (hc : c = ',' ∨ c = '\n') (cs : List Char) :
    (field cs ++ [c]).foldlM Reading.next? r = r.endField? cs c := by
  have hend (s : Reading) (hs : s.next? c = r.endField? cs c) :
      [c].foldlM Reading.next? s = r.endField? cs c := by
    rw [List.foldlM_cons, hs]
    exact bind_pure _
  have hquote : c ≠ '"' := by rcases hc with rfl | rfl <;> decide
  unfold field
  split
  · have hopen : r.next? '"' = some { r with place := .quoted [] } := by
      simp [Reading.next?, hplace]
    rw [List.cons_append, List.foldlM_cons, hopen, Option.bind_eq_bind, Option.bind_some,
      List.append_assoc, List.foldlM_append, foldlM_doubleQuotes rfl, Option.bind_eq_bind,
      Option.bind_some, List.nil_append, List.singleton_append, List.foldlM_cons]
    refine hend { r with place := .closing cs } ?_
    simp [Reading.next?, hquote, Reading.endField?]
  · rename_i hplain
    have hcs : ∀ c ∈ cs, needsQuotes c = false := by simpa using hplain
    cases cs with
    | nil =>
        refine hend r ?_
        simp [Reading.next?, hplace, hquote, hc]
    | cons first cs =>
        rw [List.forall_mem_cons] at hcs
        have hfirst : r.next? first = some { r with place := .bare [first] } := by
          have hbare := hcs.1
          simp only [needsQuotes, Bool.or_eq_false_iff, beq_eq_false_iff_ne] at hbare
          simp [Reading.next?, hplace, hbare]
        rw [List.foldlM_append, List.foldlM_cons, hfirst, Option.bind_eq_bind, Option.bind_some,
          foldlM_bare rfl hcs.2, Option.bind_some]
        refine hend _ ?_
        simp [Reading.next?, hc, Reading.endField?]

theorem line_singleton (text : List Char) : line [text] = field text ++ ['\n'] := by
  rw [line, List.map_singleton, List.intercalate_singleton]

theorem line_cons_cons (text next : List Char) (texts : List (List Char)) :
    line (text :: next :: texts) = field text ++ [','] ++ line (next :: texts) := by
  simp only [line, List.map_cons, List.intercalate_cons_cons, List.append_assoc]

/-- A line is read as one record. -/
theorem foldlM_line {texts : List (List Char)} (hne : texts ≠ []) (records : List (List String))
    (fields : List String) :
    (line texts).foldlM Reading.next? ⟨records, fields, .start⟩ =
      some ⟨records ++ [fields ++ texts.map String.ofList], [], .start⟩ := by
  induction texts generalizing fields with
  | nil => exact absurd rfl hne
  | cons text texts ih =>
      cases texts with
      | nil =>
          rw [line_singleton]
          exact foldlM_field (r := ⟨records, fields, .start⟩) rfl (.inr rfl) text
      | cons next texts =>
          have hfirst : (field text ++ [',']).foldlM Reading.next? ⟨records, fields, .start⟩ =
              some ⟨records, fields ++ [String.ofList text], .start⟩ :=
            foldlM_field (r := ⟨records, fields, .start⟩) rfl (.inl rfl) text
          rw [line_cons_cons, List.foldlM_append, hfirst]
          refine (ih (List.cons_ne_nil _ _) (fields ++ [String.ofList text])).trans ?_
          rw [List.append_assoc, List.singleton_append]
          rfl

/-- Lines are read as one record each. -/
theorem foldlM_lines {table : List (List (List Char))} (hne : ∀ texts ∈ table, texts ≠ [])
    (records : List (List String)) :
    (table.flatMap line).foldlM Reading.next? ⟨records, [], .start⟩ =
      some ⟨records ++ table.map (·.map String.ofList), [], .start⟩ := by
  induction table generalizing records with
  | nil => simp
  | cons texts table ih =>
      rw [List.forall_mem_cons] at hne
      rw [List.flatMap_cons, List.foldlM_append, foldlM_line hne.1]
      refine (ih hne.2 _).trans ?_
      simp

/-- A batch with columns is read as its names and, row by row, the texts of its values. -/
theorem read?_text {b : Batch} (hregular : b.IsRegular) (hcolumns : b.schema.fields ≠ []) :
    read? (text b) =
      some (b.schema.names :: b.rows.map fun row => row.map (String.ofList ∘ cellText)) := by
  have hrow : ∀ texts ∈ b.rows.map (·.map cellText), texts ≠ [] := by
    intro texts htexts
    obtain ⟨row, hrow, rfl⟩ := List.mem_map.mp htexts
    have hlength : 0 < row.length := by
      rw [hregular row hrow]
      exact List.length_pos_iff.mpr hcolumns
    exact List.ne_nil_of_length_pos (by rwa [List.length_map])
  have hnames : b.schema.names.map String.toList ≠ [] := by simpa [Schema.names] using hcolumns
  have hchars : chars b = line (b.schema.names.map String.toList) ++
      (b.rows.map (·.map cellText)).flatMap line := by
    rw [chars, List.flatMap_map]
  rw [read?, text, String.toList_ofList, hchars, List.foldlM_append, Reading.nothing,
    foldlM_line hnames, Option.bind_eq_bind, Option.bind_some, foldlM_lines hrow, Option.bind_some,
    Reading.finish?, if_pos ⟨rfl, rfl⟩]
  simp [Function.comp_def]

/-! ### The texts of cells -/

/-- The text of a value in its cell: none for null, itself for a text, and else its JSON text. -/
inductive IsCellText : Json → String → Prop where
  | null : IsCellText .null ""
  | string (s : String) : IsCellText (.string s) s
  | other {value : Json} (hnull : value ≠ .null) (hstring : ∀ s, value ≠ .string s) :
      IsCellText value value.compact

theorem isCellText_iff {value : Json} {s : String} :
    IsCellText value s ↔ String.ofList (cellText value) = s := by
  constructor
  · rintro (_ | _ | ⟨hnull, hstring⟩)
    · rfl
    · exact String.ofList_toList
    · cases value with
      | null => exact absurd rfl hnull
      | string s => exact absurd rfl (hstring s)
      | _ => rfl
  · rintro rfl
    cases value with
    | null => exact .null
    | string s => exact String.ofList_toList.symm ▸ .string s
    | _ => exact .other nofun nofun

/-- Whether the texts are those of the cells of a batch, row by row. -/
def HasCells (b : Batch) (cells : List (List String)) : Prop :=
  List.Forall₂ (List.Forall₂ IsCellText) b.rows cells

theorem hasCells_iff {b : Batch} {cells : List (List String)} :
    HasCells b cells ↔ (b.rows.map fun row => row.map (String.ofList ∘ cellText)) = cells := by
  have hmap {α β : Type} {f : α → β} {as : List α} {bs : List β} :
      List.Forall₂ (fun a b => f a = b) as bs ↔ as.map f = bs := by
    rw [← List.forall₂_eq_eq_eq, List.forall₂_map_left_iff]
  have hcell : IsCellText = fun value s => (String.ofList ∘ cellText) value = s :=
    funext fun _ => funext fun _ => propext isCellText_iff
  have hrow : List.Forall₂ IsCellText =
      fun row texts => row.map (String.ofList ∘ cellText) = texts :=
    funext fun _ => funext fun _ => propext (hcell ▸ hmap)
  rw [HasCells, hrow]
  exact hmap

/-- The text of a batch with columns is read back: first its names, and then one record for each row
in order, which holds the texts of its cells. So the text of no batch with other names or other
texts in its cells is the same. -/
theorem text_reads_back {b : Batch} (hregular : b.IsRegular) (hcolumns : b.schema.fields ≠ []) :
    ∃ cells, HasCells b cells ∧ read? (text b) = some (b.schema.names :: cells) ∧
      ∀ (other : Batch) (otherCells : List (List String)), other.IsRegular →
        other.schema.fields ≠ [] → HasCells other otherCells →
        b.schema.names ≠ other.schema.names ∨ cells ≠ otherCells → text b ≠ text other := by
  refine ⟨_, hasCells_iff.mpr rfl, read?_text hregular hcolumns, ?_⟩
  intro other otherCells hregular' hcolumns' hcells hdiffer hsame
  have hread := read?_text hregular' hcolumns'
  rw [hasCells_iff.mp hcells, ← hsame, read?_text hregular hcolumns, Option.some.injEq,
    List.cons.injEq] at hread
  exact hdiffer.elim (fun hnames => hnames hread.1) fun hne => hne hread.2

/-- A batch with a comma in a name, and with quotes, a line break and a blank in a cell. -/
def quotedBatch : Batch where
  schema := ⟨[⟨"a,b", .utf8, false⟩, ⟨"n", .int64, true⟩]⟩
  rows := [[.string " \"x\"\n", .null], [.string "", .int 1]]

theorem quotedBatch_isRegular : quotedBatch.IsRegular := by
  simp [Batch.IsRegular, quotedBatch, Schema.size]

/-- The batch is read back, and its text is not that of the batch without its second row. -/
theorem text_reads_back_quoted :
    quotedBatch.IsRegular ∧ quotedBatch.schema.fields ≠ [] ∧
    read? (text quotedBatch) = some [["a,b", "n"], [" \"x\"\n", ""], ["", "1"]] ∧
    text quotedBatch ≠ text { quotedBatch with rows := quotedBatch.rows.take 1 } := by
  have hcolumns : quotedBatch.schema.fields ≠ [] := List.cons_ne_nil _ _
  obtain ⟨cells, hcells, hread, hdiffer⟩ := text_reads_back quotedBatch_isRegular hcolumns
  obtain rfl : cells = [[" \"x\"\n", ""], ["", "1"]] :=
    (hasCells_iff.mp hcells).symm.trans (by decide)
  refine ⟨quotedBatch_isRegular, hcolumns, hread, ?_⟩
  refine hdiffer _ [[" \"x\"\n", ""]] ?_ hcolumns (hasCells_iff.mpr (by decide)) (.inr (by decide))
  exact fun row hrow => quotedBatch_isRegular row (List.mem_of_mem_take hrow)

end BatchTransfer.Csv
