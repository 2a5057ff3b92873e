import BatchTransfer.Connector.Lines
import BatchTransfer.Proofs.Refusal
import Mathlib.Data.List.Forall2

/-!
# Lines that hold no record

A text is read whole or not at all. `Lines.Holds` says which records it holds, one for each line
that is not blank, and `Lines.FirstFault` which line is the first that holds none, counted over all
lines. Reading finds the one or the other (`records_eq_ok_iff`, `firstFault_of_records`).
-/

namespace BatchTransfer.Lines

/-- Whether a line is an object of JSON, which is the record. -/
def HoldsRecord (line : String) (r : Record) : Prop :=
  ∃ fields, Json.read? line = some (.object fields) ∧ r = .ofFields fields

/-- Whether a line is at fault: it is no JSON, or JSON of another kind than an object. -/
def HasFault (line : String) : LineFault → Prop
  | .notJson => Json.read? line = none
  | .notObject j => Json.read? line = some j ∧ ∀ fields, j ≠ .object fields

/-- Whether the lines of a text that are not blank hold the records, one each in order. -/
def Holds (text : String) (records : List Record) : Prop :=
  List.Forall₂ HoldsRecord ((ofText text).filter (!isBlankLine ·)) records

/-- Whether the line of a number, counted from one over all lines, is at fault, while those before
it are blank or hold records. -/
def FirstFault (text : String) (number : Nat) (fault : LineFault) : Prop :=
  ∃ before line after, ofText text = before ++ line :: after ∧ number = before.length + 1 ∧
    (∀ l ∈ before, isBlankLine l = true ∨ ∃ r, HoldsRecord l r) ∧
    isBlankLine line = false ∧ HasFault line fault

variable {line : String} {lines : List String} {r : Record} {records : List Record}
  {fault : LineFault} {number start : Nat}

theorem record_eq_ok_iff : record line = .ok r ↔ HoldsRecord line r := by
  rw [record, HoldsRecord]
  cases Json.read? line with
  | none => simp
  | some j => cases j <;> simp [Record.ofJson?, eq_comm]

theorem hasFault_of_record (h : record line = .error fault) : HasFault line fault := by
  rw [record] at h
  cases hread : Json.read? line with
  | none =>
      rw [hread] at h
      cases h
      exact hread
  | some j =>
      rw [hread] at h
      cases j with
      | object fields => cases h
      | _ =>
          cases h
          exact ⟨hread, nofun⟩

/-- The lines that are not blank, with their numbers behind that of the `start`. -/
def numberedFrom (start : Nat) (lines : List String) : List (Nat × String) :=
  ((lines.zipIdx start).map fun (line, i) => (i + 1, line)).filter fun (_, line) =>
    !isBlankLine line

theorem numberedFrom_of_blank (h : isBlankLine line = true) :
    numberedFrom start (line :: lines) = numberedFrom (start + 1) lines := by
  rw [numberedFrom, List.zipIdx_cons, List.map_cons, List.filter_cons_of_neg (by simp [h])]
  rfl

theorem numberedFrom_of_not_blank (h : isBlankLine line = false) :
    numberedFrom start (line :: lines) = (start + 1, line) :: numberedFrom (start + 1) lines := by
  rw [numberedFrom, List.zipIdx_cons, List.map_cons, List.filter_cons_of_pos (by simp [h])]
  rfl

theorem recordsOf_eq_ok_iff : recordsOf (numberedFrom start lines) = .ok records ↔
    List.Forall₂ HoldsRecord (lines.filter (!isBlankLine ·)) records := by
  induction lines generalizing start records with
  | nil => simp [numberedFrom, recordsOf, eq_comm]
  | cons line lines ih =>
      cases hblank : isBlankLine line with
      | true =>
          rw [numberedFrom_of_blank hblank, ih, List.filter_cons_of_neg (by simp [hblank])]
      | false =>
          rw [numberedFrom_of_not_blank hblank, recordsOf,
            List.filter_cons_of_pos (by simp [hblank]), List.forall₂_cons_left_iff]
          cases hrecord : record line with
          | error fault =>
              refine ⟨nofun, fun ⟨r, _, hr, _⟩ => ?_⟩
              rw [← record_eq_ok_iff, hrecord] at hr
              cases hr
          | ok r =>
              constructor
              · intro h
                obtain ⟨rest, hrest, rfl⟩ := exists_of_map_eq_ok h
                exact ⟨r, rest, record_eq_ok_iff.mp hrecord, ih.mp hrest, rfl⟩
              · rintro ⟨_, rest, hr, hrest, rfl⟩
                rw [← record_eq_ok_iff, hrecord] at hr
                cases hr
                dsimp only
                rw [ih.mpr hrest]
                rfl

theorem exists_of_recordsOf_eq_error
    (h : recordsOf (numberedFrom start lines) = .error (number, fault)) :
    ∃ before line after, lines = before ++ line :: after ∧ number = start + before.length + 1 ∧
      (∀ l ∈ before, isBlankLine l = true ∨ ∃ r, HoldsRecord l r) ∧
      isBlankLine line = false ∧ HasFault line fault := by
  induction lines generalizing start with
  | nil => cases h
  | cons line lines ih =>
      -- A line that is passed over stands before the line at fault among the others.
      have hlater (hpassed : isBlankLine line = true ∨ ∃ r, HoldsRecord line r)
          (hrest : recordsOf (numberedFrom (start + 1) lines) = .error (number, fault)) :
          ∃ before last after, line :: lines = before ++ last :: after ∧
            number = start + before.length + 1 ∧
            (∀ l ∈ before, isBlankLine l = true ∨ ∃ r, HoldsRecord l r) ∧
            isBlankLine last = false ∧ HasFault last fault := by
        obtain ⟨before, last, after, rfl, rfl, hbefore, hlast⟩ := ih hrest
        refine ⟨line :: before, last, after, rfl, ?_, List.forall_mem_cons.mpr ⟨hpassed, hbefore⟩,
          hlast⟩
        rw [List.length_cons]
        omega
      cases hblank : isBlankLine line with
      | true =>
          rw [numberedFrom_of_blank hblank] at h
          exact hlater (.inl hblank) h
      | false =>
          rw [numberedFrom_of_not_blank hblank, recordsOf] at h
          cases hrecord : record line with
          | error found =>
              rw [hrecord] at h
              cases h
              exact ⟨[], line, lines, rfl, rfl, nofun, hblank, hasFault_of_record hrecord⟩
          | ok r =>
              rw [hrecord] at h
              exact hlater (.inr ⟨r, record_eq_ok_iff.mp hrecord⟩) (eq_error_of_map_eq_error h)

variable {text : String}

/-- A text is read as the records that its lines hold. -/
theorem records_eq_ok_iff : Lines.records text = .ok records ↔ Holds text records :=
  recordsOf_eq_ok_iff

/-- A text that is not read has a first line at fault. -/
theorem firstFault_of_records (h : Lines.records text = .error (number, fault)) :
    FirstFault text number fault := by
  obtain ⟨before, line, after, hlines, hnumber, hline⟩ := exists_of_recordsOf_eq_error h
  exact ⟨before, line, after, hlines, by rw [hnumber, Nat.zero_add], hline⟩

end BatchTransfer.Lines
