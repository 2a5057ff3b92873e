/-!
# Column projections

A projection keeps all columns or names the columns to keep, in the order in which they are
wanted. `Projection.ofList_eq_ok_iff` says which lists of names are accepted.
-/

namespace BatchTransfer

/-- The columns that a transfer keeps. -/
inductive Projection where
  | all
  | columns (names : List String)
  deriving DecidableEq, Repr, Inhabited

/-- Why a list of column names is no projection. -/
inductive ProjectionError where
  | noColumns
  | starAmongColumns
  | emptyName
  | duplicate (name : String)
  deriving DecidableEq, Repr

/-- The error in words. -/
def ProjectionError.message : ProjectionError → String
  | noColumns => "column list must not be empty"
  | starAmongColumns => "'*' cannot be combined with explicit columns"
  | emptyName => "column names must not be empty"
  | duplicate name => s!"duplicate column '{name}'"

namespace Projection

/-- The name that stands for all columns. -/
def star : String := "*"

/-- Checks the names behind those already `seen`. -/
def checkNames (seen : List String) : List String → Except ProjectionError Unit
  | [] => .ok ()
  | name :: rest =>
      if name = star then .error .starAmongColumns
      else if name = "" then .error .emptyName
      else if name ∈ seen then .error (.duplicate name)
      else checkNames (name :: seen) rest

/-- The projection that a list of names asks for. The list `*` alone means all columns; any other
list must hold distinct names, none of them empty or a star. -/
def ofList (names : List String) : Except ProjectionError Projection :=
  match names with
  | [] => .error .noColumns
  | names =>
      if names = [star] then .ok .all
      else (checkNames [] names).map fun _ => .columns names

theorem checkNames_eq_ok_iff {seen names : List String} :
    checkNames seen names = .ok () ↔
      (∀ name ∈ names, name ≠ star ∧ name ≠ "" ∧ name ∉ seen) ∧ names.Nodup := by
  induction names generalizing seen with
  | nil => simp [checkNames]
  | cons name rest ih =>
    simp only [checkNames]
    split
    · simp_all
    · split
      · simp_all
      · split
        · simp_all
        · rw [ih]
          simp only [List.mem_cons, List.nodup_cons]
          grind

/-- A list of names is accepted exactly if it is the star alone or holds at least one name, only
distinct ones, and neither an empty name nor a star. -/
theorem ofList_eq_ok_iff {names : List String} {projection : Projection} :
    ofList names = .ok projection ↔
      (names = [star] ∧ projection = .all) ∨
        (names ≠ [] ∧ (∀ name ∈ names, name ≠ star ∧ name ≠ "") ∧ names.Nodup ∧
          projection = .columns names) := by
  cases names with
  | nil => simp [ofList]
  | cons name rest =>
    simp only [ofList]
    split
    · rename_i h
      rw [h]
      simp [eq_comm]
    · rename_i h
      cases hc : checkNames [] (name :: rest) with
      | error e =>
        have : ¬ checkNames [] (name :: rest) = .ok () := by simp [hc]
        rw [checkNames_eq_ok_iff] at this
        simp only [Except.map]
        simp_all
      | ok u =>
        have := checkNames_eq_ok_iff.1 hc
        simp only [Except.map, Except.ok.injEq]
        constructor
        · rintro rfl
          exact .inr ⟨by simp, fun n hn => ⟨(this.1 n hn).1, (this.1 n hn).2.1⟩, this.2, rfl⟩
        · rintro (⟨h', -⟩ | ⟨-, -, -, rfl⟩)
          · exact absurd h' h
          · rfl

end Projection

end BatchTransfer
