import BatchTransfer.Proofs.Batch.Records
import BatchTransfer.Proofs.Job.Milestones

/-!
# Tables as targets

What a completed job makes of its target is the same however it gets there: the rows that the save
mode keeps, with the records of all its batches behind them (`Target.Loaded`). The target, the
batches and the tables before the job determine it, together with what the job reports of it
(`Target.Loaded.unique`).
-/

namespace BatchTransfer

namespace KeyMap

variable {α : Type} (m : KeyMap α) (key : String)

/-- An entry that is written twice is the one written last. -/
@[simp]
theorem insert_insert (first last : α) : (m.insert key first).insert key last = m.insert key last :=
  ext_get? fun other => by
    simp only [get?_insert]
    split <;> rfl

variable {m key}

theorem insert_of_get? {value : α} (h : m.get? key = some value) : m.insert key value = m :=
  ext_get? fun other => by
    rw [get?_insert]
    split
    · rename_i hother
      rw [hother, h]
    · rfl

end KeyMap

/-- The rows of a table that are left when a job has begun to write to it. -/
def SaveMode.keptRows (mode : SaveMode) (t : Tables) (target : String) : List Record :=
  if mode = .overwrite then [] else (t.get? target).getD []

namespace Tables

variable (t : Tables) (target : String) (mode : SaveMode) (rows more : List Record)

/-- The tables with rows behind those that a save mode keeps. -/
def load : Tables := t.insert target (mode.keptRows t target ++ rows)

@[simp]
theorem append_load : (t.load target mode rows).append target more =
    t.load target mode (rows ++ more) := by
  simp [load, append]

/-- Whether the target is created before or after rows are added makes no difference. -/
theorem ensure_append : (t.append target rows).ensure target = (t.ensure target).append target rows := by
  simp [ensure, append]

theorem ensure_eq_load (h : mode ≠ .overwrite) : t.ensure target = t.load target mode [] := by
  rw [load, SaveMode.keptRows, if_neg h]
  rfl

end Tables

/-- A table as the target of a job, with the tables as the job finds them. A job may leave all its
batches out. -/
structure Target where
  name : String
  mode : SaveMode
  projection : Projection
  leavesOut : Bool
  before : Tables

namespace Target

/-- The rows that are left in the target when the job has begun to write to it. -/
def kept (target : Target) : List Record := target.mode.keptRows target.before target.name

/-- What a completed job has made of the tables and what it reports of it: behind the rows that the
save mode keeps come the records of its batches, projected, in order, or none where everything is
left out. -/
structure Loaded (target : Target) (batches : List Batch) (written : List Record) (rows : Nat)
    (receipt : CommitReceipt) (after : Tables) : Prop where
  all : target.leavesOut = false → ∃ projected : List Batch,
    batches.map (·.project target.projection) = projected.map .ok ∧
      written = projected.flatMap Batch.toRecords
  nothing : target.leavesOut = true → written = []
  tables_eq : after = target.before.load target.name target.mode written
  rows_eq : rows = written.length
  receipt_eq : receipt = ⟨written.length, some (tableLocation target.name)⟩

variable {target : Target} {batches : List Batch} {written written' : List Record}
  {rows rows' : Nat} {receipt receipt' : CommitReceipt} {after after' : Tables}

namespace Loaded

/-- The batches of a completed job have the wanted columns. -/
theorem exists_project (h : target.Loaded batches written rows receipt after)
    (hkeeps : target.leavesOut = false) {batch : Batch} (hbatch : batch ∈ batches) :
    ∃ projected, batch.project target.projection = .ok projected := by
  obtain ⟨projected, hprojected, -⟩ := h.all hkeeps
  have hmem : batch.project target.projection ∈ projected.map .ok :=
    hprojected ▸ List.mem_map_of_mem hbatch
  obtain ⟨b, -, hb⟩ := List.mem_map.mp hmem
  exact ⟨b, hb.symm⟩

/-- Two completed jobs with the same batches and the same target make the same of it. -/
theorem unique (h : target.Loaded batches written rows receipt after)
    (h' : target.Loaded batches written' rows' receipt' after') :
    after = after' ∧ rows = rows' ∧ receipt = receipt' := by
  have hwritten : written = written' := by
    cases hleaves : target.leavesOut with
    | true => rw [h.nothing hleaves, h'.nothing hleaves]
    | false =>
        obtain ⟨projected, hprojected, rfl⟩ := h.all hleaves
        obtain ⟨projected', hprojected', rfl⟩ := h'.all hleaves
        have hsame : projected = projected' :=
          (List.map_inj_right fun _ _ => Except.ok.inj).mp (hprojected.symm.trans hprojected')
        rw [hsame]
  subst hwritten
  exact ⟨h.tables_eq.trans h'.tables_eq.symm, h.rows_eq.trans h'.rows_eq.symm,
    h.receipt_eq.trans h'.receipt_eq.symm⟩

/-- The target holds what the save mode keeps and what was written, and no other table is
changed. -/
theorem get? (h : target.Loaded batches written rows receipt after) (other : String) :
    after.get? other =
      if other = target.name then some (target.kept ++ written) else target.before.get? other := by
  rw [h.tables_eq, Tables.load, KeyMap.get?_insert]
  rfl

end Loaded

end Target

end BatchTransfer
