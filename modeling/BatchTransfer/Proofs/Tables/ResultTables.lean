import BatchTransfer.Proofs.Job.Publication
import BatchTransfer.Proofs.Tables.Agreement
import BatchTransfer.Proofs.Tables.Reading

/-!
# Result tables name the data of their jobs

The entry that a completed job publishes holds no rows of its own. It says where the data landed,
and a source that is asked for the name reads the table that is there. So it yields the rows that
the job has written, in order, behind those that the save mode has kept.
-/

namespace BatchTransfer

open JobEvent (streamRead? answers)

/-! ### Sinks that load a table -/

/-- The target of a sink that loads a table, as a job finds it. -/
def Sink.target? (sink : Sink) (before : Tables) : Option Target :=
  match sink with
  | .memory m => some (m.aim before)
  | .staging g =>
      match g.loader with
      | .table name mode => some ⟨name, mode, g.projection, false, before⟩
      | _ => none
  | _ => none

theorem Sink.before_of_target? {sink : Sink} {before : Tables} {target : Target}
    (h : sink.target? before = some target) : target.before = before := by
  unfold Sink.target? at h
  split at h
  · cases h
    rfl
  · split at h
    · cases h
      rfl
    · cases h
  · cases h

/-- Whether the sinks of a kind load tables, at once or staged. -/
def ConnectorRegistry.LoadsTables (registry : ConnectorRegistry) (kind : String) : Prop :=
  registry.sinks.get? kind = some ConnectorRegistry.memorySink ∨
    registry.sinks.get? kind = some ConnectorRegistry.warehouseSink

/-- What a source in memory emits that is opened on a host and then read: its stream holds the
records, in order and no others. -/
def MemorySource.Emits (source : MemorySource) (h : Host) (records : List Record) : Prop :=
  ∃ batches, (source.openRows h).2 = .ok () ∧
    (source.openRows h).1.read.2 = .ok (.ofBatches batches) ∧
    batches.flatMap Batch.toRecords = records

namespace MemorySource

variable {source : MemorySource} {h : Host} {records records' : List Record}

/-- A source of all columns emits its rows, each with the columns of all of them. -/
theorem emits_of_rows (hrows : source.rows h = .ok records) (hall : source.projection = .all) :
    source.Emits h (records.map (Record.select (Batch.columnNames records))) := by
  have hthere : ∀ names, source.projection = .columns names →
      ∀ name ∈ names, name ∈ Batch.columnNames records := by
    rw [hall]
    nofun
  obtain ⟨batches, hbatches, -, hrecords⟩ := source.exists_batches hthere
  rw [hall] at hrecords
  refine ⟨batches, ?_, ?_, hrecords⟩
  · rw [openRows, hrows]
  · rw [openRows, hrows]
    exact congrArg (Except.map Stream.ofBatches) hbatches

/-- A source emits one list of records only. -/
theorem Emits.unique (hemits : source.Emits h records) (hemits' : source.Emits h records') :
    records = records' := by
  obtain ⟨batches, -, hread, rfl⟩ := hemits
  obtain ⟨batches', -, hread', rfl⟩ := hemits'
  have hsame := congrArg Stream.batches (Except.ok.inj (hread.symm.trans hread'))
  rw [Stream.batches_ofBatches, Stream.batches_ofBatches] at hsame
  rw [hsame]

/-- A name that no table has is that of the table in which the data of a published result landed. -/
theorem tableRows_of_result {name target : String} {result : ResultTable}
    (hsees : source.seesResults = true) (hnone : h.tables.get? name = none)
    (hresult : h.results.get? name = some result)
    (hlocation : result.location = some (tableLocation target))
    (htarget : h.tables.get? target = some records) : source.tableRows h name = .ok records := by
  simp only [tableRows, hnone, hsees, if_true, hresult, hlocation, Option.getD_some,
    tableOfLocation?_tableLocation, htarget]

end MemorySource

namespace Host

variable {h : Host} {registry : ConnectorRegistry} {settings : JobSettings} {plan : Plan}
  {cancellation : Cancellation} {events : List JobEvent} {outcome : JobOutcome}
  {report : JobReport} {name : String}

/-- A completed job whose plan names a result table has published it there. -/
theorem PlanRun.exists_result
    (hrun : h.PlanRun registry settings plan cancellation events outcome)
    (hresult : outcome.result = .ok report) (hname : plan.resultTable = some name) :
    ∃ result, outcome.host.results.get? name = some result ∧
      result.location = report.receipt.location := by
  obtain ⟨site, hsite⟩ := hrun.exists_site hresult
  obtain ⟨final, -, hcompleted⟩ := hrun.exists_final hsite
  obtain ⟨-, hhost, -⟩ := hcompleted report hresult
  rw [hhost, results_publish hname, KeyMap.get?_insert, if_pos rfl]
  exact ⟨_, rfl, rfl⟩

/-- A completed job into a table has loaded its target. -/
theorem PlanRun.exists_loaded
    (hrun : h.PlanRun registry settings plan cancellation events outcome)
    (hkind : registry.LoadsTables plan.sink.kind)
    (hback : ∀ g, registry.makeSink h.nextRun plan.sink.kind plan.sink.options =
        .ok (.staging g) → ∀ stream, streamRead? events = some stream →
      ∀ batch ∈ stream.nonEmptyBatches, ∀ b, batch.project g.projection = .ok b →
      ∀ r ∈ b.toRecords, r.ReadsBack)
    (hresult : outcome.result = .ok report) :
    ∃ sink target stream written,
      registry.makeSink h.nextRun plan.sink.kind plan.sink.options = .ok sink ∧
      sink.target? h.tables = some target ∧
      streamRead? events = some stream ∧ stream.EndsNormally ∧
      target.Loaded stream.nonEmptyBatches written report.progress.rowsWritten report.receipt
        outcome.host.tables := by
  obtain ⟨site, hsite⟩ := hrun.exists_site hresult
  obtain ⟨source, sink, -, hsink, rfl⟩ := makeSite_eq_ok_iff.mp hsite
  rcases hkind with hkind | hkind
  · obtain ⟨o, -, hmade⟩ := (Registry.make_eq_ok_iff hkind).mp hsink
    obtain ⟨m, hcreate, rfl⟩ := exists_of_map_eq_ok hmade
    obtain ⟨-, p, -, rfl⟩ := MemorySink.create_eq_ok_iff.mp hcreate
    obtain ⟨-, -, hloads⟩ := hrun.loads_direct rfl rfl hsite
    obtain ⟨stream, written, hread, hnormal, hloaded⟩ := hloads report hresult
    exact ⟨_, _, stream, written, hsink, rfl, hread, hnormal, hloaded⟩
  · obtain ⟨o, -, hmade⟩ := (Registry.make_eq_ok_iff hkind).mp hsink
    obtain ⟨g, hcreate, rfl⟩ := exists_of_map_eq_ok hmade
    obtain ⟨-, location, p, -, -, -, rfl⟩ := Staging.createWarehouse_eq_ok_iff.mp hcreate
    obtain ⟨-, -, hloads⟩ := hrun.loads_staged hsite
    obtain ⟨stream, hread, hnormal, hloaded⟩ := hloads report hresult
    obtain ⟨written, hloaded⟩ := hloaded (hback _ hsink stream hread)
    exact ⟨_, _, stream, written, hsink, rfl, hread, hnormal, hloaded⟩

/-- A result table names the data of its job. A job into a table, at once or staged, is completed,
publishes its result table under a name that no table has, and what it stages is read back. A source
that is then asked for the name, and sees published results, emits the rows that the save mode has
kept of the target, and behind them the rows that the job has written, in order and no others, each
with the columns of all of them. There are as many rows written as the job reports. -/
theorem result_table_emits
    (hrun : h.PlanRun registry settings plan cancellation events outcome)
    (hkind : registry.LoadsTables plan.sink.kind)
    (hback : ∀ g, registry.makeSink h.nextRun plan.sink.kind plan.sink.options =
        .ok (.staging g) → ∀ stream, streamRead? events = some stream →
      ∀ batch ∈ stream.nonEmptyBatches, ∀ b, batch.project g.projection = .ok b →
      ∀ r ∈ b.toRecords, r.ReadsBack)
    (hresult : outcome.result = .ok report) (hname : plan.resultTable = some name)
    (hfree : h.tables.get? name = none) :
    ∃ sink target stream written,
      registry.makeSink h.nextRun plan.sink.kind plan.sink.options = .ok sink ∧
      sink.target? h.tables = some target ∧
      streamRead? events = some stream ∧ stream.EndsNormally ∧
      target.Loaded stream.nonEmptyBatches written report.progress.rowsWritten report.receipt
        outcome.host.tables ∧
      ∀ batchSize, MemorySource.Emits ⟨.table name, batchSize, .all, true, none⟩ outcome.host
        ((target.kept ++ written).map
          (Record.select (Batch.columnNames (target.kept ++ written)))) := by
  obtain ⟨sink, target, stream, written, hsink, htarget, hread, hnormal, hloaded⟩ :=
    hrun.exists_loaded hkind hback hresult
  refine ⟨sink, target, stream, written, hsink, htarget, hread, hnormal, hloaded,
    fun batchSize => MemorySource.emits_of_rows ?_ rfl⟩
  have hheld : outcome.host.tables.get? target.name = some (target.kept ++ written) := by
    rw [hloaded.get?, if_pos rfl]
  by_cases hsame : name = target.name
  · -- The target has the name itself, which no table had before the job.
    exact MemorySource.tableRows_of_get? (hsame ▸ hheld)
  · obtain ⟨result, hpublished, hlocation⟩ := hrun.exists_result hresult hname
    rw [hloaded.receipt_eq] at hlocation
    have hnone : outcome.host.tables.get? name = none := by
      rw [hloaded.get?, if_neg hsame, sink.before_of_target? htarget, hfree]
    exact MemorySource.tableRows_of_result rfl hnone hpublished hlocation hheld

/-- A host with a script of one row, and a table that holds another. -/
def earlierHost : Host :=
  { oneFieldHost with tables := KeyMap.empty.insert "t" [Record.empty] }

/-- A plan to add the scripted row to the table, with a result table. -/
def namedPlan : Plan := { directPlan with resultTable := some "r" }

/-- The scripted row is added to the table. -/
theorem exists_earlierRun : ∃ events outcome report,
    earlierHost.PlanRun tableRegistry JobRun.oneBatchSettings namedPlan {} events outcome ∧
      outcome.result = .ok report ∧ report.progress.rowsWritten = 1 ∧
      streamRead? events = some oneFieldStream ∧
      outcome.host.tables = KeyMap.empty.insert "t" [Record.empty, Record.oneField] ∧
      ∃ result, outcome.host.results.get? "r" = some result ∧
        result.location = some (tableLocation "t") := by
  have hread := ((((JobRun.Trace.refl (w := JobSite.wiring (siteKind directSite))
    (c := JobRun.oneBatchSettings)
    (.start { directSite with host := { earlierHost with nextRun := ⟨1⟩ } } false none)).step
      (.writer (.inl rfl) rfl)).step (.writer (.inl rfl) rfl)).step (.writer (.inl rfl) rfl)).step
      (.writer (.inl rfl) rfl)
  have hwritten := (((hread.step (.reader id rfl)).step (.reader id rfl)).step
    (.writer (.inl rfl) rfl)).step (.writer (.inl rfl) rfl)
  have hcommitted := (((hwritten.step (.reader id rfl)).step (.writer (.inl rfl) rfl)).step
    (.writer (.inl rfl) rfl)).step (.writer (.inl rfl) rfl)
  have hclosed := (hcommitted.step (.writer (.inl rfl) rfl)).step (.writer (.inl rfl) rfl)
  have hsite : earlierHost.makeSite tableRegistry namedPlan =
    .ok { directSite with host := { earlierHost with nextRun := ⟨1⟩ } } := rfl
  exact ⟨_, _, _, .resolved hsite hclosed rfl, rfl, rfl, rfl, rfl, _, rfl, rfl⟩

/-- The result table of that job names both rows, each with the columns of both. -/
theorem result_table_emits_oneField : ∃ events outcome report,
    earlierHost.PlanRun tableRegistry JobRun.oneBatchSettings namedPlan {} events outcome ∧
      outcome.result = .ok report ∧ report.progress.rowsWritten = 1 ∧
      MemorySource.Emits ⟨.table "r", 100, .all, true, none⟩ outcome.host
        [.ofFields [("a", .null)], Record.oneField] := by
  obtain ⟨events, outcome, report, hrun, hresult, hrows, hread, -⟩ := exists_earlierRun
  obtain ⟨sink, target, stream, written, hsink, htarget, hread', -, hloaded, hemits⟩ :=
    result_table_emits hrun (.inl rfl) (fun _ hsink => by cases hsink) hresult
      (show namedPlan.resultTable = some "r" from rfl) rfl
  cases hsink
  cases htarget
  cases hread.symm.trans hread'
  obtain ⟨projected, hprojected, rfl⟩ := hloaded.all rfl
  rw [nonEmptyBatches_oneFieldStream] at hprojected
  cases (List.map_inj_right fun _ _ => Except.ok.inj).mp
    (show [Staging.StagingSink.oneFieldBatch].map Except.ok = projected.map Except.ok from hprojected)
  exact ⟨events, outcome, report, hrun, hresult, hrows, hemits 100⟩

/-- A result table also names the rows that the target has held before: here a job writes one row,
and a source that is asked for the name emits more. -/
theorem result_table_emits_earlier_rows : ∃ events outcome report,
    earlierHost.PlanRun tableRegistry JobRun.oneBatchSettings namedPlan {} events outcome ∧
      outcome.result = .ok report ∧ report.progress.rowsWritten = 1 ∧
      streamRead? events = some oneFieldStream ∧ outcome.host.tables.get? "r" = none ∧
      ∀ records, MemorySource.Emits ⟨.table "r", 100, .all, true, none⟩ outcome.host records →
        records ≠ oneFieldStream.nonEmptyBatches.flatMap Batch.toRecords := by
  obtain ⟨events, outcome, report, hrun, hresult, hrows, hread, htables, result, hpublished,
    hlocation⟩ := exists_earlierRun
  have hnone : outcome.host.tables.get? "r" = none := by
    rw [htables]
    rfl
  refine ⟨events, outcome, report, hrun, hresult, hrows, hread, hnone, fun records hemits => ?_⟩
  have htwo : MemorySource.Emits ⟨.table "r", 100, .all, true, none⟩ outcome.host _ :=
    MemorySource.emits_of_rows (MemorySource.tableRows_of_result rfl hnone hpublished hlocation
      ((congrArg (·.get? "t") htables).trans rfl)) rfl
  rw [hemits.unique htwo, nonEmptyBatches_oneFieldStream]
  exact fun hsame => absurd (congrArg List.length hsame) (by decide)

end Host

end BatchTransfer
