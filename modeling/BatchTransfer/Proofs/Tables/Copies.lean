import BatchTransfer.Proofs.Registry.Making
import BatchTransfer.Proofs.Tables.Reading

/-!
# Copies from table to table

A job that copies rows in memory over a table is a function of the rows alone: the table then holds
them in order, each with the wanted columns, or with the columns of all rows in the order in which
they first appear. It does not matter how the rows are cut into batches, and not even whether they
are those of the target itself.
-/

namespace BatchTransfer

/-! ### The plan of a copy -/

/-- The options of a source of rows in memory. -/
def copyOptions (origin : MemoryOrigin) (columns : List String) (batchSize : Nat) : OptionMap :=
  let shared : OptionMap := (KeyMap.empty.insert columnsKey (.strings columns)).insert "batchSize"
    (.integer batchSize)
  match origin with
  | .rows records => shared.insert "rows" (.list (records.map .object))
  | .table name => shared.insert "table" (.string name)

/-- The options of a sink that overwrites a table. -/
def overwriteOptions (target : String) : OptionMap :=
  (KeyMap.empty.insert "target" (.string target)).insert "saveMode"
    (.string SaveMode.overwrite.name)

theorem MemorySource.plain_schema : MemorySource.schema.Plain := ⟨by decide, by decide⟩

section Options

variable {origin : MemoryOrigin} {columns : List String} {batchSize : Nat} {target : String}
  {policy : UnknownOptionPolicy} {o : ValidOptions}

theorem MemorySource.recordsOf_objects (records : List Record) :
    MemorySource.recordsOf (records.map .object) = records := by
  rw [MemorySource.recordsOf, List.filterMap_map]
  exact List.filterMap_some

/-- The options of a source of rows in memory are valid. -/
theorem exists_validate_copyOptions :
    ∃ o, MemorySource.schema.validate (copyOptions origin columns batchSize) policy = .ok o := by
  have hnone : ∀ spec ∈ MemorySource.schema.specs, spec.isRequired = false := by decide
  have hshared : ∀ key value, ((KeyMap.empty.insert columnsKey (.strings columns)).insert
      "batchSize" (.integer batchSize)).get? key = some value →
      MemorySource.schema.Admits policy key value :=
    OptionSchema.admits_insert (.declared rfl rfl)
      (OptionSchema.admits_insert (.declared rfl (OptionType.coerce_strings columns)) nofun)
  refine MemorySource.plain_schema.exists_validate_iff.mpr
    ⟨?_, fun spec hspec hrequired => absurd hrequired (by simp [hnone spec hspec])⟩
  cases origin with
  | rows records =>
      exact OptionSchema.admits_insert (.declared rfl (OptionType.coerce_records records)) hshared
  | table name => exact OptionSchema.admits_insert (.declared rfl rfl) hshared

section Validated

variable (ho : MemorySource.schema.validate (copyOptions origin columns batchSize) policy = .ok o)

include ho

theorem integer?_copyOptions : o.integer? "batchSize" = some (batchSize : Int) := by
  have hsize : o.get? "batchSize" = some (.integer batchSize) := by
    rw [MemorySource.plain_schema.get?_validate ho rfl]
    cases origin <;> rfl
  rw [ValidOptions.integer?, hsize]
  rfl

theorem projection_copyOptions {p : Projection} (hp : Projection.ofList columns = .ok p) :
    o.projection = .ok p := by
  have hcolumns : o.get? columnsKey = some (.strings columns) := by
    rw [MemorySource.plain_schema.get?_validate ho rfl, ← OptionType.coerce_strings columns]
    cases origin <;> rfl
  refine ValidOptions.projection_eq_ok_iff.mpr (.inr ⟨columns, ?_, hp⟩)
  rw [ValidOptions.strings?, hcolumns]
  exact OptionValue.strings?_strings columns

theorem originOf?_copyOptions : MemorySource.originOf? o = some origin := by
  cases origin with
  | rows records =>
      have hrows : o.get? "rows" = some (.list (records.map .object)) := by
        rw [MemorySource.plain_schema.get?_validate ho rfl]
        exact OptionType.coerce_records records
      have htable : o.get? "table" = none := by
        rw [MemorySource.plain_schema.get?_validate ho rfl]
        rfl
      rw [MemorySource.originOf?, hrows, htable]
      exact congrArg (fun records => some (MemoryOrigin.rows records))
        (MemorySource.recordsOf_objects records)
  | table name =>
      have hrows : o.get? "rows" = none := by
        rw [MemorySource.plain_schema.get?_validate ho rfl]
        rfl
      have htable : o.get? "table" = some (.string name) := by
        rw [MemorySource.plain_schema.get?_validate ho rfl]
        rfl
      rw [MemorySource.originOf?, hrows, htable, ValidOptions.text, ValidOptions.string?, htable]
      rfl

/-- The number of rows in a batch is checked. -/
theorem check_copyOptions (hleast : 1 ≤ batchSize) (hmost : batchSize ≤ 1000000) :
    Settings.check ⟨[batchSizeSetting], []⟩ o = .ok () := by
  refine Settings.check_number_eq_ok (integer?_copyOptions ho) ?_ ?_
  · rw [Decimal.Range.contains, Bool.and_eq_true, decide_eq_true_eq, decide_eq_true_eq]
    change (0 : Int) ≤ batchSize ∧ (batchSize : Int) ≤ 18446744073709551615
    omega
  · rw [Decimal.Range.contains, Bool.and_eq_true, decide_eq_true_eq, decide_eq_true_eq]
    change (1 : Int) ≤ batchSize ∧ (batchSize : Int) ≤ 1000000
    omega

end Validated

/-- The source of a copy can be made. -/
theorem makeSource_copyOptions {registry : ConnectorRegistry} {kind : String} {run : RunId}
    {sees : Bool} {p : Projection}
    (hkind : registry.sources.get? kind = some (ConnectorRegistry.memorySource sees))
    (hleast : 1 ≤ batchSize) (hmost : batchSize ≤ 1000000) (hp : Projection.ofList columns = .ok p) :
    registry.makeSource run kind (copyOptions origin columns batchSize) =
      .ok (.memory ⟨origin, batchSize, p, sees, none⟩) := by
  obtain ⟨o, ho⟩ : ∃ o, MemorySource.schema.validate (copyOptions origin columns batchSize)
      registry.unknownOptions = .ok o := exists_validate_copyOptions
  refine (Registry.make_eq_ok_iff hkind).mpr ⟨o, ho, ?_⟩
  change (MemorySource.create sees o).map Source.memory = _
  rw [MemorySource.create_eq_ok_iff.mpr ⟨check_copyOptions ho hleast hmost, origin, p,
    originOf?_copyOptions ho, projection_copyOptions ho hp, rfl⟩, ValidOptions.natural,
    integer?_copyOptions ho]
  rfl

/-- The sink of a copy can be made. -/
theorem makeSink_overwriteOptions {registry : ConnectorRegistry} {kind : String} {run : RunId}
    (hkind : registry.sinks.get? kind = some ConnectorRegistry.memorySink) (htarget : target ≠ "") :
    registry.makeSink run kind (overwriteOptions target) =
      .ok (.memory ⟨target, .overwrite, .all, false, 0⟩) := by
  have hvalid : MemorySink.schema.validate (overwriteOptions target) registry.unknownOptions =
      .ok ⟨"memory", ((KeyMap.empty.insert "target" (.string target)).insert "saveMode"
        (.string SaveMode.overwrite.name)).insert columnsKey (.strings [Projection.star])⟩ := rfl
  refine (Registry.make_eq_ok_iff hkind).mpr ⟨_, hvalid, ?_⟩
  change (MemorySink.create _).map Sink.memory = _
  have hcheck : Settings.check ⟨[], [nonEmptySetting "target"]⟩
      ⟨"memory", ((KeyMap.empty.insert "target" (.string target)).insert "saveMode"
        (.string SaveMode.overwrite.name)).insert columnsKey (.strings [Projection.star])⟩ =
      .ok () := by
    refine Settings.check_text_eq_ok_iff.mpr fun text htext => ?_
    cases htext
    have hlength : 1 ≤ target.length := Nat.one_le_iff_ne_zero.mpr
      fun h => htarget (String.length_eq_zero_iff.mp h)
    simp only [Settings.TextSetting.permits, nonEmptySetting, Option.all_none, Bool.and_true,
      hlength, decide_true]
  rw [MemorySink.create_eq_ok_iff.mpr ⟨hcheck, .all, rfl, rfl⟩]
  rfl

end Options

/-- Whether an origin holds records on a host. -/
def MemoryOrigin.Holds (origin : MemoryOrigin) (h : Host) (records : List Record) : Prop :=
  match origin with
  | .rows held => held = records
  | .table name => h.tables.get? name = some records

theorem MemorySource.rows_eq_ok {source : MemorySource} {h : Host} {records : List Record}
    (hholds : source.origin.Holds h records) : source.rows h = .ok records := by
  unfold MemoryOrigin.Holds at hholds
  rw [rows]
  cases horigin : source.origin with
  | rows held =>
      rw [horigin] at hholds
      exact congrArg Except.ok hholds
  | table name =>
      rw [horigin] at hholds
      exact tableRows_of_get? hholds

/-! ### The columns of a copy -/

/-- Whether the columns are all columns, or names that records have: at least one, all distinct, and
none that is empty or stands for all columns. -/
def AreColumnsOf (columns : List String) (records : List Record) : Prop :=
  columns = [Projection.star] ∨
    columns ≠ [] ∧ columns.Nodup ∧ ∀ name ∈ columns, name ≠ "" ∧ name ≠ Projection.star ∧
      ∃ r ∈ records, name ∈ r.keys

/-- The names of the columns that are wanted of records. -/
def wantedNames (columns : List String) (records : List Record) : List String :=
  if columns = [Projection.star] then Batch.columnNames records else columns

variable {columns : List String} {records : List Record}

/-- The columns are those of a projection. -/
theorem AreColumnsOf.exists_projection (h : AreColumnsOf columns records) :
    ∃ p, Projection.ofList columns = .ok p ∧ p.namesIn records = wantedNames columns records ∧
      ∀ names, p = .columns names → ∀ name ∈ names, name ∈ Batch.columnNames records := by
  rcases h with rfl | ⟨hne, hnodup, hnames⟩
  · exact ⟨.all, rfl, rfl, nofun⟩
  · refine ⟨.columns columns, Projection.ofList_eq_ok_iff.mpr (.inr ⟨hne, fun name hname => ?_,
      hnodup, rfl⟩), ?_, ?_⟩
    · obtain ⟨hempty, hstar, -⟩ := hnames name hname
      exact ⟨hstar, hempty⟩
    · have hstar : columns ≠ [Projection.star] := by
        rintro rfl
        exact (hnames _ List.mem_cons_self).2.1 rfl
      rw [wantedNames, if_neg hstar]
      rfl
    · rintro _ ⟨⟩ name hname
      obtain ⟨-, -, hthere⟩ := hnames name hname
      exact Batch.mem_columnNames.mpr hthere

theorem nodup_wantedNames (h : AreColumnsOf columns records) :
    (wantedNames columns records).Nodup := by
  unfold wantedNames
  split
  · exact Batch.nodup_columnNames records
  · rename_i hstar
    obtain ⟨-, hnodup, -⟩ := h.resolve_left hstar
    exact hnodup

/-! ### Jobs in memory -/

/-- The plan to copy rows in memory over a table. -/
def copyPlan (sourceKind sinkKind : String) (origin : MemoryOrigin) (columns : List String)
    (batchSize : Nat) (target : String) (resultTable : Option String) : Plan :=
  ⟨⟨sourceKind, copyOptions origin columns batchSize⟩, ⟨sinkKind, overwriteOptions target⟩,
    resultTable⟩

/-- A job that is completed, has read and written a number of rows, and has left them in a table
and everything else in the tables as it was. -/
def JobOutcome.HasCopied (outcome : JobOutcome) (before : Tables) (target : String)
    (rows : List Record) : Prop :=
  ∃ report, outcome.result = .ok report ∧ report.progress.rowsRead = rows.length ∧
    report.progress.rowsWritten = rows.length ∧ outcome.host.tables = before.insert target rows

namespace JobSite

/-- Whether both connectors work in memory, and nothing asks for the job to be cancelled. -/
def InMemory (site : JobSite) : Prop :=
  (∃ source, site.source = .memory source) ∧ (∃ sink, site.sink = .memory sink) ∧
    site.host.mock.asksToCancel = false

variable {α : Type} {s t : JobSite} {answer : ConnectorResult α}

theorem InMemory.onSource (call : Source → Host → Call (Source × Host) α)
    (effect : MemorySource → Host → MemorySource × ConnectorResult α)
    (hcall : ∀ m host, call (.memory m) host =
      .now (.memory (effect m host).1, host) (effect m host).2)
    (h : s.InMemory) (hends : (s.onSource (call s.source s.host)).Ends t answer) : t.InMemory := by
  obtain ⟨⟨source, hsource⟩, hsink, hmock⟩ := h
  obtain ⟨p, hcallEnds, rfl⟩ := ends_onSource hends
  clear hends
  rw [hsource, hcall] at hcallEnds
  obtain ⟨rfl, -⟩ := Call.ends_now hcallEnds
  exact ⟨⟨_, rfl⟩, hsink, hmock⟩

theorem InMemory.onSink (call : Sink → Host → Call (Sink × Host) α)
    (effect : MemorySink → Tables → (MemorySink × Tables) × ConnectorResult α)
    (hcall : ∀ m host, call (.memory m) host =
      .now (.memory (effect m host.tables).1.1, { host with tables := (effect m host.tables).1.2 })
        (effect m host.tables).2)
    (h : s.InMemory) (hends : (s.onSink (call s.sink s.host)).Ends t answer) : t.InMemory := by
  obtain ⟨hsource, ⟨sink, hsink⟩, hmock⟩ := h
  obtain ⟨p, hcallEnds, rfl⟩ := ends_onSink hends
  clear hends
  rw [hsink, hcall] at hcallEnds
  obtain ⟨rfl, -⟩ := Call.ends_now hcallEnds
  exact ⟨hsource, ⟨_, rfl⟩, hmock⟩

/-- Connectors that work in memory never ask for a job to be cancelled. -/
theorem wiring_keeps_inMemory (kind : Role → String) : (wiring kind).Keeps InMemory := by
  constructor
  · intro role time s t answer h hcall
    cases role with
    | source =>
        exact h.onSource (fun x host => x.openCall time host) MemorySource.openRows
          (fun _ _ => rfl) hcall
    | sink =>
        exact h.onSink (fun x host => x.openCall time host) MemorySink.openTarget
          (fun _ _ => rfl) hcall
  · intro time s t answer h hcall
    exact h.onSource (fun x host => x.readCall time host) (fun m _ => m.read) (fun _ _ => rfl) hcall
  · intro batch time s t answer h hcall
    exact h.onSink (fun x host => x.writeCall time batch host)
      (fun m tables => m.write tables batch) (fun _ _ => rfl) hcall
  · intro time s t answer h hcall
    exact h.onSink (fun x host => x.commitCall time host) MemorySink.commit (fun _ _ => rfl) hcall
  · intro role time s t answer h hcall
    cases role with
    | source =>
        exact h.onSource (fun x host => x.closeCall time host) (fun m _ => (m.close, .ok ()))
          (fun _ _ => rfl) hcall
    | sink =>
        exact h.onSink (fun x host => x.closeCall time host)
          (fun m tables => ((m, tables), .ok ())) (fun _ _ => rfl) hcall

end JobSite

namespace Host

variable {h : Host} {registry : ConnectorRegistry} {settings : JobSettings} {plan : Plan}
  {cancellation : Cancellation} {events : List JobEvent} {outcome : JobOutcome} {site : JobSite}
  {sourceKind sinkKind target : String} {sees : Bool} {origin : MemoryOrigin} {batchSize : Nat}
  {resultTable : Option String}

/-- A job between connectors that work in memory is not cancelled when it is executed and nobody
cancels it. -/
theorem runPlan_ne_cancelled (hsite : h.makeSite registry plan = .ok site)
    (hmemory : site.InMemory) :
    (h.runPlan registry settings plan {}).result ≠ .error .cancelled := by
  have houtcome := JobRun.outcome?_finish_ne_cancelled (c := settings)
    (JobSite.wiring_keeps_inMemory (siteKind site)) (fun _ h => h.2.2) hmemory
  obtain ⟨answer, hcontrol⟩ := JobRun.hasEnded_iff.mp
    (JobRun.hasEnded_finish (w := JobSite.wiring (siteKind site)) (c := settings) site false none)
  have hanswer := JobRun.outcome?_eq_some_iff.mpr hcontrol
  rw [hanswer] at houtcome
  rw [runPlan, hsite]
  cases answer with
  | ok receipt =>
      dsimp only
      rw [concludeJob_ok hanswer]
      nofun
  | error e =>
      dsimp only
      rw [concludeJob_error hanswer]
      rintro ⟨⟩
      exact houtcome rfl

/-- The connectors of a copy can be made. -/
theorem makeSite_copyPlan {p : Projection}
    (hsource : registry.sources.get? sourceKind = some (ConnectorRegistry.memorySource sees))
    (hsink : registry.sinks.get? sinkKind = some ConnectorRegistry.memorySink)
    (hleast : 1 ≤ batchSize) (hmost : batchSize ≤ 1000000) (htarget : target ≠ "")
    (hp : Projection.ofList columns = .ok p) :
    h.makeSite registry (copyPlan sourceKind sinkKind origin columns batchSize target resultTable) =
      .ok ⟨.memory ⟨origin, batchSize, p, sees, none⟩, .memory ⟨target, .overwrite, .all, false, 0⟩,
        { h with nextRun := h.nextRun.next }⟩ :=
  makeSite_eq_ok_iff.mpr ⟨_, _, makeSource_copyOptions hsource hleast hmost hp,
    makeSink_overwriteOptions hsink htarget, rfl⟩

/-- A copy that is not cancelled is completed. -/
theorem PlanRun.hasCopied
    (hsource : registry.sources.get? sourceKind = some (ConnectorRegistry.memorySource sees))
    (hsink : registry.sinks.get? sinkKind = some ConnectorRegistry.memorySink)
    (hleast : 1 ≤ batchSize) (hmost : batchSize ≤ 1000000) (htarget : target ≠ "")
    (hholds : origin.Holds h records) (hcolumns : AreColumnsOf columns records)
    (hrun : h.PlanRun registry settings
      (copyPlan sourceKind sinkKind origin columns batchSize target resultTable) cancellation events
      outcome)
    (huncancelled : outcome.result ≠ .error .cancelled) :
    outcome.HasCopied h.tables target
      (records.map (Record.select (wantedNames columns records))) := by
  obtain ⟨p, hp, hnames, hthere⟩ := hcolumns.exists_projection
  have hsite : h.makeSite registry
      (copyPlan sourceKind sinkKind origin columns batchSize target resultTable) = _ :=
    makeSite_copyPlan hsource hsink hleast hmost htarget hp
  obtain ⟨batches, hbatches, hrows, hrecords⟩ :=
    MemorySource.exists_batches ⟨origin, batchSize, p, sees, none⟩ hthere
  rw [show (⟨origin, batchSize, p, sees, none⟩ : MemorySource).projection.namesIn records = _
    from hnames] at hrecords
  have hstreams := hrun.streams_rows hsite huncancelled (MemorySource.rows_eq_ok hholds) hbatches
  have htakes := hrun.takes_direct hstreams (.inr rfl) hsite
  obtain ⟨report, hresult⟩ := htakes.completes.mpr
    ⟨Stream.endsNormally_ofBatches batches, fun batch _ => ⟨batch, rfl⟩⟩
  obtain ⟨written, hloaded⟩ := htakes.loads report hresult
  have hwritten : written = batches.flatMap Batch.toRecords := by
    obtain ⟨projected, hprojected, hwritten⟩ := hloaded.all rfl
    rw [Stream.nonEmptyBatches_ofBatches hrows] at hprojected
    rw [hwritten, (List.map_inj_right fun _ _ => Except.ok.inj).mp hprojected]
  have hread : report.progress.rowsRead = (batches.flatMap Batch.toRecords).length := by
    obtain ⟨final, -, hcompleted⟩ := hrun.exists_final hsite
    obtain ⟨-, -, -, stream, hstream, -, -, hread⟩ := hcompleted report hresult
    rw [hread, hstreams.eq_of_streamRead? hstream, Stream.batches_ofBatches,
      Batch.totalSize_eq_length]
  rw [hwritten, hrecords] at hloaded
  rw [hrecords] at hread
  exact ⟨report, hresult, hread, hloaded.rows_eq, hloaded.tables_eq⟩

/-- The rows of a copy are copied once more onto themselves, and nothing changes. -/
theorem PlanRun.copies_onto_itself {names : List String} (hnames : names.Nodup)
    (hsource : registry.sources.get? sourceKind = some (ConnectorRegistry.memorySource sees))
    (hsink : registry.sinks.get? sinkKind = some ConnectorRegistry.memorySink)
    (hleast : 1 ≤ batchSize) (hmost : batchSize ≤ 1000000) (htarget : target ≠ "")
    (hholds : h.tables.get? target = some (records.map (Record.select names)))
    (hrun : h.PlanRun registry settings
      (copyPlan sourceKind sinkKind (.table target) [Projection.star] batchSize target resultTable)
      cancellation events outcome)
    (huncancelled : outcome.result ≠ .error .cancelled) :
    (∃ report, outcome.result = .ok report) ∧ outcome.host.tables = h.tables := by
  have hheld : (MemoryOrigin.table target).Holds h (records.map (Record.select names)) := hholds
  obtain ⟨report, hresult, -, -, htables⟩ :=
    hrun.hasCopied hsource hsink hleast hmost htarget hheld (.inl rfl) huncancelled
  rw [wantedNames, if_pos rfl, Batch.select_columnNames hnames] at htables
  exact ⟨⟨report, hresult⟩, htables.trans (KeyMap.insert_of_get? hholds)⟩

/-- A copy of records in memory over a table completes, whatever the settings and the number of rows
in a batch: the job that is executed if nothing asks for it to be cancelled, and every run that is not
cancelled. It reads and writes as many rows as there are records, the target holds the records in
order, each with the wanted columns, with null where it has none, and no other table is changed; the
records may be those of the target itself. All columns of the target copied onto it change nothing
then. -/
theorem copies_records
    (hsource : registry.sources.get? sourceKind = some (ConnectorRegistry.memorySource sees))
    (hsink : registry.sinks.get? sinkKind = some ConnectorRegistry.memorySink)
    (hleast : 1 ≤ batchSize) (hmost : batchSize ≤ 1000000) (htarget : target ≠ "")
    (hholds : origin.Holds h records) (hcolumns : AreColumnsOf columns records) :
    (h.mock.asksToCancel = false →
      (h.runPlan registry settings
        (copyPlan sourceKind sinkKind origin columns batchSize target resultTable) {}).HasCopied
          h.tables target (records.map (Record.select (wantedNames columns records)))) ∧
    ∀ cancellation events outcome,
      h.PlanRun registry settings
        (copyPlan sourceKind sinkKind origin columns batchSize target resultTable) cancellation
          events outcome →
      outcome.result ≠ .error .cancelled →
      outcome.HasCopied h.tables target
        (records.map (Record.select (wantedNames columns records))) ∧
      ∀ settings' batchSize' resultTable' cancellation' events' outcome',
        1 ≤ batchSize' → batchSize' ≤ 1000000 →
        outcome.host.PlanRun registry settings' (copyPlan sourceKind sinkKind (.table target)
          [Projection.star] batchSize' target resultTable') cancellation' events' outcome' →
        outcome'.result ≠ .error .cancelled →
        (∃ report, outcome'.result = .ok report) ∧ outcome'.host.tables = outcome.host.tables := by
  refine ⟨fun hquiet => ?_, fun cancellation events outcome hrun huncancelled => ?_⟩
  · obtain ⟨p, hp, -⟩ := hcolumns.exists_projection
    have hsite : h.makeSite registry
        (copyPlan sourceKind sinkKind origin columns batchSize target resultTable) = _ :=
      makeSite_copyPlan hsource hsink hleast hmost htarget hp
    obtain ⟨events, hrun⟩ := h.planRun_runPlan registry settings
      (copyPlan sourceKind sinkKind origin columns batchSize target resultTable) {}
    exact hrun.hasCopied hsource hsink hleast hmost htarget hholds hcolumns
      (runPlan_ne_cancelled hsite ⟨⟨_, rfl⟩, ⟨_, rfl⟩, hquiet⟩)
  · have hcopied :=
      hrun.hasCopied hsource hsink hleast hmost htarget hholds hcolumns huncancelled
    refine ⟨hcopied, fun _ _ _ _ _ _ hleast' hmost' hrun' huncancelled' => ?_⟩
    obtain ⟨-, -, -, -, htables⟩ := hcopied
    exact hrun'.copies_onto_itself (nodup_wantedNames hcolumns) hsource hsink hleast' hmost' htarget
      (by rw [htables, KeyMap.get?_insert, if_pos rfl]) huncancelled'

/-- A host with a table of two rows, of which only the second has a value. -/
def raggedHost : Host :=
  { new [] with tables := KeyMap.empty.insert "t" [Record.empty, .ofFields [("a", .int 1)]] }

/-- A job that copies that table over itself, row by row. -/
def raggedCopy : JobOutcome :=
  raggedHost.runPlan .builtIn JobRun.oneBatchSettings
    (copyPlan "memory" "memory" (.table "t") [Projection.star] 1 "t" none) {}

/-- A table may be copied over itself: it then has null where a row had no value. -/
theorem copies_records_ragged : ∃ report, raggedCopy.result = .ok report ∧
    report.progress.rowsRead = 2 ∧ report.progress.rowsWritten = 2 ∧
    raggedCopy.host.tables.get? "t" =
      some [.ofFields [("a", .null)], .ofFields [("a", .int 1)]] := by
  obtain ⟨hcopied, -⟩ := @copies_records [Projection.star]
    [Record.empty, .ofFields [("a", .int 1)]] raggedHost .builtIn JobRun.oneBatchSettings "memory"
    "memory" "t" false (.table "t") 1 none rfl rfl le_rfl (by decide) (by decide) rfl (.inl rfl)
  obtain ⟨report, hresult, hread, hwritten, htables⟩ := hcopied rfl
  exact ⟨report, hresult, hread, hwritten, (congrArg (·.get? "t") htables).trans rfl⟩

/-- A column without a name cannot be wanted, even where records have one. -/
theorem not_copies_unnamed_column :
    [""].Nodup ∧ (∀ name ∈ [""], ∃ r ∈ [Record.ofFields [("", .int 1)]], name ∈ r.keys) ∧
      ((new []).runPlan .builtIn JobRun.oneBatchSettings
        (copyPlan "memory" "memory" (.rows [.ofFields [("", .int 1)]]) [""] 100 "t" none)
        {}).result =
          .error (.options (.invalidValue "memory" columnsKey (.projection .emptyName))) :=
  ⟨by decide, by decide, rfl⟩

end Host

end BatchTransfer
