import BatchTransfer.Proofs.Registry.Making
import BatchTransfer.Proofs.Staging.Jobs
import BatchTransfer.Proofs.Tables.Loads
import BatchTransfer.Proofs.Tables.Staged

/-!
# Direct and staged loads agree

The sink of a table and the sink that stages for one are asked for alike if they are given the same
target, save mode and columns. Then either both or neither can be made, and jobs that give them the
same stream complete together, for either completes exactly if the stream ends well and its batches
have the wanted columns. What they have made of the tables and what they report is the same.
-/

namespace BatchTransfer

open JobEvent (answers streamRead?)

/-! ### Options that ask for the same -/

/-- The keys of the options that the sinks of both kinds have. -/
def sharedKeys : List String := ["target", "saveMode", columnsKey]

/-- Options for the sink of a table and for the sink that stages for one which ask for the same. A
staged load can only append or overwrite, and needs an area that its sink can use. -/
structure AskAlike (direct staged : OptionMap) : Prop where
  alike : ∀ key ∈ sharedKeys, staged.get? key = direct.get? key
  direct_keys : ∀ key value, direct.get? key = some value → key ∈ sharedKeys
  staged_keys : ∀ key value, staged.get? key = some value →
    key ∈ sharedKeys ∨ key = "tempdir" ∨ key = "keepStaging"
  mode : ∀ value, direct.get? "saveMode" = some value →
    value = .string SaveMode.append.name ∨ value = .string SaveMode.overwrite.name
  area : ∀ value, staged.get? "tempdir" = some value → ∃ url location, value = .string url ∧
    Staging.Location.read url = .ok location ∧ ∀ bucket folder, location ≠ .bucket bucket folder
  keeps : ∀ value, staged.get? "keepStaging" = some value → ∃ keeps, value = .boolean keeps

theorem MemorySink.plain_schema : MemorySink.schema.Plain := ⟨by decide, by decide⟩

theorem Staging.plain_warehouseSchema : Staging.warehouseSchema.Plain := ⟨by decide, by decide⟩

namespace AskAlike

variable {direct staged : OptionMap} {policy : UnknownOptionPolicy} {o o' : ValidOptions}

/-- What either sink admits under a key of both, the other admits as well. -/
theorem admits_iff (h : AskAlike direct staged) {key : String} {value : OptionValue}
    (hkey : key ∈ sharedKeys) (hvalue : direct.get? key = some value) :
    MemorySink.schema.Admits policy key value ↔
      Staging.warehouseSchema.Admits policy key value := by
  simp only [sharedKeys, List.mem_cons, List.not_mem_nil, or_false] at hkey
  rcases hkey with rfl | rfl | rfl <;>
    rw [OptionSchema.admits_iff (s := MemorySink.schema) rfl,
      OptionSchema.admits_iff (s := Staging.warehouseSchema) rfl]
  rcases h.mode value hvalue with rfl | rfl <;> exact iff_of_true ⟨_, rfl⟩ ⟨_, rfl⟩

/-- Both options are valid or neither are. -/
theorem exists_validate_iff (h : AskAlike direct staged) :
    (∃ o, MemorySink.schema.validate direct policy = .ok o) ↔
      ∃ o, Staging.warehouseSchema.validate staged policy = .ok o := by
  rw [MemorySink.plain_schema.exists_validate_iff,
    Staging.plain_warehouseSchema.exists_validate_iff]
  refine and_congr ⟨fun hadmits key value hvalue => ?_, fun hadmits key value hvalue => ?_⟩ ?_
  · rcases h.staged_keys key value hvalue with hkey | rfl | rfl
    · rw [h.alike key hkey] at hvalue
      exact (h.admits_iff hkey hvalue).mp (hadmits key value hvalue)
    · obtain ⟨url, _, rfl, -⟩ := h.area value hvalue
      exact .declared rfl rfl
    · obtain ⟨keeps, rfl⟩ := h.keeps value hvalue
      exact .declared rfl rfl
  · have hkey := h.direct_keys key value hvalue
    refine (h.admits_iff hkey hvalue).mpr (hadmits key value ?_)
    rw [h.alike key hkey, hvalue]
  · -- Of the options of either kind the target alone must be given.
    have htarget : staged.contains "target" = direct.contains "target" := by
      rw [KeyMap.contains, h.alike "target" (by decide), KeyMap.contains]
    simp [MemorySink.schema, Staging.warehouseSchema, OptionSchema.new, OptionSchema.required,
      OptionSchema.withDefault, OptionSchema.withColumns, OptionSchema.declare,
      OptionSpec.isRequired, htarget]

/-- Valid options of both kinds ask for the same target, save mode and columns. -/
theorem get?_eq (h : AskAlike direct staged)
    (ho : MemorySink.schema.validate direct policy = .ok o)
    (ho' : Staging.warehouseSchema.validate staged policy = .ok o') {key : String}
    (hkey : key ∈ sharedKeys) : o'.get? key = o.get? key := by
  have hsame := h.alike key hkey
  simp only [sharedKeys, List.mem_cons, List.not_mem_nil, or_false] at hkey
  rcases hkey with rfl | rfl | rfl <;>
    rw [MemorySink.plain_schema.get?_validate ho rfl,
      Staging.plain_warehouseSchema.get?_validate ho' rfl, hsame]
  · rfl
  · cases hmode : direct.get? "saveMode" with
    | none => rfl
    | some value => rcases h.mode value hmode with rfl | rfl <;> rfl

/-- The area of valid options can be used. -/
theorem locationOption_ok (h : AskAlike direct staged)
    (ho' : Staging.warehouseSchema.validate staged policy = .ok o') :
    ∃ location, Staging.locationOption o' = .ok location ∧
      ∀ bucket folder, location ≠ .bucket bucket folder := by
  have hread {url : String} {location : Staging.Location}
      (hurl : o'.get? "tempdir" = some (.string url))
      (hlocation : Staging.Location.read url = .ok location) :
      Staging.locationOption o' = .ok location := by
    have htext : o'.text "tempdir" = url := by
      rw [ValidOptions.text, ValidOptions.string?, hurl]
      rfl
    rw [Staging.locationOption, htext, hlocation]
  have hgiven := Staging.plain_warehouseSchema.get?_validate ho'
    (show Staging.warehouseSchema.resolve? "tempdir" = some _ from rfl)
  cases harea : staged.get? "tempdir" with
  | none =>
      rw [harea] at hgiven
      exact ⟨.memory "", hread hgiven rfl, nofun⟩
  | some value =>
      obtain ⟨url, location, rfl, hlocation, hlocal⟩ := h.area value harea
      rw [harea] at hgiven
      exact ⟨location, hread hgiven hlocation, hlocal⟩

/-- The save mode of valid options is to append or to overwrite. -/
theorem saveMode_eq (h : AskAlike direct staged)
    (ho : MemorySink.schema.validate direct policy = .ok o) :
    o.saveMode = .append ∨ o.saveMode = .overwrite := by
  have hgiven := MemorySink.plain_schema.get?_validate ho
    (show MemorySink.schema.resolve? "saveMode" = some _ from rfl)
  rw [ValidOptions.saveMode, ValidOptions.string?, hgiven]
  cases hmode : direct.get? "saveMode" with
  | none => exact .inl rfl
  | some value =>
      rcases h.mode value hmode with rfl | rfl
      · exact .inl rfl
      · exact .inr rfl

/-- Both sinks are made alike, or neither can be made. -/
theorem makeSink (h : AskAlike direct staged) (registry : ConnectorRegistry) (run : RunId)
    {kind kind' : String}
    (hkind : registry.sinks.get? kind = some ConnectorRegistry.memorySink)
    (hkind' : registry.sinks.get? kind' = some ConnectorRegistry.warehouseSink) :
    (∃ target mode projection location keeps, (mode = .append ∨ mode = .overwrite) ∧
      registry.makeSink run kind direct = .ok (.memory ⟨target, mode, projection, false, 0⟩) ∧
      registry.makeSink run kind' staged =
        .ok (.staging (.new (.table target mode) location projection keeps run))) ∨
    (∀ sink, registry.makeSink run kind direct ≠ .ok sink) ∧
      ∀ sink, registry.makeSink run kind' staged ≠ .ok sink := by
  have hmake (sink : Sink) : registry.makeSink run kind direct = .ok sink ↔
      ∃ o, MemorySink.schema.validate direct registry.unknownOptions = .ok o ∧
        (MemorySink.create o).map .memory = .ok sink := Registry.make_eq_ok_iff hkind
  have hmake' (sink : Sink) : registry.makeSink run kind' staged = .ok sink ↔
      ∃ o, Staging.warehouseSchema.validate staged registry.unknownOptions = .ok o ∧
        (Staging.createWarehouse run o).map .staging = .ok sink := Registry.make_eq_ok_iff hkind'
  have hnone (hinvalid : ¬ ∃ sink, registry.makeSink run kind direct = .ok sink)
      (hinvalid' : ¬ ∃ sink, registry.makeSink run kind' staged = .ok sink) :
      (∀ sink, registry.makeSink run kind direct ≠ .ok sink) ∧
        ∀ sink, registry.makeSink run kind' staged ≠ .ok sink :=
    ⟨not_exists.mp hinvalid, not_exists.mp hinvalid'⟩
  by_cases hvalid : ∃ o, MemorySink.schema.validate direct registry.unknownOptions = .ok o
  · obtain ⟨o, ho⟩ := hvalid
    obtain ⟨o', ho'⟩ := h.exists_validate_iff.mp ⟨o, ho⟩
    obtain ⟨location, hlocation, hlocal⟩ := h.locationOption_ok ho'
    have htarget : "target" ∈ sharedKeys := by decide
    have hmode : "saveMode" ∈ sharedKeys := by decide
    have hcolumns : columnsKey ∈ sharedKeys := by decide
    have hcheck : Settings.check ⟨[], [nonEmptySetting "target"]⟩ o' = .ok () ↔
        Settings.check ⟨[], [nonEmptySetting "target"]⟩ o = .ok () := by
      rw [Settings.check_text_eq_ok_iff, Settings.check_text_eq_ok_iff]
      simp only [nonEmptySetting, ValidOptions.string?, h.get?_eq ho ho' htarget]
    have hprojection (p : Projection) : o'.projection = .ok p ↔ o.projection = .ok p := by
      rw [ValidOptions.projection_eq_ok_iff, ValidOptions.projection_eq_ok_iff]
      simp only [ValidOptions.strings?, h.get?_eq ho ho' hcolumns]
    by_cases hfit : Settings.check ⟨[], [nonEmptySetting "target"]⟩ o = .ok () ∧
        ∃ p, o.projection = .ok p
    · obtain ⟨hchecked, p, hp⟩ := hfit
      refine .inl ⟨o.text "target", o.saveMode, p, location, o'.flag "keepStaging",
        h.saveMode_eq ho, (hmake _).mpr ⟨o, ho, ?_⟩, (hmake' _).mpr ⟨o', ho', ?_⟩⟩
      · rw [MemorySink.create_eq_ok_iff.mpr ⟨hchecked, p, hp, rfl⟩]
        rfl
      · rw [Staging.createWarehouse_eq_ok_iff.mpr ⟨hcheck.mpr hchecked, location, p, hlocation,
          hlocal, (hprojection p).mpr hp, rfl⟩]
        simp only [Except.map, ValidOptions.text, ValidOptions.saveMode, ValidOptions.string?,
          h.get?_eq ho ho' htarget,
          h.get?_eq ho ho' hmode]
    · refine .inr (hnone ?_ ?_)
      · rintro ⟨sink, hsink⟩
        obtain ⟨_, hvalid, hmade⟩ := (hmake sink).mp hsink
        cases ho.symm.trans hvalid
        obtain ⟨m, hcreate, -⟩ := exists_of_map_eq_ok hmade
        obtain ⟨hchecked, p, hp, -⟩ := MemorySink.create_eq_ok_iff.mp hcreate
        exact hfit ⟨hchecked, p, hp⟩
      · rintro ⟨sink, hsink⟩
        obtain ⟨_, hvalid, hmade⟩ := (hmake' sink).mp hsink
        cases ho'.symm.trans hvalid
        obtain ⟨g, hcreate, -⟩ := exists_of_map_eq_ok hmade
        obtain ⟨hchecked, _, p, -, -, hp, -⟩ := Staging.createWarehouse_eq_ok_iff.mp hcreate
        exact hfit ⟨hcheck.mp hchecked, p, (hprojection p).mp hp⟩
  · right
    refine hnone ?_ ?_
    · rintro ⟨sink, hsink⟩
      obtain ⟨o, ho, -⟩ := (hmake sink).mp hsink
      exact hvalid ⟨o, ho⟩
    · rintro ⟨sink, hsink⟩
      obtain ⟨o', ho', -⟩ := (hmake' sink).mp hsink
      exact hvalid (h.exists_validate_iff.mpr ⟨o', ho'⟩)

end AskAlike

/-! ### Jobs that give their sinks the same stream -/

/-- A run whose staging area can be opened and takes what is put there. -/
structure Stores (result : JobResult JobReport) : Prop where
  opened : ∀ kind e, result ≠ .error (.connection .sink kind e)
  put : ∀ kind attempts, result ≠ .error (.sinkWrite kind attempts Staging.StagingSink.uploadFailed)

namespace Host

variable {stream : Stream} {events : List JobEvent} {h : Host} {registry : ConnectorRegistry}
  {settings : JobSettings} {plan : Plan}
  {cancellation : Cancellation} {outcome : JobOutcome} {source : Source} {target : String}
  {mode : SaveMode} {projection : Projection}

/-- What a job comes to that stages for a table: if it is completed, the whole stream of its source
is loaded into the target, provided that its records are read back from their texts. -/
theorem PlanRun.loads_staged {location : Staging.Location} {keeps : Bool}
    (hrun : h.PlanRun registry settings plan cancellation events outcome)
    (hsite : h.makeSite registry plan = .ok
      ⟨source, .staging (.new (.table target mode) location projection keeps h.nextRun),
        { h with nextRun := h.nextRun.next }⟩) :
    ((Staging.StagingSink.new (.table target mode) location projection keeps h.nextRun).milestones
        ⟨target, mode, projection, false, h.tables⟩).Reasons (answers events) ∧
      (∀ e, outcome.result = .error e → ∃ kind, (JobSite.wiring kind).Explains (answers events) e) ∧
      ∀ report, outcome.result = .ok report → ∃ stream,
        streamRead? events = some stream ∧ stream.EndsNormally ∧
        ((∀ batch ∈ stream.nonEmptyBatches, ∀ b, batch.project projection = .ok b →
            ∀ r ∈ b.toRecords, r.ReadsBack) →
          ∃ written, Target.Loaded ⟨target, mode, projection, false, h.tables⟩
            stream.nonEmptyBatches written report.progress.rowsWritten report.receipt
              outcome.host.tables) := by
  have hreaches (kind : Role → String) : (JobSite.wiring kind).Reaches
      ((Staging.StagingSink.new (.table target mode) location projection keeps h.nextRun).milestones
        ⟨target, mode, projection, false, h.tables⟩) :=
    Staging.StagingSink.reaches kind rfl rfl rfl rfl
  obtain ⟨hreasons, hfailed, hcompleted⟩ := hrun.reaches hsite (hreaches _) ⟨rfl, rfl⟩
  refine ⟨hreasons, fun e he => ⟨_, hfailed e he⟩, fun report hreport => ?_⟩
  obtain ⟨final, stream, hread, hnormal, ⟨g, projected, -, hprojected, hloads⟩, hhost, -⟩ :=
    hcompleted report hreport
  refine ⟨stream, hread, hnormal, fun hback => ?_⟩
  obtain ⟨written, hloaded⟩ :=
    hloads (Staging.StagingSink.readsBack_of_projects hback hprojected)
  exact ⟨written, by rw [hhost, tables_publish]; exact hloaded⟩

/-- A job that stages for a table, whose records are read back from their texts. -/
theorem PlanRun.takes_staged {location : Staging.Location} {keeps : Bool}
    (hrun : h.PlanRun registry settings plan cancellation events outcome)
    (hstreams : Streams stream events outcome.result) (hstores : Stores outcome.result)
    (hback : ∀ batch ∈ stream.nonEmptyBatches, ∀ b, batch.project projection = .ok b →
      ∀ r ∈ b.toRecords, r.ReadsBack)
    (hsite : h.makeSite registry plan = .ok
      ⟨source, .staging (.new (.table target mode) location projection keeps h.nextRun),
        { h with nextRun := h.nextRun.next }⟩) :
    Target.Takes ⟨target, mode, projection, false, h.tables⟩ stream outcome := by
  obtain ⟨hreasons, hfailed, hloads⟩ := hrun.loads_staged hsite
  refine .of_loads rfl (fun report hreport => ?_) fun e hresult hnormal => ?_
  · obtain ⟨other, hread, hnormal, hloaded⟩ := hloads report hreport
    cases hstreams.eq_of_streamRead? hread
    exact ⟨hnormal, hloaded hback⟩
  · obtain ⟨kind, hexplains⟩ := hfailed e hresult
    rw [hresult] at hstreams hstores
    rcases hstreams.reason hexplains hreasons with
      hbroken | ⟨_, rfl, -⟩ | ⟨_, e', batch, rfl, hbatch, hrejected | rfl⟩ |
        ⟨_, projected, hprojected, hlost⟩
    · exact absurd hnormal hbroken
    · exact absurd rfl (hstores.opened _ _)
    · exact ⟨batch, hbatch, e', hrejected⟩
    · exact absurd rfl (hstores.put _ _)
    · exact absurd (Staging.StagingSink.readsBack_of_projects hback hprojected) hlost

/-- A job into a table and a job that stages for it agree: the plans have the same source and ask
their sinks alike, neither job is cancelled, both give their sinks the same stream, and what the
second one stages is stored and read back. Then one job completes exactly if the other does, and
when they complete, they leave the same tables and report the same rows written, rows committed and
location. -/
theorem direct_and_staged_agree {direct staged : Plan} {settings' : JobSettings}
    {cancellation' : Cancellation} {events' : List JobEvent} {outcome' : JobOutcome}
    (hdirect : registry.sinks.get? direct.sink.kind = some ConnectorRegistry.memorySink)
    (hstaged : registry.sinks.get? staged.sink.kind = some ConnectorRegistry.warehouseSink)
    (hsource : staged.source = direct.source)
    (halike : AskAlike direct.sink.options staged.sink.options)
    (hrun : h.PlanRun registry settings direct cancellation events outcome)
    (hrun' : h.PlanRun registry settings' staged cancellation' events' outcome')
    (hstreams : Streams stream events outcome.result)
    (hstreams' : Streams stream events' outcome'.result) (hstores : Stores outcome'.result)
    (hback : ∀ g, registry.makeSink h.nextRun staged.sink.kind staged.sink.options =
        .ok (.staging g) → ∀ batch ∈ stream.nonEmptyBatches, ∀ b,
      batch.project g.projection = .ok b → ∀ r ∈ b.toRecords, r.ReadsBack) :
    ((∃ report, outcome.result = .ok report) ↔ ∃ report, outcome'.result = .ok report) ∧
      ∀ report report', outcome.result = .ok report → outcome'.result = .ok report' →
        outcome'.host.tables = outcome.host.tables ∧
        report'.progress.rowsWritten = report.progress.rowsWritten ∧
        report'.receipt.rows = report.receipt.rows ∧
        report'.receipt.location = report.receipt.location := by
  -- Where the connectors of one plan cannot be made, neither can those of the other.
  have hneither (hsite : ∀ site, h.makeSite registry direct ≠ .ok site)
      (hsite' : ∀ site, h.makeSite registry staged ≠ .ok site) :
      ((∃ report, outcome.result = .ok report) ↔ ∃ report, outcome'.result = .ok report) ∧
        ∀ report report', outcome.result = .ok report → outcome'.result = .ok report' →
          outcome'.host.tables = outcome.host.tables ∧
          report'.progress.rowsWritten = report.progress.rowsWritten ∧
          report'.receipt.rows = report.receipt.rows ∧
          report'.receipt.location = report.receipt.location := by
    have hfailed := hrun.ne_ok_of_makeSite hsite
    have hfailed' := hrun'.ne_ok_of_makeSite hsite'
    exact ⟨iff_of_false (fun ⟨_, h⟩ => hfailed _ h) fun ⟨_, h⟩ => hfailed' _ h,
      fun report _ hreport => absurd hreport (hfailed report)⟩
  cases hmakeSource : registry.makeSource h.nextRun direct.source.kind direct.source.options with
  | error e =>
      refine hneither (fun site hsite => ?_) fun site hsite => ?_
      · obtain ⟨source, _, hsource, -⟩ := makeSite_eq_ok_iff.mp hsite
        cases hmakeSource.symm.trans hsource
      · obtain ⟨source, _, hmade, -⟩ := makeSite_eq_ok_iff.mp hsite
        rw [hsource] at hmade
        cases hmakeSource.symm.trans hmade
  | ok source =>
      rcases halike.makeSink registry h.nextRun hdirect hstaged with
        ⟨target, mode, projection, location, keeps, hmode, hsink, hsink'⟩ | ⟨hnone, hnone'⟩
      · have hsite := makeSite_eq_ok_iff.mpr ⟨source, _, hmakeSource, hsink, rfl⟩
        have hsite' := makeSite_eq_ok_iff.mpr
          ⟨source, _, (congrArg (fun e : Endpoint => registry.makeSource h.nextRun e.kind e.options)
            hsource).trans hmakeSource, hsink', rfl⟩
        have hback' : ∀ batch ∈ stream.nonEmptyBatches, ∀ b, batch.project projection = .ok b →
            ∀ r ∈ b.toRecords, r.ReadsBack := hback _ hsink'
        have htakes := hrun.takes_direct hstreams hmode hsite
        have htakes' := hrun'.takes_staged hstreams' hstores hback' hsite'
        refine ⟨htakes.completes.trans htakes'.completes.symm,
          fun report report' hreport hreport' => ?_⟩
        obtain ⟨written, hloaded⟩ := htakes.loads report hreport
        obtain ⟨written', hloaded'⟩ := htakes'.loads report' hreport'
        obtain ⟨htables, hrows, hreceipt⟩ := hloaded'.unique hloaded
        rw [hreceipt]
        exact ⟨htables, hrows, rfl, rfl⟩
      · refine hneither (fun site hsite => ?_) fun site hsite => ?_
        · obtain ⟨_, sink, -, hsink, -⟩ := makeSite_eq_ok_iff.mp hsite
          exact hnone sink hsink
        · obtain ⟨_, sink, -, hsink, -⟩ := makeSite_eq_ok_iff.mp hsite
          exact hnone' sink hsink

/-- The registry of the scripted source and of both sinks. -/
def tableRegistry : ConnectorRegistry :=
  oneFieldRegistry.addSink "memory" ConnectorRegistry.memorySink

/-- A plan of the scripted source and the table `t`. -/
def directPlan : Plan :=
  ⟨⟨"script", .empty⟩, ⟨"memory", KeyMap.empty.insert "target" (.string "t")⟩, none⟩

/-- The connectors of that plan, with their host. -/
def directSite : JobSite :=
  ⟨.scripted .all, .memory ⟨"t", .append, .all, false, 0⟩, { oneFieldHost with nextRun := ⟨1⟩ }⟩

/-- The stream of the scripted source. -/
def oneFieldStream : Stream := .listed [⟨0, .batch Staging.StagingSink.oneFieldBatch⟩]

theorem nonEmptyBatches_oneFieldStream :
    oneFieldStream.nonEmptyBatches = [Staging.StagingSink.oneFieldBatch] := by
  rw [oneFieldStream, Stream.nonEmptyBatches, Stream.items_of_next? rfl,
    Stream.items_of_next?_eq_none rfl]
  rfl

/-- The plans of the scripted source ask the sinks of both kinds for the same. -/
theorem askAlike_oneField : AskAlike directPlan.sink.options oneFieldPlan.sink.options := by
  have htarget {key : String} {value : OptionValue}
      (h : (KeyMap.empty.insert "target" (OptionValue.string "t")).get? key = some value) :
      key ∈ sharedKeys := by
    rw [KeyMap.get?_insert] at h
    split at h
    · rename_i hkey
      rw [hkey]
      decide
    · cases h
  exact ⟨fun _ _ => rfl, fun _ _ => htarget, fun _ _ h => .inl (htarget h), nofun, nofun, nofun⟩

/-- The answer to a reading. -/
def readAnswer? : JobEvent → Option (ConnectorResult Stream)
  | .read answer => some answer
  | _ => none

theorem streams_of_readAnswers {report : JobReport}
    (h : events.filterMap readAnswer? = [.ok stream]) : Streams stream events (.ok report) where
  uncancelled := nofun
  opened := nofun
  read answer hanswer := by
    have hmem : answer ∈ events.filterMap readAnswer? := List.mem_filterMap.mpr ⟨_, hanswer, rfl⟩
    rw [h] at hmem
    exact List.mem_singleton.mp hmem

/-- One row, written at once and staged, comes to the same. -/
theorem direct_and_staged_agree_oneField :
    ∃ events outcome events' outcome' report report',
      oneFieldHost.PlanRun tableRegistry JobRun.oneBatchSettings directPlan {} events outcome ∧
        oneFieldHost.PlanRun tableRegistry JobRun.oneBatchSettings oneFieldPlan {} events' outcome' ∧
        outcome.result = .ok report ∧ outcome'.result = .ok report' ∧
        outcome.host.tables.get? "t" = some [Record.oneField] ∧
        outcome'.host.tables = outcome.host.tables ∧
        report'.receipt.location = report.receipt.location := by
  have hback : ∀ r ∈ Staging.StagingSink.oneFieldBatch.toRecords, r.ReadsBack := by
    rw [Staging.StagingSink.toRecords_oneFieldBatch, List.forall_mem_singleton]
    exact Record.oneField_readsBack
  obtain ⟨events, outcome, report, hrun, hresult, hreads, htable⟩ :
      ∃ events outcome report,
        oneFieldHost.PlanRun tableRegistry JobRun.oneBatchSettings directPlan {} events outcome ∧
          outcome.result = .ok report ∧ events.filterMap readAnswer? = [.ok oneFieldStream] ∧
          outcome.host.tables.get? "t" = some [Record.oneField] := by
    have hread := ((((JobRun.Trace.refl (w := JobSite.wiring (siteKind directSite))
      (c := JobRun.oneBatchSettings) (.start directSite false none)).step
        (.writer (.inl rfl) rfl)).step (.writer (.inl rfl) rfl)).step (.writer (.inl rfl) rfl)).step
        (.writer (.inl rfl) rfl)
    have hwritten := (((hread.step (.reader id rfl)).step (.reader id rfl)).step
      (.writer (.inl rfl) rfl)).step (.writer (.inl rfl) rfl)
    have hcommitted := (((hwritten.step (.reader id rfl)).step (.writer (.inl rfl) rfl)).step
      (.writer (.inl rfl) rfl)).step (.writer (.inl rfl) rfl)
    have hclosed := (hcommitted.step (.writer (.inl rfl) rfl)).step (.writer (.inl rfl) rfl)
    have hsite : oneFieldHost.makeSite tableRegistry directPlan = .ok directSite := rfl
    exact ⟨_, _, _, .resolved hsite hclosed rfl, rfl, rfl, rfl⟩
  obtain ⟨events', outcome', report', hrun', hresult', hreads'⟩ :
      ∃ events outcome report,
        oneFieldHost.PlanRun tableRegistry JobRun.oneBatchSettings oneFieldPlan {} events outcome ∧
          outcome.result = .ok report ∧ events.filterMap readAnswer? = [.ok oneFieldStream] := by
    have hread := ((((JobRun.Trace.refl (w := JobSite.wiring (siteKind oneFieldSite))
      (c := JobRun.oneBatchSettings) (.start oneFieldSite false none)).step
        (.writer (.inl rfl) rfl)).step (.writer (.inl rfl) rfl)).step (.writer (.inl rfl) rfl)).step
        (.writer (.inl rfl) rfl)
    have hwritten := (((hread.step (.reader id rfl)).step (.reader id rfl)).step
      (.writer (.inl rfl) rfl)).step (.writer (.inl rfl) rfl)
    have hcommitting := ((hwritten.step (.reader id rfl)).step (.writer (.inl rfl) rfl)).step
      (.writer (.inl rfl) rfl)
    have hput : (Staging.Store.own .empty).put? (new []).shelves
      (Staging.partPath (Staging.StagingSink.jobFolder (.memory "") ⟨0⟩) 0)
      (.text Staging.StagingSink.oneFieldBatch.toJsonLines) = some _ := rfl
    have hcommitted := hcommitting.step (.writer (.inl rfl) (JobSite.writerMove_beginCommit rfl rfl
      (Staging.StagingSink.stagedRecords_eq_ok.mpr ⟨_,
        [Staging.StagingSink.oneFieldBatch.toRecords], rfl,
        congrArg (fun found => [found]) (Staging.recordsAt?_put? hput hback), rfl⟩)))
    have hclosed := (hcommitted.step (.writer (.inl rfl) rfl)).step (.writer (.inl rfl) rfl)
    have hsite : oneFieldHost.makeSite tableRegistry oneFieldPlan = .ok oneFieldSite := rfl
    exact ⟨_, _, _, .resolved hsite hclosed rfl, rfl, rfl⟩
  have hdirect : tableRegistry.sinks.get? directPlan.sink.kind =
    some ConnectorRegistry.memorySink := rfl
  have hstaged : tableRegistry.sinks.get? oneFieldPlan.sink.kind =
    some ConnectorRegistry.warehouseSink := rfl
  have hstores : Stores outcome'.result := by
    rw [hresult']
    exact ⟨nofun, nofun⟩
  have hsink : tableRegistry.makeSink oneFieldHost.nextRun oneFieldPlan.sink.kind
    oneFieldPlan.sink.options = .ok oneFieldSite.sink := rfl
  obtain ⟨-, hsame⟩ := direct_and_staged_agree hdirect hstaged rfl askAlike_oneField hrun hrun'
    (hresult ▸ streams_of_readAnswers hreads) (hresult' ▸ streams_of_readAnswers hreads') hstores
    fun g hg batch hbatch b hproject => by
      cases hsink.symm.trans hg
      rw [nonEmptyBatches_oneFieldStream, List.mem_singleton] at hbatch
      subst hbatch
      cases hproject
      exact hback
  obtain ⟨htables, -, -, hlocation⟩ := hsame report report' hresult hresult'
  exact ⟨_, _, _, _, _, _, hrun, hrun', hresult, hresult', htable, htables, hlocation⟩

end Host

end BatchTransfer
