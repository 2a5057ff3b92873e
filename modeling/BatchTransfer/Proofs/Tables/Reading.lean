import BatchTransfer.Proofs.Batch.Records
import BatchTransfer.Proofs.Tables.Loads

/-!
# Sources that read a table

A source of rows in memory takes its rows when it is opened, so that what the sink does to the
tables makes no difference to it, not even where the table that is read is the target. Whatever the
sink, its calls answer as the rows before the job have it (`MemorySource.answers_of_course`): a job
that is not cancelled is given the stream of these rows (`Host.PlanRun.streams_rows`).
-/

namespace BatchTransfer

open JobEvent (answers)

/-- The names of the columns that are wanted of records. -/
def Projection.namesIn (p : Projection) (records : List Record) : List String :=
  match p with
  | .all => Batch.columnNames records
  | .columns names => names

namespace MemorySource

/-- The rows of a table that is there. -/
theorem tableRows_of_get? {source : MemorySource} {h : Host} {name : String}
    {records : List Record} (hheld : h.tables.get? name = some records) :
    source.tableRows h name = .ok records := by
  rw [tableRows, hheld]

/-- What is known of the source of a job, as far as the job has come. -/
def Stands (start : MemorySource) (before : Host) (site : JobSite) : Phase → Prop
  | .opening .source =>
      site.source = .memory start ∧ site.host.withoutRehearsals = before.withoutRehearsals
  | .opening .sink | .reading => ∃ records, start.rows before = .ok records ∧
      site.source = .memory { start with snapshot := some records }
  | _ => True

/-- What the calls of a source answer whose rows are taken from a host. -/
structure Answers (start : MemorySource) (before : Host) (events : List JobEvent) : Prop where
  opened : ∀ e, .opened .source (.error e) ∈ events → start.rows before = .error e
  read : ∀ answer, .read answer ∈ events → ∃ records, start.rows before = .ok records ∧
    answer = (start.batches records).map .ofBatches

variable {α : Type} {start : MemorySource} {before : Host} {events : List JobEvent}
  {event : JobEvent} {site s t : JobSite} {phase : Phase} {kind : Role → String}

theorem Answers.concat (h : Answers start before events)
    (hopened : ∀ e, event = .opened .source (.error e) → start.rows before = .error e)
    (hread : ∀ answer, event = .read answer → ∃ records, start.rows before = .ok records ∧
      answer = (start.batches records).map .ofBatches) :
    Answers start before (events ++ [event]) where
  opened e he := by
    rw [List.mem_append, List.mem_singleton] at he
    exact he.elim (h.opened e) fun he => hopened e he.symm
  read answer he := by
    rw [List.mem_append, List.mem_singleton] at he
    exact he.elim (h.read answer) fun he => hread answer he.symm

/-- A call of a source in memory takes effect at once, on the source alone. -/
theorem ends_onSource (call : Source → Host → Call (Source × Host) α)
    (effect : MemorySource → Host → MemorySource × ConnectorResult α)
    (hcall : ∀ m host, call (.memory m) host =
      .now (.memory (effect m host).1, host) (effect m host).2)
    (hsource : s.source = .memory start) {answer : ConnectorResult α}
    (hends : (s.onSource (call s.source s.host)).Ends t answer) :
    t.source = .memory (effect start s.host).1 ∧ t.host = s.host ∧
      answer = (effect start s.host).2 := by
  obtain ⟨p, hcallEnds, rfl⟩ := JobSite.ends_onSource hends
  clear hends
  rw [hsource, hcall] at hcallEnds
  obtain ⟨rfl, rfl⟩ := Call.ends_now hcallEnds
  exact ⟨rfl, rfl, rfl⟩

/-- The rows depend on nothing that rehearsals keep in the host. -/
theorem rows_congr (h : s.host.withoutRehearsals = before.withoutRehearsals) :
    start.rows s.host = start.rows before := by
  change start.rows s.host.withoutRehearsals = start.rows before.withoutRehearsals
  rw [h]

/-- What is known of the source after an opening that has failed. -/
theorem Stands.refused {role : Role} {time : Nat} {e : ConnectorError}
    (h : Stands start before s (.opening role))
    (hcall : ((JobSite.wiring kind).openCall role time s).Ends t (.error e)) :
    Stands start before t (.opening role) ∧ (role = .source → start.rows before = .error e) := by
  cases role with
  | source =>
      obtain ⟨hsource, hhost⟩ := h
      obtain ⟨hsource', hhost', herror⟩ := ends_onSource (fun x host => x.openCall time host)
        openRows (fun _ _ => rfl) hsource hcall
      unfold openRows at hsource' herror
      rw [rows_congr hhost] at hsource' herror
      cases hrows : start.rows before with
      | ok records =>
          rw [hrows] at herror
          cases herror
      | error e' =>
          rw [hrows] at hsource' herror
          cases herror
          exact ⟨⟨hsource', hhost' ▸ hhost⟩, fun _ => rfl⟩
  | sink =>
      obtain ⟨records, hrows, hsource⟩ := h
      obtain ⟨p, -, rfl⟩ := JobSite.ends_onSink hcall
      exact ⟨⟨records, hrows, hsource⟩, nofun⟩

/-- The calls of a source in memory answer as its rows before the job have it. -/
theorem answers_of_course (hsource : site.source = .memory start)
    (hhost : site.host.withoutRehearsals = before.withoutRehearsals)
    (h : (JobSite.wiring kind).Course site phase events t) :
    Stands start before t phase ∧ Answers start before events := by
  induction h with
  | start => exact ⟨⟨hsource, hhost⟩, nofun, nofun⟩
  | refused _ hcall ih =>
      obtain ⟨hstands, hanswers⟩ := ih
      obtain ⟨hstands', hcause⟩ := hstands.refused hcall
      refine ⟨hstands', hanswers.concat ?_ nofun⟩
      rintro _ ⟨⟩
      exact hcause rfl
  | unopened _ hcall ih =>
      obtain ⟨hstands, hanswers⟩ := ih
      obtain ⟨-, hcause⟩ := hstands.refused hcall
      refine ⟨trivial, hanswers.concat ?_ nofun⟩
      rintro _ ⟨⟩
      exact hcause rfl
  | @sourceOpened _ _ time _ _ hcall ih =>
      obtain ⟨⟨hsource, hhost⟩, hanswers⟩ := ih
      obtain ⟨hsource', -, hok⟩ := ends_onSource (fun x host => x.openCall time host)
        openRows (fun _ _ => rfl) hsource hcall
      refine ⟨?_, hanswers.concat nofun nofun⟩
      unfold openRows at hsource' hok
      rw [rows_congr hhost] at hsource' hok
      cases hrows : start.rows before with
      | error e =>
          rw [hrows] at hok
          cases hok
      | ok records =>
          rw [hrows] at hsource'
          exact ⟨records, hrows, hsource'⟩
  | sinkOpened _ hcall ih =>
      obtain ⟨hstands, hanswers⟩ := ih
      obtain ⟨p, -, rfl⟩ := JobSite.ends_onSink hcall
      exact ⟨hstands, hanswers.concat nofun nofun⟩
  | @read _ _ time _ _ _ hcall ih | @unread _ _ time _ _ _ hcall ih =>
      obtain ⟨⟨records, hrows, hsource⟩, hanswers⟩ := ih
      obtain ⟨-, -, hanswer⟩ := ends_onSource (fun x host => x.readCall time host)
        (fun m _ => m.read) (fun _ _ => rfl) hsource hcall
      refine ⟨trivial, hanswers.concat nofun ?_⟩
      rintro _ ⟨⟩
      exact ⟨records, hrows, hanswer⟩
  | written _ _ _ ih | unwritten _ _ _ ih | committed _ _ _ _ ih | closed _ _ ih =>
      exact ⟨trivial, ih.2.concat nofun nofun⟩
  | broken _ _ ih | cancelled _ _ ih => exact ⟨trivial, ih.2⟩

/-- The batches of rows that have the wanted columns: none is empty, and together they hold the
rows in order, each with the wanted columns. -/
theorem exists_batches (source : MemorySource) {records : List Record}
    (h : ∀ names, source.projection = .columns names →
      ∀ name ∈ names, name ∈ Batch.columnNames records) :
    ∃ batches, source.batches records = .ok batches ∧ (∀ b ∈ batches, b.isEmpty = false) ∧
      batches.flatMap Batch.toRecords =
        records.map (Record.select (source.projection.namesIn records)) := by
  obtain ⟨b, hproject, hrecords⟩ : ∃ b,
      (Batch.ofRecords records).project source.projection = .ok b ∧
        b.toRecords = records.map (Record.select (source.projection.namesIn records)) := by
    cases hprojection : source.projection with
    | all => exact ⟨_, rfl, Batch.toRecords_ofRecords records⟩
    | columns names => exact Batch.project_ofRecords (h names hprojection)
  refine ⟨b.chunks source.batchSize, by rw [batches, hproject]; rfl,
    fun chunk hchunk => Batch.isEmpty_of_mem_chunks hchunk, ?_⟩
  rw [Batch.flatMap_toRecords_chunks, hrecords]

end MemorySource

namespace Host

variable {h : Host} {registry : ConnectorRegistry} {settings : JobSettings} {plan : Plan}
  {cancellation : Cancellation} {events : List JobEvent} {outcome : JobOutcome}
  {source : MemorySource} {sink : Sink} {records : List Record} {batches : List Batch}

/-- A job that is not cancelled is given the stream of the rows that its source holds. -/
theorem PlanRun.streams_rows (hrun : h.PlanRun registry settings plan cancellation events outcome)
    (hsite : h.makeSite registry plan =
      .ok ⟨.memory source, sink, { h with nextRun := h.nextRun.next }⟩)
    (huncancelled : outcome.result ≠ .error .cancelled) (hrows : source.rows h = .ok records)
    (hbatches : source.batches records = .ok batches) :
    Streams (.ofBatches batches) events outcome.result := by
  obtain ⟨final, hfailed, hcompleted⟩ := hrun.exists_final hsite
  -- A run that is given away makes no difference to the rows.
  have hanswers :
      MemorySource.Answers source { h with nextRun := h.nextRun.next } (answers events) := by
    cases hresult : outcome.result with
    | error e => exact (MemorySource.answers_of_course rfl rfl (hfailed e hresult).1).2
    | ok report => exact (MemorySource.answers_of_course rfl rfl (hcompleted report hresult).1).2
  refine ⟨huncancelled, fun kind e hresult => ?_, fun answer hanswer => ?_⟩
  · obtain ⟨hcourse, -⟩ := hfailed _ hresult
    cases hcourse.explains rfl with
    | unopened hopened =>
        cases hrows.symm.trans (hanswers.opened e hopened)
  · obtain ⟨records', hrows', rfl⟩ := hanswers.read answer ((JobEvent.mem_answers rfl).mpr hanswer)
    cases hrows.symm.trans hrows'
    rw [hbatches]
    rfl

end Host

end BatchTransfer
