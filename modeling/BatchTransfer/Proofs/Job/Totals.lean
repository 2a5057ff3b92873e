import BatchTransfer.Proofs.Files.Overwriting
import BatchTransfer.Proofs.Log.Jobs
import BatchTransfer.Proofs.Tables.Loads
import BatchTransfer.Proofs.Tables.Staged

/-!
# What completed jobs have counted

A job counts rows and bytes by what its sink acknowledges, and the sink counts rows for its receipt
on its own. The counts agree for the sinks of tables, files and messages and for those that stage
(`Host.PlanRun.accounts_rows`): the receipt has the rows that the job has written, which are all
rows of the stream, unless the sink leaves everything out. The bytes are those of the parts.
-/

namespace BatchTransfer

open JobEvent (streamRead? answers allAcknowledged allAcknowledgements)
open ConnectorRegistry (memorySink warehouseSink fileSink logSink)
open FileTree (IsPath)
open Staging (Part StagingSink)

/-- Whether a sink leaves all batches out, because it ignores a target that is there already. -/
def Sink.leavesOut (sink : Sink) (h : Host) : Bool :=
  match sink with
  | .memory m => m.leavesOut h.tables
  | .file f => f.leavesOut h.files
  | _ => false

/-- Whether a job reports all rows and batches of its stream, and says the same of its rows in its
counts and in its receipt. Where the sink leaves all batches out, no rows are written. -/
structure JobReport.Accounts (report : JobReport) (stream : Stream) (leavesOut : Bool) : Prop where
  rowsRead : report.progress.rowsRead = Batch.totalSize stream.batches
  rowsWritten : report.progress.rowsWritten = if leavesOut then 0 else report.progress.rowsRead
  rowsCommitted : report.receipt.rows = report.progress.rowsWritten
  batches : report.progress.batches = stream.nonEmptyBatches.length

/-- A target that is loaded takes all rows, unless they are left out. -/
theorem Target.Loaded.rows_eq_totalSize {target : Target} {batches : List Batch}
    {written : List Record} {rows : Nat} {receipt : CommitReceipt} {after : Tables}
    (h : target.Loaded batches written rows receipt after) :
    rows = if target.leavesOut then 0 else Batch.totalSize batches := by
  rw [h.rows_eq]
  split
  · rename_i hleaves
    rw [h.nothing hleaves, List.length_nil]
  · rename_i hkeeps
    obtain ⟨projected, hprojects, hwritten⟩ := h.all (eq_false_of_ne_true hkeeps)
    rw [hwritten, ← Batch.totalSize_eq_length, Batch.totalSize_of_projects hprojects]

namespace FileSink

variable {s : FileSink} {before t : FileTree} {batches written : List Batch} {marked : Bool}
  {acks : List Acknowledgement}

/-- The rows in the parts of a directory are those of all batches, unless they are left out. -/
theorem Deposit.totalSize_eq (h : s.Deposit before batches written marked t) :
    Batch.totalSize written = if s.leavesOut before then 0 else Batch.totalSize batches := by
  split
  · rename_i hleaves
    rw [h.leftOut hleaves, Batch.totalSize_nil]
  · rename_i hkeeps
    exact Batch.totalSize_of_projects (h.projected (eq_false_of_ne_true hkeeps))

/-- A sink that leaves all batches out acknowledges no bytes. -/
theorem bytes_eq_zero (hleaves : s.leavesOut before = true)
    (hacks : List.Forall₂ (s.Answers before) batches acks) : (acks.map (·.bytes)).sum = 0 := by
  induction hacks with
  | nil => rfl
  | cons hfirst _ ih =>
      rcases hfirst with ⟨-, rfl⟩ | ⟨hkeeps, -⟩
      · rw [List.map_cons, List.sum_cons, ih]
        rfl
      · rw [hleaves] at hkeeps
        cases hkeeps

/-- The bytes that a sink acknowledges are those of the parts that it leaves. -/
theorem Deposit.bytes_eq (h : s.Deposit before batches written marked t)
    (hacks : List.Forall₂ (s.Answers before) batches acks) :
    (acks.map (·.bytes)).sum = ((s.filesOf written).map (·.2.size)).sum := by
  cases hleaves : s.leavesOut before with
  | true =>
      rw [bytes_eq_zero hleaves hacks, h.leftOut hleaves]
      rfl
  | false =>
      have hall : List.Forall₂
          (fun b ack => ∃ q, b.project s.projection = .ok q ∧ ack = s.acknowledgement q)
          batches acks := by
        refine hacks.imp fun b ack hanswer => ?_
        rcases hanswer with ⟨hout, -⟩ | ⟨-, hput⟩
        · rw [hleaves] at hout
          cases hout
        · exact hput
      have hsizes := congrArg (List.map Content.size) (s.contents_filesOf written)
      rw [List.map_map, List.map_map] at hsizes
      rw [Batch.eq_map_of_projects (h.projected hleaves) hall, List.map_map]
      exact congrArg List.sum hsizes.symm

end FileSink

namespace Host

variable {h : Host} {registry : ConnectorRegistry} {settings : JobSettings} {plan : Plan}
  {cancellation : Cancellation} {events : List JobEvent} {outcome : JobOutcome} {source : Source}
  {report : JobReport} {site : JobSite}

/-- A completed job accounts for its rows if its sink takes all of them, or none where it leaves all
batches out, and if the receipt says the same. -/
theorem PlanRun.accounts (hrun : h.PlanRun registry settings plan cancellation events outcome)
    (hresult : outcome.result = .ok report) {stream : Stream}
    (hread : streamRead? events = some stream) {leavesOut : Bool}
    (hwritten : report.progress.rowsWritten =
      if leavesOut then 0 else Batch.totalSize stream.nonEmptyBatches)
    (hreceipt : report.receipt.rows = report.progress.rowsWritten) :
    report.Accounts stream leavesOut := by
  obtain ⟨-, hrowsRead, hbatches, -⟩ := hrun.counts hresult hread
  refine ⟨hrowsRead, ?_, hreceipt, hbatches⟩
  rw [hwritten, hrowsRead, stream.totalSize_nonEmptyBatches]

/-- A completed job into a table. -/
theorem PlanRun.accounts_memory {sink : MemorySink}
    (hrun : h.PlanRun registry settings plan cancellation events outcome)
    (hfresh : sink.discards = false) (hrows : sink.rows = 0)
    (hsite : h.makeSite registry plan =
      .ok ⟨source, .memory sink, { h with nextRun := h.nextRun.next }⟩)
    (hresult : outcome.result = .ok report) :
    ∃ stream, streamRead? events = some stream ∧
      report.Accounts stream (Sink.leavesOut (.memory sink) h) := by
  obtain ⟨-, -, hloads⟩ := hrun.loads_direct hfresh hrows hsite
  obtain ⟨stream, written, hread, -, hloaded⟩ := hloads report hresult
  refine ⟨stream, hread, hrun.accounts hresult hread hloaded.rows_eq_totalSize ?_⟩
  rw [hloaded.receipt_eq, hloaded.rows_eq]

/-- A completed job that prints. -/
theorem PlanRun.accounts_log {sink : LogSink}
    (hrun : h.PlanRun registry settings plan cancellation events outcome) (hrows : sink.rows = 0)
    (hsite : h.makeSite registry plan =
      .ok ⟨source, .log sink, { h with nextRun := h.nextRun.next }⟩)
    (hresult : outcome.result = .ok report) :
    ∃ stream, streamRead? events = some stream ∧
      report.Accounts stream (Sink.leavesOut (.log sink) h) := by
  obtain ⟨stream, projected, hread, hprojects, -, hwritten, hreceipt⟩ := hrun.prints hsite hresult
  refine ⟨stream, hread, hrun.accounts hresult hread ?_ ?_⟩
  · rw [hwritten, Batch.totalSize_of_projects hprojects]
    rfl
  · rw [hreceipt, hwritten]
    change sink.rows + _ = _
    rw [hrows, Nat.zero_add]

/-- A completed job into files, with the bytes of the parts that it leaves. -/
theorem PlanRun.accounts_files {sink : FileSink}
    (hrun : h.PlanRun registry settings plan cancellation events outcome)
    (hfresh : sink.discards = false) (hrows : sink.rows = 0)
    (hworking : IsPath h.files.workingDirectory)
    (hsite : h.makeSite registry plan =
      .ok ⟨source, .file sink, { h with nextRun := h.nextRun.next }⟩)
    (hresult : outcome.result = .ok report) :
    ∃ stream written, streamRead? events = some stream ∧
      report.Accounts stream (Sink.leavesOut (.file sink) h) ∧
      sink.Deposit h.files stream.nonEmptyBatches written (!sink.leavesOut h.files)
        outcome.host.files ∧
      report.progress.bytesWritten = ((sink.filesOf written).map (·.2.size)).sum := by
  obtain ⟨-, hcompleted⟩ := hrun.deposits hsite hfresh hrows hworking
  obtain ⟨stream, written, hread, hdeposit, hwritten, hreceipt, -⟩ := hcompleted report hresult
  obtain ⟨hall, -, -, hbytes⟩ := hrun.counts hresult hread
  -- The bytes are counted by acknowledgements, of which there is one for each batch.
  have hacks := hrun.acknowledges hsite (FileSink.reaches _ hfresh hrows hworking) ⟨rfl, .refl _⟩
    (R := sink.Answers h.files) ?_ hresult
  · rw [hall] at hacks
    refine ⟨stream, written, hread, hrun.accounts hresult hread ?_ ?_, hdeposit, ?_⟩
    · rw [hwritten, hdeposit.totalSize_eq]
      rfl
    · rw [hreceipt, hwritten]
    · rw [hbytes, hdeposit.bytes_eq hacks]
  · rintro time batch batches rows s t ack ⟨written, hsink, hdeposit, -⟩ hbatch hcall
    obtain ⟨sink', -, heffect⟩ := FileSink.write_onSink hsink hcall
    exact (hdeposit.write hworking hbatch heffect).1

/-- A completed job that stages for a table, with the bytes of the parts that its sink finds when it
commits. -/
theorem PlanRun.accounts_staged {target : String} {mode : SaveMode} {location : Staging.Location}
    {projection : Projection} {keeps : Bool}
    (hrun : h.PlanRun registry settings plan cancellation events outcome)
    (hsite : h.makeSite registry plan = .ok site)
    (hmade : site = ⟨source,
      .staging (.new (.table target mode) location projection keeps h.nextRun),
      { h with nextRun := h.nextRun.next }⟩)
    (hresult : outcome.result = .ok report) :
    ∃ (stream : Stream) (before : JobSite) (g : StagingSink) (contents : List Content),
      streamRead? events = some stream ∧ report.Accounts stream (site.sink.leavesOut h) ∧
      (JobSite.wiring (siteKind site)).CommitsAt site (answers events) report.receipt before ∧
      before.sink = .staging g ∧ g.HasParts before.host.shelves contents ∧
      contents.length = stream.nonEmptyBatches.length ∧
      report.progress.bytesWritten = (contents.map Content.size).sum := by
  have hreaches (kind : Role → String) : (JobSite.wiring kind).Reaches
      ((StagingSink.new (.table target mode) location projection keeps h.nextRun).milestones
        ⟨target, mode, projection, false, h.tables⟩) :=
    StagingSink.reaches kind rfl rfl rfl rfl
  have hstart : ((StagingSink.new (.table target mode) location projection keeps
      h.nextRun).milestones ⟨target, mode, projection, false, h.tables⟩).unopened site := by
    rw [hmade]
    exact ⟨rfl, rfl⟩
  obtain ⟨stream, before, hread, hcommits, g, projected, hsink, -, hstaged, hwritten⟩ :=
    hrun.exists_commit hsite (hreaches _) hstart hresult
  obtain ⟨hall, -, -, hbytes⟩ := hrun.counts hresult hread
  have hacks := hrun.acknowledges hsite (hreaches _) hstart
    (R := fun b ack => ∃ q, b.project projection = .ok q ∧
      ack = ⟨q.size, q.toJsonLines.utf8ByteSize⟩) ?_ hresult
  · rw [hall] at hacks
    -- The receipt counts the records that are read back from the parts, one for each row.
    obtain ⟨_, _, _, _, _, -, -, hcall⟩ := id hcommits
    refine ⟨stream, before, g, _, hread, hrun.accounts hresult hread ?_ ?_, hcommits, hsink,
      hstaged.hasParts, ?_, ?_⟩
    · rw [hwritten, Batch.totalSize_of_projects hstaged.projects, hmade]
      rfl
    · rw [hstaged.rows_commit rfl hsink hcall, hwritten]
    · have hlength := congrArg List.length hstaged.projects
      rw [List.length_map, List.length_map] at hlength
      rw [List.length_map, hlength]
    · rw [hbytes, Batch.eq_map_of_projects hstaged.projects hacks, List.map_map, List.map_map]
      rfl
  · rintro time batch batches rows s t ack ⟨g, projected, hsink, -, hstaged, -⟩ hbatch hcall
    obtain ⟨_, b, -, -, -, hproject, hack⟩ := hstaged.writes_onSink hsink hbatch hcall
    exact ⟨b, hproject, hack⟩

/-- A completed job into a table, into files, into messages or into a staging area that is published
in a table reports all rows and all batches with rows of its stream. The rows written and the rows
committed are the same number: all rows, or none if the sink ignores a target that is there already.
The bytes are those of the parts: the parts that the job leaves among the files, or those that its
staging sink finds when it commits, one for each batch. -/
theorem PlanRun.accounts_rows (hrun : h.PlanRun registry settings plan cancellation events outcome)
    (hkind : ∃ maker ∈ [memorySink, warehouseSink, fileSink, logSink],
      registry.sinks.get? plan.sink.kind = some maker)
    (hworking : IsPath h.files.workingDirectory) (hresult : outcome.result = .ok report) :
    ∃ site stream, h.makeSite registry plan = .ok site ∧ streamRead? events = some stream ∧
      report.Accounts stream (site.sink.leavesOut h) ∧
      (∀ sink, site.sink = .file sink → ∃ written,
        sink.Deposit h.files stream.nonEmptyBatches written (!sink.leavesOut h.files)
          outcome.host.files ∧
        ((sink.filesOf written).map Prod.fst).Nodup ∧
        report.progress.bytesWritten = ((sink.filesOf written).map (·.2.size)).sum) ∧
      (∀ sink, site.sink = .staging sink → ∃ (before : JobSite) (g : StagingSink)
          (contents : List Content),
        (JobSite.wiring (siteKind site)).CommitsAt site (answers events) report.receipt before ∧
        before.sink = .staging g ∧ g.HasParts before.host.shelves contents ∧
        contents.length = stream.nonEmptyBatches.length ∧
        report.progress.bytesWritten = (contents.map Content.size).sum) := by
  obtain ⟨site, hsite⟩ := hrun.exists_site hresult
  obtain ⟨source, sink, -, hsink, rfl⟩ := makeSite_eq_ok_iff.mp hsite
  obtain ⟨maker, hmaker, hkind⟩ := hkind
  obtain ⟨o, -, hmade⟩ := (Registry.make_eq_ok_iff hkind).mp hsink
  simp only [List.mem_cons, List.not_mem_nil, or_false] at hmaker
  rcases hmaker with rfl | rfl | rfl | rfl
  · obtain ⟨m, hcreate, rfl⟩ := exists_of_map_eq_ok hmade
    obtain ⟨-, p, -, rfl⟩ := MemorySink.create_eq_ok_iff.mp hcreate
    obtain ⟨stream, hread, haccounts⟩ := hrun.accounts_memory rfl rfl hsite hresult
    exact ⟨_, stream, hsite, hread, haccounts, nofun, fun _ hstaging => by cases hstaging⟩
  · obtain ⟨g, hcreate, rfl⟩ := exists_of_map_eq_ok hmade
    obtain ⟨-, location, p, -, -, -, rfl⟩ := Staging.createWarehouse_eq_ok_iff.mp hcreate
    obtain ⟨stream, before, g, contents, hread, haccounts, hparts⟩ :=
      hrun.accounts_staged hsite rfl hresult
    exact ⟨_, stream, hsite, hread, haccounts, nofun, fun _ _ => ⟨before, g, contents, hparts⟩⟩
  · obtain ⟨f, hcreate, rfl⟩ := exists_of_map_eq_ok hmade
    obtain ⟨-, p, -, rfl⟩ := FileSink.create_eq_ok_iff.mp hcreate
    obtain ⟨stream, written, hread, haccounts, hdeposit, hbytes⟩ :=
      hrun.accounts_files rfl rfl hworking hsite hresult
    refine ⟨_, stream, hsite, hread, haccounts, ?_, fun _ hstaging => by cases hstaging⟩
    rintro _ ⟨⟩
    exact ⟨written, hdeposit, FileSink.nodup_filesOf .., hbytes⟩
  · obtain ⟨l, hcreate, rfl⟩ := exists_of_map_eq_ok hmade
    obtain ⟨-, p, -, rfl⟩ := LogSink.create_eq_ok_iff.mp hcreate
    obtain ⟨stream, hread, haccounts⟩ := hrun.accounts_log rfl hsite hresult
    exact ⟨_, stream, hsite, hread, haccounts, nofun, fun _ hstaging => by cases hstaging⟩

/-- The scripted row is written and committed. -/
theorem accounts_rows_nestedTree : ∃ events report,
    nestedHost.PlanRun fileRegistry JobRun.oneBatchSettings (filePlan .overwrite) {} events
        (fileOutcome .overwrite) ∧
      (fileOutcome .overwrite).result = .ok report ∧ report.progress.rowsRead = 1 ∧
      report.progress.rowsWritten = 1 ∧ report.receipt.rows = 1 := by
  have hcompleted : (fileOutcome .overwrite).result.isOk = true := by decide +kernel
  obtain ⟨events, hrun, -⟩ := exists_fileRun hcompleted
  obtain ⟨report, hresult⟩ := isOk_eq_true_iff.mp hcompleted
  have hkind : ∃ maker ∈ [memorySink, warehouseSink, fileSink, logSink],
      fileRegistry.sinks.get? (filePlan .overwrite).sink.kind = some maker :=
    ⟨fileSink, by simp, rfl⟩
  obtain ⟨site, stream, hsite, -, haccounts, -⟩ :=
    hrun.accounts_rows hkind isPath_nestedHost hresult
  have hkeeps : site.sink.leavesOut nestedHost = false := by
    obtain ⟨_, sink, -, hsink, rfl⟩ := makeSite_eq_ok_iff.mp hsite
    cases (makeSink_filePlan .overwrite).symm.trans hsink
    rfl
  obtain ⟨hhistory, -⟩ := hrun.history
  obtain ⟨-, -, hprogress⟩ := hhistory report hresult
  have hread : report.progress.rowsRead = 1 := by
    rw [hprogress]
    decide +kernel
  have hwritten : report.progress.rowsWritten = 1 := by
    rw [haccounts.rowsWritten, hkeeps, if_neg Bool.false_ne_true, hread]
  exact ⟨events, report, hrun, hresult, hread, hwritten, haccounts.rowsCommitted.trans hwritten⟩

end Host

end BatchTransfer
