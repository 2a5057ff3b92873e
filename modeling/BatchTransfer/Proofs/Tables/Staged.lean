import BatchTransfer.Proofs.Staging.Atomicity
import BatchTransfer.Proofs.Tables.Targets

/-!
# Sinks that publish in a table at once

A sink that stages its batches and publishes them in a table shows nothing before it commits. Until
then there is a part for every batch that it has acknowledged (`StagingSink.Staged`), so that the
commit finds them all, and publishes their records if these are read back from their texts. Such a
sink fails for no other reason than an area that cannot be used, or a batch without a wanted column.
-/

namespace BatchTransfer.Staging.StagingSink

variable {α : Type} {start g g' : StagingSink} {shelves shelves' : Shelves} {host : Host}
  {batches projected : List Batch} {batch : Batch}

/-- The error about an object that could not be put. -/
def uploadFailed : ConnectorError := ⟨.connection, "staging upload failed"⟩

/-- A write of a sink with a store leaves everything as it is where it fails. -/
theorem write_error (hstore : g.store ≠ none) {e : ConnectorError}
    (h : g.write shelves batch = ((g', shelves'), .error e)) :
    g' = g ∧ shelves' = shelves ∧ (batch.project g.projection = .error e ∨ e = uploadFailed) := by
  unfold write at h
  split at h
  · cases h
  · split at h
    · rename_i hproject
      cases h
      exact ⟨rfl, rfl, .inl hproject⟩
    · split at h
      · rename_i hnone
        exact absurd hnone hstore
      · dsimp only at h
        split at h
        · cases h
          exact ⟨rfl, rfl, .inr rfl⟩
        · cases h

/-- A write acknowledges the rows and the bytes of the batch as it is projected. -/
theorem acknowledgement_write (hrows : batch.isEmpty = false) {ack : Acknowledgement}
    (h : g.write shelves batch = ((g', shelves'), .ok ack)) :
    ∃ b, batch.project g.projection = .ok b ∧ ack = ⟨b.size, b.toJsonLines.utf8ByteSize⟩ := by
  unfold write at h
  rw [hrows, if_neg Bool.false_ne_true] at h
  split at h
  · cases h
  · rename_i b hproject
    split at h
    · cases h
    · dsimp only at h
      split at h
      · cases h
      · cases h
        exact ⟨b, hproject, rfl⟩

/-- Whether the parts of a sink are found under paths of their own, with these contents in the order
of writing. -/
structure HasParts (g : StagingSink) (shelves : Shelves) (contents : List Content) : Prop where
  distinct : (g.parts.map Part.path).Nodup
  found : (g.parts.map Part.path).map (g.content? shelves) = contents.map some

/-- What is known of a sink that has been opened and has acknowledged some batches: there is a part
for each of them, as they were projected. -/
structure Staged (start : StagingSink) (batches projected : List Batch) (g : StagingSink)
    (host : Host) : Prop where
  account : ∃ events, Account start projected events (g, host) ∧
    StagingEvent.staged events = batches ∧ .tampered ∉ events
  opened : g.store ≠ none
  present : ∀ i < projected.length, g.content? host.shelves (partPath start.folder i) ≠ none

namespace Staged

theorem projects (h : Staged start batches projected g host) :
    batches.map (·.project start.projection) = projected.map .ok := by
  obtain ⟨events, haccount, rfl, -⟩ := h.account
  exact haccount.projects

theorem projection_eq (h : Staged start batches projected g host) :
    g.projection = start.projection := by
  obtain ⟨events, haccount, -⟩ := h.account
  exact haccount.projection_eq

theorem loader_eq (h : Staged start batches projected g host) : g.loader = start.loader := by
  obtain ⟨events, haccount, -⟩ := h.account
  exact haccount.loader_eq

/-- A change of the host that leaves the objects alone. -/
theorem kept (h : Staged start batches projected g host) {host' : Host}
    (hshelves : host'.shelves = host.shelves) : Staged start batches projected g host' where
  account := by
    obtain ⟨events, haccount, hstaged, huntampered⟩ := h.account
    refine ⟨events ++ [.elsewhere], haccount.unchanged rfl rfl hshelves, ?_, by simpa using huntampered⟩
    rw [StagingEvent.staged, List.filterMap_append]
    exact (List.append_nil _).trans hstaged
  opened := h.opened
  present i hi := by
    rw [hshelves]
    exact h.present i hi

/-- A sink that has just been opened. -/
theorem of_openStore (hfresh : start.fresh = start)
    (h : start.openStore host.shelves = ((g, shelves), .ok ())) :
    Staged start [] [] g { host with shelves } := by
  have hnone : start.store = none := by
    rw [← hfresh]
    rfl
  have hstart := Account.start start none host hfresh
  have hsame : ({ start with store := none } : StagingSink) = start := by
    rw [← hnone]
  rw [hsame] at hstart
  have hcall := complete_openCall start 0 host
  rw [h] at hcall
  obtain ⟨more, hmore⟩ := hstart.step (.opened hcall)
  have hnothing : more = [] := by
    have hprojects := hmore.projects
    exact List.map_eq_nil_iff.mp hprojects.symm
  subst hnothing
  refine ⟨⟨_, hmore, rfl, by simp⟩, ?_, nofun⟩
  unfold openStore at h
  rw [hnone] at h
  dsimp only at h
  split at h
  · cases h
    nofun
  · cases h

/-- A write that is acknowledged adds a part. -/
theorem write (h : Staged start batches projected g host) (hrows : batch.isEmpty = false)
    {ack : Acknowledgement} (hwrite : g.write host.shelves batch = ((g', shelves'), .ok ack)) :
    ∃ b, Staged start (batches ++ [batch]) (projected ++ [b]) g' { host with shelves := shelves' } ∧
      batch.project start.projection = .ok b ∧ ack = ⟨b.size, b.toJsonLines.utf8ByteSize⟩ := by
  obtain ⟨events, haccount, hstaged, huntampered⟩ := h.account
  obtain ⟨b, hproject, hack⟩ := acknowledgement_write hrows hwrite
  rcases write_cases g host.shelves batch with ⟨-, hempty | ⟨e, he⟩⟩ | hput
  · rw [hrows] at hempty
    cases hempty
  · rw [hwrite] at he
    cases he
  · obtain ⟨b', store, store', shelves', part, schema, ack, hrows, hproject', hstore, hput, hpath,
      hwrite'⟩ := hput
    cases hproject.symm.trans hproject'
    cases hwrite.symm.trans hwrite'
    refine ⟨b, ⟨⟨events ++ [.written batch (.ok ack)],
      haccount.write hrows hproject hstore hput hpath, ?_, by simpa using huntampered⟩,
      Option.some_ne_none _, fun i hi => ?_⟩, h.projection_eq ▸ hproject, hack⟩
    · simp [StagingEvent.staged, StagingEvent.staged?, hrows, ← hstaged]
    · change store'.get? shelves' (partPath start.folder i) ≠ none
      have hpresent := h.present i
      rw [content?, hstore] at hpresent
      rw [Store.get?_put? hput]
      split
      · exact Option.some_ne_none _
      · rename_i haddress
        refine hpresent ?_
        have hlast : i ≠ projected.length := by
          rintro rfl
          refine haddress ?_
          have hlength : g.parts.length = projected.length := haccount.length_parts
          have hfolder : g.folder = start.folder := haccount.folder_eq
          rw [hlength, hfolder]
        rw [List.length_append, List.length_singleton] at hi
        omega

/-- Each batch stands in its part. -/
theorem content?_eq (h : Staged start batches projected g host) {i : Nat} {b : Batch}
    (hi : projected[i]? = some b) :
    g.content? host.shelves (partPath start.folder i) = some (.text b.toJsonLines) := by
  obtain ⟨events, haccount, -, huntampered⟩ := h.account
  obtain ⟨hlt, -⟩ := List.getElem?_eq_some_iff.mp hi
  exact (haccount.kept huntampered i b hi).resolve_left (h.present i hlt)

/-- The parts hold the batches in the order of writing. -/
theorem hasParts (h : Staged start batches projected g host) :
    g.HasParts host.shelves (projected.map fun b => .text b.toJsonLines) := by
  obtain ⟨events, haccount, -⟩ := h.account
  obtain ⟨store, -⟩ := Option.ne_none_iff_exists'.mp h.opened
  have hparts : g.parts.map Part.path = _ := haccount.parts
  constructor
  · rw [hparts]
    exact List.pairwise_map.mpr (List.nodup_range.imp fun hne hsame =>
      hne (address_partPath_inj (congrArg store.address hsame)))
  · rw [hparts, List.map_map]
    refine List.ext_getElem (by simp) fun i hi hi' => ?_
    have hlt : i < projected.length := by simpa using hi
    rw [List.getElem_map, List.getElem_range, List.getElem_map, List.getElem_map]
    exact h.content?_eq (List.getElem?_eq_getElem hlt)

/-- The records that a commit reads are those that the batches are read back as. -/
theorem reread_eq (h : Staged start batches projected g host) {records : List Record}
    (hrecords : g.stagedRecords host.shelves = .ok records) :
    (projected.flatMap Batch.toRecords).mapM Record.reread? = some records := by
  obtain ⟨events, haccount, -, huntampered⟩ := h.account
  obtain ⟨store, found, hstore, hfound, rfl⟩ := stagedRecords_eq_ok.mp hrecords
  have hparts : g.parts.map Part.path = _ := haccount.parts
  rw [hparts, List.map_map] at hfound
  exact haccount.reread_eq hstore huntampered hfound

/-- The records of all batches are found when the sink commits, if they are read back from their
texts. -/
theorem stagedRecords_eq (h : Staged start batches projected g host)
    (hback : ∀ b ∈ projected, ∀ r ∈ b.toRecords, r.ReadsBack) :
    g.stagedRecords host.shelves = .ok (projected.flatMap Batch.toRecords) := by
  obtain ⟨store, hstore⟩ := Option.ne_none_iff_exists'.mp h.opened
  refine stagedRecords_eq_ok.mpr ⟨store, projected.map Batch.toRecords, hstore, ?_,
    List.flatMap_def⟩
  calc (g.parts.map Part.path).map (recordsAt? store host.shelves)
    _ = ((g.parts.map Part.path).map (g.content? host.shelves)).map
          (·.bind fun content => content.text?.bind Manifest.recordsOfText?) := by
        simp only [List.map_map, Function.comp_def, recordsAt?, content?, hstore, Option.bind_some]
    _ = (projected.map Batch.toRecords).map some := by
        rw [h.hasParts.found, List.map_map, List.map_map, List.map_map]
        refine List.map_congr_left fun b hb => ?_
        simp only [Function.comp_apply, Option.bind_some, Content.text?,
          recordsOfText?_toJsonLines (hback b hb)]

end Staged

/-- If the records of batches are read back wherever a batch can be projected, then those of the
projected batches are. -/
theorem readsBack_of_projects {p : Projection}
    (hback : ∀ batch ∈ batches, ∀ b, batch.project p = .ok b → ∀ r ∈ b.toRecords, r.ReadsBack)
    (hprojected : batches.map (·.project p) = projected.map .ok) :
    ∀ b ∈ projected, ∀ r ∈ b.toRecords, r.ReadsBack := by
  intro b hb
  have hmem : .ok b ∈ batches.map (·.project p) := hprojected ▸ List.mem_map_of_mem hb
  obtain ⟨batch, hbatch, hproject⟩ := List.mem_map.mp hmem
  exact hback batch hbatch b hproject

/-! ### Jobs that stage -/

/-- The milestones of a job that stages its batches for a table. -/
def milestones (start : StagingSink) (target : Target) : Milestones JobSite where
  unopened site := site.sink = .staging start ∧ site.host.tables = target.before
  taking batches rows site := ∃ g projected, site.sink = .staging g ∧
    site.host.tables = target.before ∧ Staged start batches projected g site.host ∧
    rows = Batch.totalSize projected
  committed batches rows receipt site := ∃ g, ∃ projected : List Batch, site.sink = .staging g ∧
    batches.map (·.project start.projection) = projected.map .ok ∧
    ((∀ b ∈ projected, ∀ r ∈ b.toRecords, r.ReadsBack) →
      ∃ written, target.Loaded batches written rows receipt site.host.tables)
  refusal _ := True
  rejection batch e := batch.project start.projection = .error e ∨ e = uploadFailed
  failure batches _ := ∃ projected : List Batch,
    batches.map (·.project start.projection) = projected.map .ok ∧
    ¬ ∀ b ∈ projected, ∀ r ∈ b.toRecords, r.ReadsBack

section Jobs

variable {site t : JobSite} {target : Target} {answer : ConnectorResult α}

/-- An area that cannot be opened leaves the sink as it is. -/
theorem openStore_error {e : ConnectorError} (h : (start.openStore shelves).2 = .error e) :
    (start.openStore shelves).1.1 = start := by
  unfold openStore at h ⊢
  split
  · rfl
  · rename_i hnone
    rw [hnone] at h
    dsimp only at h
    split at h
    · cases h
    · rfl

/-- A call of a staging sink that takes no time ends as the sink has it. -/
theorem ends_onSink (call : Sink → Host → Call (Sink × Host) α) (hsink : site.sink = .staging g)
    (hdelay : (call (.staging g) site.host).delay = 0)
    (hends : (site.onSink (call site.sink site.host)).Ends t answer) :
    ∃ p, (call (.staging g) site.host).complete = (p, answer) ∧ t = JobSite.setSink p site := by
  obtain ⟨p, hcall, rfl⟩ := JobSite.ends_onSink hends
  rw [hsink] at hcall
  cases hcall with
  | done hcomplete => exact ⟨p, hcomplete, rfl⟩
  | givenUp hlate => exact absurd hlate (by rw [hdelay]; exact Nat.lt_irrefl 0)

/-- Records that are published in a table stand behind the rows that the save mode keeps. -/
theorem publish_load (name : String) (mode : SaveMode) (t : Tables) (records : List Record) :
    (Loader.table name mode).publish t records = (t.load name mode records, .ok records.length) := by
  cases mode <;> rfl

/-- A commit into a table takes no time. -/
theorem delay_commitCall {name : String} {mode : SaveMode} (hloader : g.loader = .table name mode)
    (time : Nat) : ((Sink.staging g).commitCall time host).delay = 0 := by
  change (g.commit host.shelves host.tables).delay = 0
  unfold commit
  split
  · rfl
  · change g.loader.delay = 0
    rw [hloader]
    rfl

/-- A change of neither the sink nor anything that it uses. -/
theorem milestones_kept {s t : JobSite} (h : t.sink = s.sink ∧
      t.host.withoutRehearsals = s.host.withoutRehearsals) :
    (start.milestones target).Kept s t := by
  obtain ⟨hsink, hhost⟩ := h
  have htables : t.host.tables = s.host.tables := (congrArg Host.tables hhost :)
  have hshelves : t.host.shelves = s.host.shelves := (congrArg Host.shelves hhost :)
  refine ⟨?_, fun _ _ => ?_, fun _ _ _ => ?_⟩
  · rintro ⟨hs, hbefore⟩
    exact ⟨hsink.trans hs, htables.trans hbefore⟩
  · rintro ⟨g, projected, hs, hbefore, hstaged, hrows⟩
    exact ⟨g, projected, hsink.trans hs, htables.trans hbefore, hstaged.kept hshelves, hrows⟩
  · rintro ⟨g, projected, hs, hprojected, hloaded⟩
    exact ⟨g, projected, hsink.trans hs, hprojected, htables ▸ hloaded⟩

/-- A write that is acknowledged stages the batch, and acknowledges its rows and bytes. -/
theorem Staged.writes_onSink (h : Staged start batches projected g site.host) {time : Nat}
    (hsink : site.sink = .staging g) (hrows : batch.isEmpty = false) {ack : Acknowledgement}
    (hcall : (site.onSink (site.sink.writeCall time batch site.host)).Ends t (.ok ack)) :
    ∃ g' b, t.sink = .staging g' ∧ t.host.tables = site.host.tables ∧
      Staged start (batches ++ [batch]) (projected ++ [b]) g' t.host ∧
      batch.project start.projection = .ok b ∧ ack = ⟨b.size, b.toJsonLines.utf8ByteSize⟩ := by
  obtain ⟨p, hcomplete, rfl⟩ := ends_onSink (fun x host => x.writeCall time batch host) hsink rfl
    hcall
  rw [complete_writeCall] at hcomplete
  cases hwrite : g.write site.host.shelves batch with
  | mk sides answer =>
      rw [hwrite] at hcomplete
      cases hcomplete
      obtain ⟨b, hstaged, hproject, hack⟩ := h.write hrows hwrite
      exact ⟨_, b, rfl, rfl, hstaged, hproject, hack⟩

/-- A commit into a table that answers with a receipt counts all rows that have been staged. -/
theorem Staged.rows_commit (h : Staged start batches projected g site.host) {name : String}
    {mode : SaveMode} (hloader : start.loader = .table name mode) {time : Nat}
    (hsink : site.sink = .staging g) {receipt : CommitReceipt}
    (hcall : (site.onSink (site.sink.commitCall time site.host)).Ends t (.ok receipt)) :
    receipt.rows = Batch.totalSize projected := by
  have hloader' := h.loader_eq.trans hloader
  obtain ⟨p, hcomplete, rfl⟩ := ends_onSink (fun x host => x.commitCall time host) hsink
    (delay_commitCall hloader' time) hcall
  rw [complete_commitCall] at hcomplete
  split at hcomplete
  · cases hcomplete
  · rename_i records hrecords
    rw [hloader', publish_load] at hcomplete
    cases hcomplete
    exact (length_of_mapM_eq_some (h.reread_eq hrecords)).trans
      (Batch.totalSize_eq_length projected).symm

/-- A commit into a table loads it with the records of all batches, and it does not fail, if they
are read back from their texts. -/
theorem Staged.commit (h : Staged start batches projected g site.host)
    (hloader : start.loader = .table target.name target.mode)
    (hprojection : start.projection = target.projection) (hleaves : target.leavesOut = false)
    (hbefore : site.host.tables = target.before) {time : Nat} (hsink : site.sink = .staging g)
    {answer : ConnectorResult CommitReceipt}
    (hcall : (site.onSink (site.sink.commitCall time site.host)).Ends t answer) :
    t.sink = .staging g ∧ ((∀ b ∈ projected, ∀ r ∈ b.toRecords, r.ReadsBack) →
      ∃ receipt written, answer = .ok receipt ∧
        target.Loaded batches written (Batch.totalSize projected) receipt t.host.tables) := by
  have hloader' := h.loader_eq.trans hloader
  obtain ⟨p, hcomplete, rfl⟩ := ends_onSink (fun x host => x.commitCall time host) hsink
    (delay_commitCall hloader' time) hcall
  rw [complete_commitCall] at hcomplete
  constructor
  · split at hcomplete <;> cases hcomplete <;> rfl
  · intro hback
    rw [h.stagedRecords_eq hback, hloader'] at hcomplete
    dsimp only at hcomplete
    rw [publish_load, hbefore] at hcomplete
    cases hcomplete
    refine ⟨_, projected.flatMap Batch.toRecords, rfl, fun _ => ⟨projected, ?_, rfl⟩, ?_, rfl,
      Batch.totalSize_eq_length _, rfl⟩
    · rw [← hprojection]
      exact h.projects
    · rw [hleaves]
      nofun

/-- A job that stages its batches for a table passes its milestones. -/
theorem reaches (kind : Role → String) (hfresh : start.fresh = start)
    (hloader : start.loader = .table target.name target.mode)
    (hprojection : start.projection = target.projection) (hleaves : target.leavesOut = false) :
    (JobSite.wiring kind).Reaches (start.milestones target) where
  opens_source hcall :=
    milestones_kept (JobSite.host_eq_of_onSource (Source.openCall_leaves ..) hcall)
  reads hcall := milestones_kept (JobSite.host_eq_of_onSource (Source.readCall_leaves ..) hcall)
  closes_source hcall :=
    milestones_kept (JobSite.host_eq_of_onSource (Source.closeCall_leaves ..) hcall)
  refuses := by
    rintro time s t e ⟨hsink, hbefore⟩ hcall
    obtain ⟨p, hcomplete, rfl⟩ := ends_onSink (fun x host => x.openCall time host) hsink rfl
      hcall
    rw [complete_openCall] at hcomplete
    have hfailed := congrArg Prod.snd hcomplete
    cases congrArg Prod.fst hcomplete
    refine ⟨⟨?_, hbefore⟩, trivial⟩
    rw [openStore_error hfailed]
    rfl
  opens := by
    rintro time s t ⟨hsink, hbefore⟩ hcall
    obtain ⟨p, hcomplete, rfl⟩ := ends_onSink (fun x host => x.openCall time host) hsink rfl
      hcall
    rw [complete_openCall] at hcomplete
    cases hopened : start.openStore s.host.shelves with
    | mk sides answer =>
        rw [hopened] at hcomplete
        cases hcomplete
        exact ⟨_, [], rfl, hbefore, .of_openStore hfresh hopened, rfl⟩
  rejects := by
    rintro time batch batches rows s t e ⟨g, projected, hsink, hbefore, hstaged, hrows⟩ hcall
    obtain ⟨p, hcomplete, rfl⟩ := ends_onSink (fun x host => x.writeCall time batch host)
      hsink rfl hcall
    rw [complete_writeCall] at hcomplete
    cases hwrite : g.write s.host.shelves batch with
    | mk sides answer =>
        rw [hwrite] at hcomplete
        cases hcomplete
        obtain ⟨hsink', hshelves, hcause⟩ := write_error hstaged.opened hwrite
        rw [hstaged.projection_eq] at hcause
        refine ⟨⟨g, projected, ?_, hbefore, hstaged.kept hshelves, hrows⟩, hcause⟩
        rw [← hsink']
        rfl
  writes := by
    rintro time batch batches rows s t ack ⟨g, projected, hsink, hbefore, hstaged, hrows⟩ hsome
      hcall
    obtain ⟨g', b, hsink', htables, hstaged', -, rfl⟩ := hstaged.writes_onSink hsink hsome hcall
    exact ⟨g', projected ++ [b], hsink', htables.trans hbefore, hstaged', by simp [hrows]⟩
  fails := by
    rintro time batches rows s t e ⟨g, projected, hsink, hbefore, hstaged, hrows⟩ hcall
    obtain ⟨-, hloads⟩ := hstaged.commit hloader hprojection hleaves hbefore hsink hcall
    refine ⟨projected, hstaged.projects, fun hback => ?_⟩
    obtain ⟨_, _, ⟨⟩, -⟩ := hloads hback
  commits := by
    rintro time batches rows s t receipt ⟨g, projected, hsink, hbefore, hstaged, rfl⟩ hcall
    obtain ⟨hsink', hloads⟩ := hstaged.commit hloader hprojection hleaves hbefore hsink hcall
    refine ⟨g, projected, hsink', hstaged.projects, fun hback => ?_⟩
    obtain ⟨_, written, ⟨⟩, hloaded⟩ := hloads hback
    exact ⟨written, hloaded⟩
  closes := by
    rintro time batches rows receipt s t answer ⟨g, projected, hsink, hprojected, hloaded⟩ hcall
    obtain ⟨p, hcomplete, rfl⟩ := ends_onSink (fun x host => x.closeCall time host) hsink rfl
      hcall
    rw [complete_closeCall] at hcomplete
    cases hcomplete
    exact ⟨_, projected, rfl, hprojected, hloaded⟩

end Jobs

end BatchTransfer.Staging.StagingSink
