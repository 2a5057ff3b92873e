import BatchTransfer.Connector.Sink
import BatchTransfer.Proofs.Staging.Objects

/-!
# Staged rows become visible at once

A staging sink may be called in any order, and others may change what is stored between its calls.
Whatever happens, only a commit that answers with a receipt changes a table: it publishes the
records of all acknowledged parts in the order of writing, or none. `Account` is the invariant
behind this: the parts are those of the acknowledged batches, each under the path of its number.
-/

namespace BatchTransfer.Staging

/-- A store with other objects in memory, where these are its own. -/
def Store.withObjects (store : Store) (objects : Objects) : Store :=
  match store with
  | own _ => own objects
  | _ => store

/-- A call of a staging sink with its answer, or a change from outside. One that leaves the staged
objects as they are happens `elsewhere`. -/
inductive StagingEvent where
  | opened (answer : ConnectorResult Unit)
  | written (batch : Batch) (answer : ConnectorResult Acknowledgement)
  | committed (answer : ConnectorResult CommitReceipt)
  | closed (answer : ConnectorResult Unit)
  | elsewhere
  | tampered

namespace StagingEvent

/-- Whether an event is a call of the sink. -/
def isCall : StagingEvent → Bool
  | elsewhere | tampered => false
  | _ => true

/-- The batch with rows that the sink acknowledges. -/
def staged? : StagingEvent → Option Batch
  | written batch (.ok _) => if batch.isEmpty then none else some batch
  | _ => none

/-- The batches with rows that the sink has acknowledged, in order. -/
def staged (events : List StagingEvent) : List Batch := events.filterMap staged?

end StagingEvent

open StagingEvent (staged)

namespace StagingSink

/-- The content of an object in the store of a sink. -/
def content? (g : StagingSink) (shelves : Shelves) (path : ObjectPath) : Option Content :=
  g.store.bind (·.get? shelves path)

/-- A sink and its host before and after a call that is not given up, or a change from outside. A
change replaces the objects that only the sink holds, and anything in its host. -/
inductive Step : StagingSink × Host → StagingEvent → StagingSink × Host → Prop
  | opened {g g' : StagingSink} {host host' : Host} {answer : ConnectorResult Unit} {time : Nat}
      (hcall : ((Sink.staging g).openCall time host).complete = ((.staging g', host'), answer)) :
      Step (g, host) (.opened answer) (g', host')
  | written {g g' : StagingSink} {host host' : Host} {batch : Batch}
      {answer : ConnectorResult Acknowledgement} {time : Nat}
      (hcall : ((Sink.staging g).writeCall time batch host).complete =
        ((.staging g', host'), answer)) :
      Step (g, host) (.written batch answer) (g', host')
  | committed {g g' : StagingSink} {host host' : Host} {answer : ConnectorResult CommitReceipt}
      {time : Nat}
      (hcall : ((Sink.staging g).commitCall time host).complete = ((.staging g', host'), answer)) :
      Step (g, host) (.committed answer) (g', host')
  | closed {g g' : StagingSink} {host host' : Host} {answer : ConnectorResult Unit} {time : Nat}
      (hcall : ((Sink.staging g).closeCall time host).complete = ((.staging g', host'), answer)) :
      Step (g, host) (.closed answer) (g', host')
  | elsewhere {g g' : StagingSink} {host host' : Host} {objects : Objects}
      (hchange : g' = { g with store := g.store.map (·.withObjects objects) })
      (hspared : ∀ p ∈ g.parts,
        g'.content? host'.shelves p.path = g.content? host.shelves p.path) :
      Step (g, host) .elsewhere (g', host')
  | tampered {g g' : StagingSink} {host host' : Host} {objects : Objects}
      (hchange : g' = { g with store := g.store.map (·.withObjects objects) }) :
      Step (g, host) .tampered (g', host')

/-- Calls and changes in any order, with their events. -/
inductive Trace (start : StagingSink × Host) : List StagingEvent → StagingSink × Host → Prop
  | refl : Trace start [] start
  | step {events : List StagingEvent} {event : StagingEvent} {s s' : StagingSink × Host}
      (hrun : Trace start events s) (hstep : Step s event s') : Trace start (events ++ [event]) s'

/-! ### What each call does -/

section Calls

variable (g : StagingSink) (time : Nat) (batch : Batch) (host : Host)

theorem complete_openCall :
    ((Sink.staging g).openCall time host).complete =
      ((.staging (g.openStore host.shelves).1.1,
        { host with shelves := (g.openStore host.shelves).1.2 }),
        (g.openStore host.shelves).2) := rfl

theorem complete_writeCall :
    ((Sink.staging g).writeCall time batch host).complete =
      ((.staging (g.write host.shelves batch).1.1,
        { host with shelves := (g.write host.shelves batch).1.2 }),
        (g.write host.shelves batch).2) := rfl

theorem complete_closeCall :
    ((Sink.staging g).closeCall time host).complete =
      ((.staging (g.close host.shelves).1, { host with shelves := (g.close host.shelves).2 }),
        .ok ()) := rfl

/-- A commit publishes all staged records, if every one of them can be read, and does nothing
otherwise. -/
theorem complete_commitCall :
    ((Sink.staging g).commitCall time host).complete =
      match g.stagedRecords host.shelves with
      | .error e => ((.staging g, host), .error e)
      | .ok records =>
          ((.staging g, { host with tables := (g.loader.publish host.tables records).1 }),
            (g.loader.publish host.tables records).2.map
              fun rows => ⟨rows, g.loader.location?⟩) := by
  have hcomplete : ((Sink.staging g).commitCall time host).complete =
      ((.staging g, { host with tables := (g.commit host.shelves host.tables).complete.1 }),
        (g.commit host.shelves host.tables).complete.2) := by
    unfold Sink.commitCall
    rfl
  rw [hcomplete, commit]
  cases g.stagedRecords host.shelves <;> rfl

end Calls

/-- The sink as it was before all calls. -/
def fresh (g : StagingSink) : StagingSink := { g with store := none, parts := [], schema := none }

variable {g : StagingSink} {shelves : Shelves}

/-- Opening changes nothing but the store of the sink, which is there afterwards if it was there
before, and then nothing at all. -/
theorem openStore_cases (g : StagingSink) (shelves : Shelves) :
    (g.openStore shelves).1 = (g, shelves) ∨
      g.store = none ∧ (g.openStore shelves).1.1.fresh = g.fresh ∧
        (g.openStore shelves).1.1.parts = g.parts := by
  unfold openStore
  split
  · exact .inl rfl
  · rename_i hnone
    split <;> exact .inr ⟨hnone, rfl, rfl⟩

/-- A write puts the lines of the projected batch under the path of the next part, or nothing. -/
theorem write_cases (g : StagingSink) (shelves : Shelves) (batch : Batch) :
    ((g.write shelves batch).1 = (g, shelves) ∧
      (batch.isEmpty = true ∨ ∃ e, (g.write shelves batch).2 = .error e)) ∨
    ∃ projected store store' shelves' part schema ack,
      batch.isEmpty = false ∧ batch.project g.projection = .ok projected ∧ g.store = some store ∧
      store.put? shelves (partPath g.folder g.parts.length) (.text projected.toJsonLines) =
        some (store', shelves') ∧
      part.path = partPath g.folder g.parts.length ∧
      g.write shelves batch =
        (({ g with store := some store', parts := g.parts ++ [part], schema }, shelves'),
          .ok ack) := by
  unfold write
  split
  · exact .inl ⟨rfl, .inl ‹_›⟩
  · rename_i hrows
    split
    · exact .inl ⟨rfl, .inr ⟨_, rfl⟩⟩
    · rename_i projected hproject
      split
      · exact .inl ⟨rfl, .inr ⟨_, rfl⟩⟩
      · rename_i store hstore
        dsimp only
        split
        · exact .inl ⟨rfl, .inr ⟨_, rfl⟩⟩
        · rename_i store' shelves' hput
          exact .inr ⟨projected, store, store', shelves', _, _, _, eq_false_of_ne_true hrows,
            hproject, hstore, hput, rfl, rfl⟩

/-- Closing removes objects and changes none. -/
theorem close_spec (g : StagingSink) (shelves : Shelves) :
    (g.close shelves).1.fresh = g.fresh ∧ (g.close shelves).1.parts = g.parts ∧
      ((g.close shelves).1.store = none → g.store = none) ∧
      ∀ path, (g.close shelves).1.content? (g.close shelves).2 path = g.content? shelves path ∨
        (g.close shelves).1.content? (g.close shelves).2 path = none := by
  unfold close
  split
  · exact ⟨rfl, rfl, id, fun _ => .inl rfl⟩
  · rename_i store hstore
    split
    · exact ⟨rfl, rfl, id, fun _ => .inl rfl⟩
    · cases hremove : store.removeBelow shelves (.ofText g.folder) with
      | mk store' shelves' =>
          refine ⟨rfl, rfl, nofun, fun path => ?_⟩
          rw [content?, content?, hstore]
          exact Store.get?_removeBelow hremove path

/-! ### The parts of the acknowledged batches -/

/-- The parts are those of the acknowledged batches. As long as nobody has tampered with them, each
holds its batch or is missing. -/
structure Account (job : StagingSink) (projected : List Batch) (events : List StagingEvent)
    (s : StagingSink × Host) : Prop where
  fresh_eq : s.1.fresh = job
  projects : (staged events).map (·.project job.projection) = projected.map .ok
  parts : s.1.parts.map Part.path = (List.range projected.length).map (partPath job.folder)
  unopened : s.1.store = none → projected = []
  kept : .tampered ∉ events → ∀ (i : Nat) (batch : Batch), projected[i]? = some batch →
    s.1.content? s.2.shelves (partPath job.folder i) = none ∨
      s.1.content? s.2.shelves (partPath job.folder i) = some (.text batch.toJsonLines)

namespace Account

variable {job : StagingSink} {projected : List Batch} {events : List StagingEvent}
  {event : StagingEvent} {s s' : StagingSink × Host}

theorem folder_eq (h : Account job projected events s) : s.1.folder = job.folder :=
  (congrArg StagingSink.folder h.fresh_eq :)

theorem projection_eq (h : Account job projected events s) :
    s.1.projection = job.projection :=
  (congrArg StagingSink.projection h.fresh_eq :)

theorem loader_eq (h : Account job projected events s) : s.1.loader = job.loader :=
  (congrArg StagingSink.loader h.fresh_eq :)

theorem length_parts (h : Account job projected events s) :
    s.1.parts.length = projected.length := by
  simpa using congrArg List.length h.parts

theorem length_staged (h : Account job projected events s) :
    (staged events).length = projected.length := by
  simpa using congrArg List.length h.projects

/-- A part is staged under the path of every number below that of the acknowledged batches. -/
theorem exists_part (h : Account job projected events s) {i : Nat} {batch : Batch}
    (hi : projected[i]? = some batch) : ∃ p ∈ s.1.parts, p.path = partPath job.folder i := by
  obtain ⟨hlt, -⟩ := List.getElem?_eq_some_iff.mp hi
  have hmem : partPath job.folder i ∈ s.1.parts.map Part.path := by
    rw [h.parts]
    exact List.mem_map_of_mem (List.mem_range.mpr hlt)
  exact List.mem_map.mp hmem

/-- An event that stages nothing keeps the account, if it leaves every part as it is or removes
it. -/
theorem quiet (h : Account job projected events s) (hstaged : event.staged? = none)
    (hfresh : s'.1.fresh = s.1.fresh) (hparts : s'.1.parts = s.1.parts)
    (hstore : s'.1.store = none → s.1.store = none)
    (hcontent : event ≠ .tampered → ∀ (i : Nat) (batch : Batch), projected[i]? = some batch →
      s'.1.content? s'.2.shelves (partPath job.folder i) =
          s.1.content? s.2.shelves (partPath job.folder i) ∨
        s'.1.content? s'.2.shelves (partPath job.folder i) = none) :
    Account job projected (events ++ [event]) s' where
  fresh_eq := hfresh.trans h.fresh_eq
  projects := by
    rw [← h.projects]
    simp [staged, hstaged]
  parts := by rw [hparts, h.parts]
  unopened := fun hnone => h.unopened (hstore hnone)
  kept := fun huntampered i batch hi => by
    rw [List.mem_append, not_or, List.mem_singleton] at huntampered
    rcases hcontent (Ne.symm huntampered.2) i batch hi with hsame | hgone
    · rw [hsame]
      exact h.kept huntampered.1 i batch hi
    · exact .inl hgone

/-- A call that leaves the sink and the objects as they are keeps the account. -/
theorem unchanged (h : Account job projected events s) (hstaged : event.staged? = none)
    (hsink : s'.1 = s.1) (hshelves : s'.2.shelves = s.2.shelves) :
    Account job projected (events ++ [event]) s' := by
  refine h.quiet hstaged (by rw [hsink]) (by rw [hsink]) (fun hnone => hsink ▸ hnone) ?_
  intro _ i batch _
  rw [hsink, hshelves]
  exact .inl rfl

/-- A batch that is staged joins the account; the part that holds it is none of those before. -/
theorem write {g : StagingSink} {host : Host} {batch b : Batch} {store store' : Store}
    {shelves' : Shelves} {part : Part} {schema : Option Schema} {ack : Acknowledgement}
    (h : Account job projected events (g, host)) (hrows : batch.isEmpty = false)
    (hproject : batch.project g.projection = .ok b) (hstore : g.store = some store)
    (hput : store.put? host.shelves (partPath g.folder g.parts.length) (.text b.toJsonLines) =
      some (store', shelves'))
    (hpath : part.path = partPath g.folder g.parts.length) :
    Account job (projected ++ [b]) (events ++ [.written batch (.ok ack)])
      ({ g with store := some store', parts := g.parts ++ [part], schema },
        { host with shelves := shelves' }) := by
  have hfolder : g.folder = job.folder := h.folder_eq
  have hprojection : g.projection = job.projection := h.projection_eq
  have hlength : g.parts.length = projected.length := h.length_parts
  have hnumber : staged (events ++ [.written batch (.ok ack)]) = staged events ++ [batch] := by
    simp [StagingEvent.staged, StagingEvent.staged?, hrows]
  rw [hprojection] at hproject
  rw [hfolder, hlength] at hput hpath
  refine ⟨h.fresh_eq, ?_, ?_, nofun, fun huntampered i b' hi => ?_⟩
  · rw [hnumber, List.map_append, List.map_append, h.projects, List.map_singleton, hproject]
    rfl
  · rw [List.length_append, List.length_singleton, List.range_succ, List.map_append,
      List.map_append, List.map_singleton, List.map_singleton, hpath, h.parts]
  · have hkept := h.kept (fun htampered => huntampered (List.mem_append_left _ htampered)) i
    rw [content?, hstore] at hkept
    change store'.get? shelves' _ = none ∨ store'.get? shelves' _ = _
    rw [Store.get?_put? hput]
    by_cases hlast : i = projected.length
    · subst hlast
      rw [List.getElem?_concat_length] at hi
      cases hi
      exact .inr (if_pos rfl)
    · -- The parts before have other numbers, hence other addresses.
      rw [if_neg fun haddress => hlast (address_partPath_inj haddress)]
      refine hkept b' ?_
      rw [List.getElem?_append] at hi
      split at hi
      · exact hi
      · rw [List.getElem?_eq_none] at hi
        · cases hi
        · rw [List.length_singleton]
          omega

/-- Every call and every change from outside keeps the account, to which a call adds one batch at
most. -/
theorem step (h : Account job projected events s) (hstep : Step s event s') :
    ∃ more, Account job (projected ++ more) (events ++ [event]) s' := by
  cases hstep with
  | @opened g g' host host' answer time hcall =>
      cases (complete_openCall ..).symm.trans hcall
      refine ⟨[], ?_⟩
      rw [List.append_nil]
      rcases openStore_cases g host.shelves with hsame | ⟨hnone, hfresh, hparts⟩
      · exact h.unchanged rfl (congrArg Prod.fst hsame :) (congrArg Prod.snd hsame :)
      · -- Without a store nothing has been staged, so objects that the store holds do no harm.
        refine h.quiet rfl hfresh hparts (fun _ => hnone) fun _ i batch hi => ?_
        rw [h.unopened hnone] at hi
        cases hi
  | @written g g' host host' batch answer time hcall =>
      cases (complete_writeCall ..).symm.trans hcall
      rcases write_cases g host.shelves batch with ⟨hsame, hnothing⟩ | hput
      · refine ⟨[], ?_⟩
        rw [List.append_nil]
        refine h.unchanged ?_ (congrArg Prod.fst hsame :) (congrArg Prod.snd hsame :)
        rcases hnothing with hempty | ⟨e, he⟩
        · cases hanswer : (g.write host.shelves batch).2 <;> simp [StagingEvent.staged?, hempty]
        · rw [he]
          rfl
      · obtain ⟨b, store, store', shelves', part, schema, ack, hrows, hproject, hstore, hput, hpath,
          hwrite⟩ := hput
        rw [hwrite]
        exact ⟨[b], h.write hrows hproject hstore hput hpath⟩
  | committed hcall =>
      refine ⟨[], ?_⟩
      rw [List.append_nil]
      rw [complete_commitCall] at hcall
      split at hcall <;> cases hcall <;> exact h.unchanged rfl rfl rfl
  | @closed g g' host host' answer time hcall =>
      cases (complete_closeCall ..).symm.trans hcall
      refine ⟨[], ?_⟩
      rw [List.append_nil]
      obtain ⟨hfresh, hparts, hstore, hcontent⟩ := close_spec g host.shelves
      exact h.quiet rfl hfresh hparts hstore fun _ i _ _ => hcontent _
  | elsewhere hchange hspared =>
      refine ⟨[], ?_⟩
      rw [List.append_nil]
      subst hchange
      refine h.quiet rfl rfl rfl Option.map_eq_none_iff.mp fun _ i batch hi => ?_
      obtain ⟨p, hp, hpath⟩ := h.exists_part hi
      rw [← hpath]
      exact .inl (hspared p hp)
  | tampered hchange =>
      refine ⟨[], ?_⟩
      rw [List.append_nil]
      subst hchange
      exact h.quiet rfl rfl rfl Option.map_eq_none_iff.mp fun hne => absurd rfl hne

/-- A sink that has not been called yet has no parts. -/
theorem start (job : StagingSink) (store : Option Store) (host : Host) (hfresh : job.fresh = job) :
    Account job [] [] ({ job with store }, host) where
  fresh_eq := hfresh
  projects := rfl
  parts := by rw [← hfresh]; rfl
  unopened := fun _ => rfl
  kept := fun _ i batch hi => by cases hi

/-- The account holds after any calls and changes. -/
theorem of_trace {start : StagingSink × Host} (hstart : Account job [] [] start)
    (hrun : Trace start events s) : ∃ projected, Account job projected events s := by
  induction hrun with
  | refl => exact ⟨[], hstart⟩
  | step hrun hstep ih =>
      obtain ⟨projected, h⟩ := ih
      obtain ⟨more, hmore⟩ := h.step hstep
      exact ⟨projected ++ more, hmore⟩

/-- Records that are read from all parts are read from the texts of the acknowledged batches, if
nobody has tampered with the parts. -/
theorem texts_eq {store : Store} {found : List (List Record)} (h : Account job projected events s)
    (hstore : s.1.store = some store) (huntampered : .tampered ∉ events)
    (hfound : (List.range projected.length).map
      (fun i => recordsAt? store s.2.shelves (partPath job.folder i)) = found.map some) :
    projected.map (fun b => Manifest.recordsOfText? b.toJsonLines) = found.map some := by
  have hlength : found.length = projected.length := by
    simpa using (congrArg List.length hfound).symm
  refine List.ext_getElem (by simp [hlength]) fun i hi hi' => ?_
  have hlt : i < projected.length := by simpa using hi
  have hread : recordsAt? store s.2.shelves (partPath job.folder i) = some found[i] := by
    simpa [hlength, hlt] using congrArg (·[i]?) hfound
  have hkept := h.kept huntampered i projected[i] (List.getElem?_eq_getElem hlt)
  rw [content?, hstore, Option.bind_some] at hkept
  rw [recordsAt?] at hread
  rcases hkept with hmissing | htext
  · rw [hmissing] at hread
    cases hread
  · rw [htext, Option.bind_some, Content.text?, Option.bind_some] at hread
    rw [List.getElem_map, List.getElem_map, hread]

/-- Records that are read from all parts are those that the acknowledged batches are read back as,
if nobody has tampered with the parts. -/
theorem reread_eq {store : Store} {found : List (List Record)} (h : Account job projected events s)
    (hstore : s.1.store = some store) (huntampered : .tampered ∉ events)
    (hfound : (List.range projected.length).map
      (fun i => recordsAt? store s.2.shelves (partPath job.folder i)) = found.map some) :
    (projected.flatMap Batch.toRecords).mapM Record.reread? = some found.flatten := by
  rw [List.flatMap_def]
  refine mapM_flatten_eq_some ?_
  rw [← h.texts_eq hstore huntampered hfound, List.map_map]
  exact List.map_congr_left fun b _ => (recordsOfText?_eq_mapM b).symm

/-- Records that are read from all parts are those of the acknowledged batches, if nobody has
tampered with the parts. -/
theorem found_eq {store : Store} {found : List (List Record)} (h : Account job projected events s)
    (hstore : s.1.store = some store) (huntampered : .tampered ∉ events)
    (hback : ∀ batch ∈ projected, ∀ r ∈ batch.toRecords, r.ReadsBack)
    (hfound : (List.range projected.length).map
      (fun i => recordsAt? store s.2.shelves (partPath job.folder i)) = found.map some) :
    found = projected.map Batch.toRecords := by
  have htexts := h.texts_eq hstore huntampered hfound
  have hrecords : projected.map (fun b => Manifest.recordsOfText? b.toJsonLines) =
      (projected.map Batch.toRecords).map some := by
    rw [List.map_map]
    exact List.map_congr_left fun b hb => recordsOfText?_toJsonLines (hback b hb)
  exact ((List.map_inj_right fun _ _ => Option.some.inj).mp (hrecords.symm.trans htexts)).symm

end Account

/-! ### What a commit publishes -/

/-- Records that are published in a table are added to its rows or take their place. -/
theorem publish_table (target : String) (mode : SaveMode) (t : Tables) (records : List Record) :
    ((Loader.table target mode).publish t records).1 =
      t.insert target
        (if mode = .overwrite then records else (t.get? target).getD [] ++ records) := by
  cases mode <;> rfl

/-- The records that a commit reads are those of all parts in order, and each part can be read. -/
theorem stagedRecords_eq_ok {records : List Record} :
    g.stagedRecords shelves = .ok records ↔
      ∃ (store : Store) (found : List (List Record)), g.store = some store ∧
        (g.parts.map Part.path).map (recordsAt? store shelves) = found.map some ∧
        records = found.flatten := by
  unfold stagedRecords
  cases hstore : g.store with
  | none => simp
  | some store =>
      have hparts : g.manifest.records store shelves =
        Manifest.recordsOfParts store shelves g.parts := rfl
      simp [hparts, recordsOfParts_eq_ok]

/-- A call that is no successful commit leaves all tables as they are. -/
theorem Step.tables_eq {event : StagingEvent} {s s' : StagingSink × Host} (h : Step s event s')
    (hcall : event.isCall = true) (hevent : ∀ receipt, event ≠ .committed (.ok receipt))
    (hloader : ∃ target mode, s.1.loader = .table target mode) : s'.2.tables = s.2.tables := by
  cases h with
  | opened hopened =>
      cases (complete_openCall ..).symm.trans hopened
      rfl
  | written hwritten =>
      cases (complete_writeCall ..).symm.trans hwritten
      rfl
  | committed hcommitted =>
      rw [complete_commitCall] at hcommitted
      split at hcommitted
      · cases hcommitted
        rfl
      · obtain ⟨target, mode, hloader⟩ := hloader
        have hpublished (t : Tables) (records : List Record) :
            ((Loader.table target mode).publish t records).2 = .ok records.length := by
          cases mode <;> rfl
        cases hcommitted
        rw [hloader, hpublished] at hevent
        exact absurd rfl (hevent _)
  | closed hclosed =>
      cases (complete_closeCall ..).symm.trans hclosed
      rfl
  | elsewhere => cases hcall
  | tampered => cases hcall

/-- A commit that answers with a receipt has read every part, and publishes what it has read. -/
theorem Step.committed_ok {receipt : CommitReceipt} {s s' : StagingSink × Host} {target : String}
    {mode : SaveMode} (h : Step s (.committed (.ok receipt)) s')
    (hloader : s.1.loader = .table target mode) :
    ∃ (store : Store) (found : List (List Record)), s.1.store = some store ∧
      (s.1.parts.map Part.path).map (recordsAt? store s.2.shelves) = found.map some ∧
      s'.2.tables = s.2.tables.insert target
        (if mode = .overwrite then found.flatten
          else (s.2.tables.get? target).getD [] ++ found.flatten) := by
  cases h with
  | committed hcommitted =>
      rw [complete_commitCall] at hcommitted
      split at hcommitted
      · cases hcommitted
      · rename_i records hrecords
        obtain ⟨store, found, hstore, hfound, rfl⟩ := stagedRecords_eq_ok.mp hrecords
        rw [hloader, publish_table] at hcommitted
        cases congrArg Prod.fst hcommitted
        exact ⟨store, found, hstore, hfound, rfl⟩

/-- After any calls and changes from outside, a call changes no table unless it is a commit that
answers with a receipt. Such a commit has found all parts under the paths of their numbers, and
changes its target alone: it adds the records of all parts, in order, to the rows, or replaces the
rows by them. If nobody has tampered with the parts, and the records of the batches that are staged
are read back from their texts, then those are the records of each acknowledged batch, projected,
once. -/
theorem Trace.visible_at_commit {target : String} {mode : SaveMode} {location : Location}
    {projection : Projection} {keeps : Bool} {run : RunId} {store : Option Store} {host : Host}
    {events : List StagingEvent} {event : StagingEvent} {s s' : StagingSink × Host}
    (hrun : Trace
      ({ StagingSink.new (.table target mode) location projection keeps run with store }, host)
      events s)
    (hstep : Step s event s') :
    (event.isCall = true → (∀ receipt, event ≠ .committed (.ok receipt)) →
      s'.2.tables = s.2.tables) ∧
    ∀ receipt, event = .committed (.ok receipt) →
      ∃ (objects : Store) (found : List (List Record)) (projected : List Batch),
        s.1.store = some objects ∧
        (List.range (staged events).length).map (fun i =>
          recordsAt? objects s.2.shelves (partPath (jobFolder location run) i)) =
            found.map some ∧
        s'.2.tables.get? target = some
          (if mode = .overwrite then found.flatten
            else (s.2.tables.get? target).getD [] ++ found.flatten) ∧
        (∀ other, other ≠ target → s'.2.tables.get? other = s.2.tables.get? other) ∧
        (staged events).map (·.project projection) = projected.map .ok ∧
        (.tampered ∉ events → (∀ batch ∈ projected, ∀ r ∈ batch.toRecords, r.ReadsBack) →
          found = projected.map Batch.toRecords) := by
  have hstart := Account.start (.new (.table target mode) location projection keeps run) store host
    rfl
  obtain ⟨projected, haccount⟩ := Account.of_trace hstart hrun
  have hloader : s.1.loader = .table target mode := haccount.loader_eq
  refine ⟨fun hcall hevent => hstep.tables_eq hcall hevent ⟨target, mode, hloader⟩, ?_⟩
  rintro receipt rfl
  obtain ⟨objects, found, hstore, hfound, htables⟩ := hstep.committed_ok hloader
  rw [haccount.parts, List.map_map] at hfound
  refine ⟨objects, found, projected, hstore, ?_, ?_, fun other hother => ?_, haccount.projects,
    fun huntampered hback => haccount.found_eq hstore huntampered hback hfound⟩
  · rw [haccount.length_staged]
    exact hfound
  · rw [htables, KeyMap.get?_insert, if_pos rfl]
  · rw [htables, KeyMap.get?_insert, if_neg hother]

/-- The batch with one row, in which the column `a` is 1. -/
def oneFieldBatch : Batch := ⟨⟨[⟨"a", .int64, false⟩]⟩, [[.int 1]]⟩

theorem toRecords_oneFieldBatch : oneFieldBatch.toRecords = [Record.oneField] := rfl

/-- A batch that is staged in memory shows in the table `t` after the commit. -/
theorem Trace.visible_at_commit_oneField :
    ∃ events s s' receipt,
      Trace ({ StagingSink.new (.table "t" .append) (.memory "") .all false ⟨0⟩ with
        store := none }, Host.new []) events s ∧
      Step s (.committed (.ok receipt)) s' ∧ staged events = [oneFieldBatch] ∧
      s'.2.tables.get? "t" = some [Record.oneField] := by
  have hback : ∀ r ∈ oneFieldBatch.toRecords, r.ReadsBack := by
    rw [toRecords_oneFieldBatch, List.forall_mem_singleton]
    exact Record.oneField_readsBack
  obtain ⟨g, ack, store, hrun, hstore, hparts, hread⟩ :
      ∃ (g : StagingSink) (ack : Acknowledgement) (store : Store),
        Trace ({ StagingSink.new (.table "t" .append) (.memory "") .all false ⟨0⟩ with
          store := none }, Host.new []) [.opened (.ok ()), .written oneFieldBatch (.ok ack)]
          (g, Host.new []) ∧
        g.store = some store ∧ g.parts.map Part.path = [partPath (jobFolder (.memory "") ⟨0⟩) 0] ∧
        recordsAt? store (Host.new []).shelves (partPath (jobFolder (.memory "") ⟨0⟩) 0) =
          some [Record.oneField] := by
    refine ⟨_, _, _, (Trace.refl.step (.opened (complete_openCall _ 0 _))).step
      (.written (complete_writeCall _ 0 _ _)),
      rfl, rfl, ?_⟩
    have hput : (Store.own .empty).put? (Host.new []).shelves
      (partPath (jobFolder (.memory "") ⟨0⟩) 0) (.text oneFieldBatch.toJsonLines) = some _ := rfl
    have hget := Store.get?_put? hput (partPath (jobFolder (.memory "") ⟨0⟩) 0)
    rw [if_pos rfl] at hget
    exact (congrArg (Option.bind · _) hget).trans (recordsOfText?_toJsonLines hback)
  have hrecords : g.stagedRecords (Host.new []).shelves = .ok [Record.oneField] :=
    stagedRecords_eq_ok.mpr ⟨store, [[Record.oneField]], hstore, by simp [hparts, hread], rfl⟩
  have hloader : g.loader = .table "t" .append := by
    obtain ⟨projected, haccount⟩ := Account.of_trace (Account.start _ _ _ rfl) hrun
    exact haccount.loader_eq
  have hcommit := complete_commitCall g 0 (Host.new [])
  rw [hrecords, hloader] at hcommit
  obtain ⟨-, hpublished⟩ := hrun.visible_at_commit (.committed hcommit)
  obtain ⟨objects, found, projected, -, -, htable, -, hprojected, hfound⟩ := hpublished _ rfl
  have hone : projected = [oneFieldBatch] := by
    cases projected with
    | nil => cases hprojected
    | cons b rest =>
        cases rest with
        | nil =>
            cases hprojected
            rfl
        | cons => cases hprojected
  subst hone
  cases hfound (by simp) (by simpa using hback)
  exact ⟨_, _, _, _, hrun, .committed hcommit, rfl, htable⟩

end StagingSink

end BatchTransfer.Staging
