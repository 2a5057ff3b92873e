import BatchTransfer.Proofs.Staging.Area

/-!
# Calls that may fail

A call of a staging sink that fails may have done a part of its work, but `Confined` to the folder
of its job and to what is no part yet. `Attempt` is a call that is performed or fails so, or a
change that spares the sink. `Tidy` and `Holds` are what attempts keep: objects outside the folder
stay as they were, and the parts are those of the acknowledged batches, which a commit publishes
(`Holds.loads`) and closing removes (`Holds.emptied`).
-/

namespace BatchTransfer.Staging

/-- The store of a location, as it is found before anything is staged. -/
def Location.area (l : Location) (files : FileTree) : Store :=
  match l with
  | .directory root => .directory (FileTree.walk (files.start root) (FileTree.names root))
  | _ => .own .empty

/-- The area depends on files by the working directory only. -/
theorem Location.area_congr (l : Location) {files files' : FileTree}
    (h : files'.workingDirectory = files.workingDirectory) : l.area files' = l.area files := by
  have hstart (text : String) : files'.start text = files.start text := by
    unfold FileTree.start
    rw [h]
  cases l <;> simp [area, hstart]

theorem Location.isRooted_area (l : Location) {files : FileTree}
    (h : FileTree.IsPath files.workingDirectory) : (l.area files).IsRooted := by
  intro root hroot
  cases l with
  | directory text =>
      cases hroot
      refine FileTree.isPath_walk ?_ fun name => FileTree.isName_of_mem_names
      unfold FileTree.start
      split
      · nofun
      · exact h
  | _ => cases hroot

namespace StagingSink

variable {g : StagingSink} {shelves shelves' : Shelves} {store : Store} {p : ObjectPath}

/-- The area of a sink: the store that it has, or that of its location. -/
def area (g : StagingSink) (shelves : Shelves) : Store :=
  g.store.getD (g.location.area shelves.files)

/-- The content of an object in the area of a sink, which may not have opened it yet. -/
def objectAt? (area : Store) (v : StagingSink × Host) (p : ObjectPath) : Option Content :=
  (v.1.store.getD area).get? v.2.shelves p

/-- Whether the store of a sink, if it has one, is that of an area. -/
def UsesArea (area : Store) (g : StagingSink) : Prop :=
  ∀ store, g.store = some store → store.IsLike area

/-- A store that is opened is that of the location, and opening it changes no object. -/
theorem storeOf_eq {location : Location}
    (h : storeOf location shelves = (shelves', .ok store)) :
    store = location.area shelves.files ∧
      shelves'.files.workingDirectory = shelves.files.workingDirectory ∧
      ∀ store' path, Store.get? store' shelves' path = Store.get? store' shelves path := by
  cases location with
  | memory folder =>
      cases h
      exact ⟨rfl, rfl, fun _ _ => rfl⟩
  | bucket name folder => cases h
  | directory root =>
      rw [storeOf, FileTree.createDirectories] at h
      split at h
      · cases h
      · rename_i files last hcreate
        cases h
        obtain ⟨hlast, hworking⟩ := FileTree.createAlong_eq hcreate
        refine ⟨by rw [hlast]; rfl, hworking, fun store' path => ?_⟩
        cases store' with
        | directory root' => exact FileTree.content?_createAlong hcreate _
        | _ => rfl

theorem storeOf_error {location : Location} {e : ConnectorError}
    (h : storeOf location shelves = (shelves', .error e)) : shelves' = shelves := by
  cases location with
  | memory folder => cases h
  | bucket name folder => cases h; rfl
  | directory root =>
      rw [storeOf] at h
      split at h <;> cases h
      rfl

/-- Closing a sink that keeps its parts, or has no store, does nothing; otherwise the folder of the
job is removed. -/
theorem close_cases (g : StagingSink) (shelves : Shelves) :
    g.close shelves = (g, shelves) ∧ (g.store = none ∨ g.keeps = true) ∨
      ∃ store store' shelves', g.store = some store ∧ g.keeps = false ∧
        store.removeBelow shelves (.ofText g.folder) = (store', shelves') ∧
        g.close shelves = ({ g with store := some store' }, shelves') := by
  unfold close
  split
  · exact .inl ⟨rfl, .inl ‹_›⟩
  · rename_i store hstore
    split
    · exact .inl ⟨rfl, .inr ‹_›⟩
    · rename_i hkeeps
      cases hremove : store.removeBelow shelves (.ofText g.folder) with
      | mk store' shelves' =>
          exact .inr ⟨store, store', shelves', hstore, eq_false_of_ne_true hkeeps, hremove, rfl⟩

theorem objectAt?_of_store {area : Store} {v : StagingSink × Host} (h : v.1.store = some store)
    (p : ObjectPath) : objectAt? area v p = store.get? v.2.shelves p := by
  rw [objectAt?, h, Option.getD_some]

/-- Nothing is in the folder of a job that has not begun. -/
def IsFresh (start : StagingSink × Host) : Prop :=
  ∀ p : ObjectPath, p.IsProper → p.IsWithin (.ofText start.1.folder) →
    objectAt? (start.1.area start.2.shelves) start p = none

/-- What is known of the staging area at any moment of a job: objects outside the folder of the job
are as they were, and so are all as long as the area has not been opened. -/
structure Tidy (start v : StagingSink × Host) : Prop where
  uses : v.1.UsesArea (start.1.area start.2.shelves)
  workingDirectory :
    v.2.shelves.files.workingDirectory = start.2.shelves.files.workingDirectory
  outside : ∀ p, p.IsProper → p.isBelow (.ofText start.1.folder) = false →
    objectAt? (start.1.area start.2.shelves) v p =
      objectAt? (start.1.area start.2.shelves) start p
  unopened : v.1.store = none → start.1.store = none ∧ ∀ p,
    objectAt? (start.1.area start.2.shelves) v p =
      objectAt? (start.1.area start.2.shelves) start p

namespace Tidy

variable {start v v' : StagingSink × Host} {event : StagingEvent}

theorem refl (start : StagingSink × Host) : Tidy start start where
  uses := by
    intro store hstore
    rw [area, hstore]
    exact .refl store
  workingDirectory := rfl
  outside := fun _ _ _ => rfl
  unopened := fun h => ⟨h, fun _ => rfl⟩

/-- A change after which the sink has a store that it had already, or that of its location. -/
theorem stored (h : Tidy start v) (store : Store) (hstore : v'.1.store = some store)
    (hlike : store.IsLike (start.1.area start.2.shelves))
    (hworking : v'.2.shelves.files.workingDirectory = v.2.shelves.files.workingDirectory)
    (hobjects : ∀ p, p.IsProper → p.isBelow (.ofText start.1.folder) = false →
      store.get? v'.2.shelves p = objectAt? (start.1.area start.2.shelves) start p) :
    Tidy start v' where
  uses := fun store' hstore' => by
    cases hstore.symm.trans hstore'
    exact hlike
  workingDirectory := hworking.trans h.workingDirectory
  outside := fun p hp hout => by rw [objectAt?_of_store hstore, hobjects p hp hout]
  unopened := fun hnone => by
    rw [hstore] at hnone
    cases hnone

/-- A change that neither the sink nor its area takes part in. -/
theorem unchanged (h : Tidy start v) (hsink : v'.1.store = v.1.store)
    (hshelves : v'.2.shelves = v.2.shelves) : Tidy start v' := by
  have hobjects (p : ObjectPath) : objectAt? (start.1.area start.2.shelves) v' p =
      objectAt? (start.1.area start.2.shelves) v p := by
    rw [objectAt?, hsink, hshelves, ← objectAt?]
  refine ⟨fun store hstore => h.uses store (hsink ▸ hstore), ?_, fun p hp hout => ?_,
    fun hnone => ?_⟩
  · rw [hshelves, h.workingDirectory]
  · rw [hobjects, h.outside p hp hout]
  · obtain ⟨hstart, hsame⟩ := h.unopened (hsink ▸ hnone)
    exact ⟨hstart, fun p => (hobjects p).trans (hsame p)⟩

/-- An area that is opened is that of the location of the job, in which nothing changes. -/
theorem openStore {g : StagingSink} {host : Host} (h : Tidy start (g, host))
    (hsame : g.fresh = start.1.fresh) :
    Tidy start ((g.openStore host.shelves).1.1,
      { host with shelves := (g.openStore host.shelves).1.2 }) := by
  cases hstore : g.store with
  | some store =>
      have hnothing : (g.openStore host.shelves).1 = (g, host.shelves) := by
        rw [StagingSink.openStore, hstore]
      exact h.unchanged (congrArg (·.1.store) hnothing) (congrArg (·.2) hnothing)
  | none =>
      cases hopen : storeOf g.location host.shelves with
      | mk shelves' answer =>
          cases answer with
          | error e =>
              have hnothing : (g.openStore host.shelves).1 = (g, host.shelves) := by
                rw [StagingSink.openStore, hstore, hopen, storeOf_error hopen]
              exact h.unchanged (congrArg (·.1.store) hnothing) (congrArg (·.2) hnothing)
          | ok store =>
              obtain ⟨harea, hworking, hobjects⟩ := storeOf_eq hopen
              obtain ⟨hstart, -⟩ := h.unopened hstore
              have hlocation : g.location = start.1.location :=
                (congrArg StagingSink.location hsame :)
              -- The location and the working directory are those of the start.
              have hsameArea : store = start.1.area start.2.shelves := by
                rw [harea, StagingSink.area, hstart, Option.getD_none, hlocation]
                exact Location.area_congr _ h.workingDirectory
              have hopened : (g.openStore host.shelves).1 =
                  ({ g with store := some store }, shelves') := by
                rw [StagingSink.openStore, hstore, hopen]
              refine h.stored store (congrArg (·.1.store) hopened) (hsameArea ▸ .refl store) ?_
                fun p hp hout => ?_
              · rw [← hworking]
                exact congrArg (·.2.files.workingDirectory) hopened
              · rw [← h.outside p hp hout, objectAt?, hstore, Option.getD_none, ← hsameArea,
                  ← hobjects]
                exact congrArg (fun s => Store.get? store s.2 p) hopened

/-- A batch is put into the folder of the job. -/
theorem write {g : StagingSink} {host : Host} (h : Tidy start (g, host))
    (hrooted : (start.1.area start.2.shelves).IsRooted) (hsame : g.fresh = start.1.fresh)
    (batch : Batch) :
    Tidy start ((g.write host.shelves batch).1.1,
      { host with shelves := (g.write host.shelves batch).1.2 }) := by
  have hfolder : g.folder = start.1.folder := (congrArg StagingSink.folder hsame :)
  rcases write_cases g host.shelves batch with ⟨hnothing, -⟩ | hput
  · exact h.unchanged (congrArg (·.1.store) hnothing) (congrArg (·.2) hnothing)
  · obtain ⟨b, store, store', shelves', part, schema, ack, -, -, hstore, hput, -, hwrite⟩ := hput
    have hlike := h.uses store hstore
    obtain ⟨hlike', hworking⟩ := Store.isLike_put? hput
    rw [hwrite]
    refine h.stored store' rfl (hlike'.trans hlike) hworking fun p hp hout => ?_
    have hpart : p ≠ partPath g.folder g.parts.length := by
      rintro rfl
      rw [hfolder, isBelow_partPath] at hout
      cases hout
    rw [← h.outside p hp hout, objectAt?_of_store hstore]
    exact Store.get?_put?_of_ne (hrooted.of_isLike hlike) (isProper_partPath _ _) hp hput hpart

/-- Closing removes nothing that is not in the folder of the job. -/
theorem close {g : StagingSink} {host : Host} (h : Tidy start (g, host)) (hfresh : IsFresh start)
    (hrooted : (start.1.area start.2.shelves).IsRooted) (hsame : g.fresh = start.1.fresh) :
    Tidy start ((g.close host.shelves).1, { host with shelves := (g.close host.shelves).2 }) := by
  have hfolder : g.folder = start.1.folder := (congrArg StagingSink.folder hsame :)
  rcases close_cases g host.shelves with ⟨hnothing, -⟩ | hremoved
  · exact h.unchanged (congrArg (·.1.store) hnothing) (congrArg (·.2) hnothing)
  · obtain ⟨store, store', shelves', hstore, -, hremove, hclose⟩ := hremoved
    have hlike := h.uses store hstore
    obtain ⟨hlike', hworking⟩ := Store.isLike_removeBelow hremove
    rw [hclose]
    refine h.stored store' rfl (hlike'.trans hlike) hworking fun p hp hout => ?_
    have hbefore := h.outside p hp hout
    rw [objectAt?_of_store hstore] at hbefore
    rw [hfolder] at hremove
    by_cases hwithin : p.IsWithin (.ofText start.1.folder)
    · -- Only the name of the folder itself is in question, under which there was nothing.
      have hnothing := hfresh p hp hwithin
      rcases Store.get?_removeBelow hremove p with hkept | hgone
      · exact hkept.trans hbefore
      · exact hgone.trans hnothing.symm
    · exact (Store.get?_removeBelow_of_not_isWithin (hrooted.of_isLike hlike) hp hremove
        hwithin).trans hbefore

/-- A call of the sink keeps the area tidy. -/
theorem step (h : Tidy start v) (hfresh : IsFresh start)
    (hrooted : (start.1.area start.2.shelves).IsRooted) (hsame : v.1.fresh = start.1.fresh)
    (hstep : Step v event v') (hcall : event.isCall = true) : Tidy start v' := by
  cases hstep with
  | opened hopened =>
      cases (complete_openCall ..).symm.trans hopened
      exact h.openStore hsame
  | written hwritten =>
      cases (complete_writeCall ..).symm.trans hwritten
      exact h.write hrooted hsame _
  | committed hcommitted =>
      rw [complete_commitCall] at hcommitted
      split at hcommitted <;> cases hcommitted <;> exact h.unchanged rfl rfl
  | closed hclosed =>
      cases (complete_closeCall ..).symm.trans hclosed
      exact h.close hfresh hrooted hsame
  | elsewhere => cases hcall
  | tampered => cases hcall

/-- When the sink has been closed, nothing is left in the folder of its job, unless it is to be
kept. -/
theorem closed (h : Tidy start v) (hfresh : IsFresh start)
    (hrooted : (start.1.area start.2.shelves).IsRooted) (hsame : v.1.fresh = start.1.fresh)
    {answer : ConnectorResult Unit} (hstep : Step v (.closed answer) v')
    (hkeeps : v.1.keeps = false) {p : ObjectPath} (hp : p.IsProper)
    (hbelow : p.isBelow (.ofText start.1.folder) = true) :
    objectAt? (start.1.area start.2.shelves) v' p = none := by
  have hfolder : v.1.folder = start.1.folder := (congrArg StagingSink.folder hsame :)
  have hwithin := ObjectPath.isWithin_of_isBelow hbelow
  cases hstep with
  | @closed g g' host host' answer time hclosed =>
      cases (complete_closeCall ..).symm.trans hclosed
      rcases close_cases g host.shelves with ⟨hnothing, hnone | hkept⟩ | hremoved
      · obtain ⟨-, hunchanged⟩ := h.unopened hnone
        rw [hnothing]
        exact (hunchanged p).trans (hfresh p hp hwithin)
      · rw [show g.keeps = false from hkeeps] at hkept
        cases hkept
      · obtain ⟨store, store', shelves', hstore, -, hremove, hclose⟩ := hremoved
        rw [hfolder] at hremove
        rw [hclose]
        exact Store.get?_removeBelow_of_isBelow (hrooted.of_isLike (h.uses store hstore)) hp hremove
          hbelow

end Tidy

/-! ### Attempts -/

end StagingSink

/-- Whether a call has ended with an error. -/
def StagingEvent.fails : StagingEvent → Bool
  | opened (.error _) | written _ (.error _) | committed (.error _) => true
  | _ => false

namespace StagingSink

/-- What a call may have done that fails: it may have opened the area, and have left something in
the folder of its job, but the parts in it are as they were. -/
structure Confined (area : Store) (v v' : StagingSink × Host) : Prop where
  fresh_eq : v'.1.fresh = v.1.fresh
  parts_eq : v'.1.parts = v.1.parts
  tables_eq : v'.2.tables = v.2.tables
  workingDirectory_eq :
    v'.2.shelves.files.workingDirectory = v.2.shelves.files.workingDirectory
  uses : v.1.UsesArea area → v'.1.UsesArea area
  unopened : v'.1.store = none →
    v.1.store = none ∧ ∀ p, objectAt? area v' p = objectAt? area v p
  outside : ∀ p : ObjectPath, p.IsProper → p.isBelow (.ofText v.1.folder) = false →
    objectAt? area v' p = objectAt? area v p
  kept : v.1.store = none ∨
    ∀ part ∈ v.1.parts, objectAt? area v' part.path = objectAt? area v part.path

/-- A change of something else than a sink, its area and the tables. -/
structure Spares (area : Store) (v v' : StagingSink × Host) : Prop where
  sink_eq : v'.1 = v.1
  tables_eq : v'.2.tables = v.2.tables
  workingDirectory_eq :
    v'.2.shelves.files.workingDirectory = v.2.shelves.files.workingDirectory
  objects_eq : ∀ p, objectAt? area v' p = objectAt? area v p

/-- A sink and its host before and after a call that is performed or fails, or a change of something
else. -/
inductive Attempt (area : Store) (v : StagingSink × Host) :
    StagingEvent → StagingSink × Host → Prop where
  | performed {event : StagingEvent} {v' : StagingSink × Host} (hcall : event.isCall = true)
      (hstep : Step v event v') : Attempt area v event v'
  | failed {event : StagingEvent} {v' : StagingSink × Host} (hfails : event.fails = true)
      (hchange : Confined area v v') : Attempt area v event v'
  | spared {v' : StagingSink × Host} (hchange : Spares area v v') : Attempt area v .elsewhere v'

/-- The records of batches, projected, are added to the rows of a target or take their place, as far
as they are read back from their texts. Nothing else changes in the tables. -/
def Loads (target : String) (mode : SaveMode) (projection : Projection) (batches : List Batch)
    (before after : Tables) : Prop :=
  ∃ projected : List Batch, batches.map (·.project projection) = projected.map .ok ∧
    ((∀ batch ∈ projected, ∀ r ∈ batch.toRecords, r.ReadsBack) →
      after = before.insert target
        (if mode = .overwrite then projected.flatMap Batch.toRecords
          else (before.get? target).getD [] ++ projected.flatMap Batch.toRecords))

/-- What is known of a sink and its host at any moment of a job, when the sink has acknowledged some
batches. -/
structure Holds (start : StagingSink × Host) (batches : List Batch) (v : StagingSink × Host) :
    Prop where
  account : ∃ projected events, Account start.1.fresh projected events v ∧
    StagingEvent.staged events = batches ∧ .tampered ∉ events
  tidy : IsFresh start → (start.1.area start.2.shelves).IsRooted → Tidy start v

variable {start v v' : StagingSink × Host} {event : StagingEvent} {batches : List Batch}
  {store : Store} {target : String} {mode : SaveMode}

theorem Spares.confined {area : Store} (h : Spares area v v') : Confined area v v' where
  fresh_eq := by rw [h.sink_eq]
  parts_eq := by rw [h.sink_eq]
  tables_eq := h.tables_eq
  workingDirectory_eq := h.workingDirectory_eq
  uses := fun huses => by rwa [h.sink_eq]
  unopened := fun hnone => ⟨h.sink_eq ▸ hnone, h.objects_eq⟩
  outside := fun p _ _ => h.objects_eq p
  kept := .inr fun part _ => h.objects_eq part.path

theorem Spares.of_eq {area : Store} (hsink : v'.1 = v.1) (htables : v'.2.tables = v.2.tables)
    (hshelves : v'.2.shelves = v.2.shelves) : Spares area v v' where
  sink_eq := hsink
  tables_eq := htables
  workingDirectory_eq := by rw [hshelves]
  objects_eq := fun p => by rw [objectAt?, hsink, hshelves, ← objectAt?]

/-- What a failed call has done keeps the account. -/
theorem Account.confined {area : Store} {job : StagingSink} {projected : List Batch}
    {events : List StagingEvent} (h : Account job projected events v)
    (hchange : Confined area v v') : Account job projected (events ++ [.elsewhere]) v' := by
  refine h.quiet rfl hchange.fresh_eq hchange.parts_eq (fun hnone => (hchange.unopened hnone).1) ?_
  intro _ i batch hi
  obtain ⟨part, hpart, hpath⟩ := h.exists_part hi
  -- A sink that has staged something has a store, and the failed call has left it one.
  have hopen : v.1.store ≠ none := fun hnone => by
    rw [h.unopened hnone] at hi
    cases hi
  obtain ⟨store, hstore⟩ := Option.ne_none_iff_exists'.mp hopen
  obtain ⟨store', hstore'⟩ := Option.ne_none_iff_exists'.mp fun hnone =>
    hopen (hchange.unopened hnone).1
  have hkept := hchange.kept.resolve_left hopen part hpart
  rw [objectAt?_of_store hstore, objectAt?_of_store hstore'] at hkept
  rw [content?, content?, hstore, hstore', Option.bind_some, Option.bind_some, ← hpath]
  exact .inl hkept

/-- What a failed call has done keeps the area tidy. -/
theorem Tidy.confined (h : Tidy start v) (hsame : v.1.fresh = start.1.fresh)
    (hchange : Confined (start.1.area start.2.shelves) v v') : Tidy start v' where
  uses := hchange.uses h.uses
  workingDirectory := hchange.workingDirectory_eq.trans h.workingDirectory
  outside := fun p hp hout => by
    have hfolder : v.1.folder = start.1.folder := (congrArg StagingSink.folder hsame :)
    rw [hchange.outside p hp (hfolder ▸ hout), h.outside p hp hout]
  unopened := fun hnone => by
    obtain ⟨hbefore, hobjects⟩ := hchange.unopened hnone
    obtain ⟨hstart, hobjects'⟩ := h.unopened hbefore
    exact ⟨hstart, fun p => (hobjects p).trans (hobjects' p)⟩

/-- Only a commit that answers with a receipt changes a table. -/
theorem Attempt.tables_eq {area : Store} (h : Attempt area v event v')
    (hevent : ∀ receipt, event ≠ .committed (.ok receipt))
    (hloader : ∃ target mode, v.1.loader = .table target mode) : v'.2.tables = v.2.tables := by
  cases h with
  | performed hcall hstep => exact hstep.tables_eq hcall hevent hloader
  | failed _ hchange => exact hchange.tables_eq
  | spared hchange => exact hchange.tables_eq

namespace Holds

/-- A sink that has not been called yet holds nothing. -/
theorem refl {job : StagingSink} (hfresh : job.fresh = job) (store : Option Store) (host : Host) :
    Holds ({ job with store }, host) [] ({ job with store }, host) where
  account := by
    have hjob : ({ job with store } : StagingSink).fresh = job := hfresh
    exact ⟨[], [], hjob.symm ▸ .start job store host hfresh, rfl, nofun⟩
  tidy := fun _ _ => .refl _

theorem fresh_eq (h : Holds start batches v) : v.1.fresh = start.1.fresh := by
  obtain ⟨_, _, haccount, -⟩ := h.account
  exact haccount.fresh_eq

/-- An attempt stages what it acknowledges. -/
theorem attempt (h : Holds start batches v)
    (hattempt : Attempt (start.1.area start.2.shelves) v event v') :
    Holds start (batches ++ event.staged?.toList) v' := by
  obtain ⟨projected, events, haccount, hstaged, huntampered⟩ := h.account
  -- A failed call stages nothing: to the account it is a change elsewhere.
  have hconfined (hchange : Confined (start.1.area start.2.shelves) v v')
      (hnothing : event.staged? = none) : Holds start (batches ++ event.staged?.toList) v' := by
    rw [hnothing, Option.toList_none, List.append_nil]
    refine ⟨⟨projected, _, haccount.confined hchange, ?_, by simpa using huntampered⟩,
      fun hfresh hrooted => (h.tidy hfresh hrooted).confined h.fresh_eq hchange⟩
    rw [StagingEvent.staged, List.filterMap_append]
    exact (List.append_nil _).trans hstaged
  cases hattempt with
  | performed hcall hstep =>
      obtain ⟨more, hmore⟩ := haccount.step hstep
      refine ⟨⟨_, _, hmore, ?_, ?_⟩, fun hfresh hrooted =>
        (h.tidy hfresh hrooted).step hfresh hrooted h.fresh_eq hstep hcall⟩
      · rw [← hstaged, StagingEvent.staged, StagingEvent.staged, List.filterMap_append]
        cases hevent : event.staged? <;> simp [hevent]
      · rw [List.mem_append, List.mem_singleton, not_or]
        refine ⟨huntampered, ?_⟩
        rintro rfl
        cases hcall
  | failed hfails hchange =>
      refine hconfined hchange ?_
      cases event with
      | written batch answer => cases answer <;> first | rfl | cases hfails
      | _ => rfl
  | spared hchange => exact hconfined hchange.confined rfl

/-- A commit loads the records of all batches that have been acknowledged. -/
theorem loads {receipt : CommitReceipt} (h : Holds start batches v)
    (hloader : start.1.loader = .table target mode)
    (hattempt : Attempt (start.1.area start.2.shelves) v (.committed (.ok receipt)) v') :
    Loads target mode start.1.projection batches v.2.tables v'.2.tables := by
  obtain ⟨projected, events, haccount, rfl, huntampered⟩ := h.account
  cases hattempt with
  | failed hfails => cases hfails
  | performed _ hstep =>
      have hloader' : v.1.loader = .table target mode := haccount.loader_eq.trans hloader
      obtain ⟨store, found, hstore, hfound, htables⟩ := hstep.committed_ok hloader'
      refine ⟨projected, haccount.projects, fun hback => ?_⟩
      rw [haccount.parts, List.map_map] at hfound
      rw [htables, haccount.found_eq hstore huntampered hback hfound, List.flatMap_def]

/-- When the sink has been closed, nothing is left in the folder of its job, unless it is to be
kept. -/
theorem emptied {answer : ConnectorResult Unit} (h : Holds start batches v)
    (hattempt : Attempt (start.1.area start.2.shelves) v (.closed answer) v')
    (hfresh : IsFresh start) (hrooted : (start.1.area start.2.shelves).IsRooted)
    (hkeeps : start.1.keeps = false) {p : ObjectPath} (hp : p.IsProper)
    (hbelow : p.isBelow (.ofText start.1.folder) = true) :
    objectAt? (start.1.area start.2.shelves) v' p = none := by
  cases hattempt with
  | failed hfails => cases hfails
  | performed _ hstep =>
      have hkeeps' : v.1.keeps = start.1.keeps := (congrArg StagingSink.keeps h.fresh_eq :)
      exact (h.tidy hfresh hrooted).closed hfresh hrooted h.fresh_eq hstep (hkeeps'.trans hkeeps) hp
        hbelow

end Holds

end StagingSink

end BatchTransfer.Staging
