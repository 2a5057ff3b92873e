import BatchTransfer.Proofs.Job.Sites
import BatchTransfer.Proofs.Registry.Redaction

/-!
# Results are published on completion

No call of a connector changes a published result, so a job publishes when its machine has stopped
or not at all. What it publishes then is about the whole transfer: the rows of all batches of the
source, the location that the commit has answered with, and the options of the source without those
that must not be shown.
-/

namespace BatchTransfer

open JobEvent (streamRead? answers)

/-- A job that is completed has been given a receipt. -/
theorem Wiring.Course.committed_mem {σ : Type} {w : Wiring σ} {start s : σ} {phase : Phase}
    {events : List JobEvent} (h : w.Course start phase events s) {receipt : CommitReceipt}
    (hphase : phase = .ending (.ok receipt)) : .committed (.ok receipt) ∈ events := by
  induction h with
  | @committed stream events s time t answer =>
      cases answer with
      | ok receipt' =>
          cases hphase
          exact List.mem_append_right _ (List.mem_singleton_self _)
      | error e => cases hphase
  | closed _ _ ih => exact List.mem_append_left _ (ih hphase)
  | _ => cases hphase

namespace Host

variable {h : Host} {registry : ConnectorRegistry} {settings : JobSettings} {plan : Plan}
  {cancellation : Cancellation} {events : List JobEvent} {outcome : JobOutcome}

theorem results_of_makeSite {site : JobSite} (hsite : h.makeSite registry plan = .ok site) :
    site.host.results = h.results := by
  unfold makeSite at hsite
  split at hsite
  · cases hsite
  · split at hsite <;> cases hsite
    rfl

theorem results_publish_of_none {p : JobProgress} {receipt : CommitReceipt}
    (hnone : plan.resultTable = none) : h.publish registry plan p receipt = h := by
  rw [publish, hnone]

/-- What is published under the name that a plan gives. -/
theorem results_publish {p : JobProgress} {receipt : CommitReceipt} {name : String}
    (hname : plan.resultTable = some name) :
    (h.publish registry plan p receipt).results = h.results.insert name
      { name, sourceKind := plan.source.kind, schema := p.schema, rows := p.rowsRead
        sourceOptions := registry.redactOptions .source plan.source
        location := receipt.location } := by
  rw [publish, hname]
  rfl

/-- A run of a plan that has ended changes the published results only if it is completed and the
plan names a result table. Then one entry is added, or takes the place of one under the same name:
it counts the rows of all batches of the source, holds the location that the commit has answered
with, and shows the options of the source but those that the schema of its kind marks as sensitive.
-/
theorem publishes_on_completion
    (hrun : h.PlanRun registry settings plan cancellation events outcome) :
    (∀ e, outcome.result = .error e → outcome.host.results = h.results) ∧
      (plan.resultTable = none → outcome.host.results = h.results) ∧
      ∀ report name, outcome.result = .ok report → plan.resultTable = some name →
        ∃ stream entry, streamRead? events = some stream ∧ stream.EndsNormally ∧
          .committed (.ok report.receipt) ∈ events ∧
          outcome.host.results = h.results.insert name entry ∧
          entry.name = name ∧ entry.sourceKind = plan.source.kind ∧
          entry.rows = Batch.totalSize stream.batches ∧
          entry.location = report.receipt.location ∧
          ∀ key, entry.sourceOptions.get? key = (plan.source.options.get? key).map fun value =>
            if registry.isSensitive .source plan.source.kind key then .string redactedText
            else value := by
  cases hsite : h.makeSite registry plan with
  | error e =>
      obtain ⟨hresult, hhost⟩ := hrun.of_makeSite_error hsite
      rw [hresult, hhost]
      exact ⟨fun _ _ => rfl, fun _ => rfl, nofun⟩
  | ok site =>
      obtain ⟨final, hfailed, hcompleted⟩ := hrun.exists_final hsite
      have hkept {outcome : JobResult CommitReceipt}
          (hcourse : (JobSite.wiring (siteKind site)).Course site (.ending outcome) (answers events)
            final) : final.host.results = h.results :=
        (JobSite.wiring_keeps_results _ _).course (results_of_makeSite hsite) hcourse
      cases hresult : outcome.result with
      | error e =>
          obtain ⟨hcourse, hhost⟩ := hfailed e hresult
          rw [hhost]
          exact ⟨fun _ _ => hkept hcourse, fun _ => hkept hcourse, nofun⟩
      | ok report =>
          obtain ⟨hcourse, hhost, -, stream, hstream, hnormal, -, hrows⟩ := hcompleted report hresult
          rw [hhost]
          refine ⟨nofun, fun hnone => ?_, ?_⟩
          · rw [results_publish_of_none hnone]
            exact hkept hcourse
          · rintro _ name ⟨⟩ hname
            have hcommitted := hcourse.committed_mem rfl
            rw [JobEvent.mem_answers rfl] at hcommitted
            have hpublished : (final.host.publish registry plan report.progress
                report.receipt).results = _ := results_publish hname
            rw [hkept hcourse] at hpublished
            refine ⟨stream, _, hstream, hnormal, hcommitted, hpublished, rfl, rfl, hrows, rfl,
              fun key => ?_⟩
            rw [Registry.get?_redactOptions]
            split <;> simp

/-- A host with a script of one row. -/
def oneRowHost : Host :=
  { new [] with stage := { script := { items := [(0, .rows [Record.empty])] } } }

/-- The registry of the scripted source, which has a secret, and of the sink of tables. -/
def secretRegistry : ConnectorRegistry :=
  Registry.empty
  |>.addSource "script" ⟨Rehearsal.scriptedSourceSchema, fun _ _ => .ok (.scripted .all)⟩
  |>.addSink "memory" ConnectorRegistry.memorySink

/-- A plan of these, with a secret and a result table. -/
def secretPlan : Plan :=
  ⟨⟨"script", KeyMap.empty.insert "secret" (.string "hush")⟩,
    ⟨"memory", KeyMap.empty.insert "target" (.string "t")⟩, some "r"⟩

/-- The connectors of that plan, with their host. -/
def secretSite : JobSite :=
  ⟨.scripted .all, .memory ⟨"t", .append, .all, false, 0⟩, { oneRowHost with nextRun := ⟨1⟩ }⟩

/-- The row is counted, and the secret is not shown. -/
theorem publishes_on_completion_secret :
    ∃ events outcome report entry,
      oneRowHost.PlanRun secretRegistry JobRun.oneBatchSettings secretPlan {} events outcome ∧
        outcome.result = .ok report ∧ outcome.host.results = KeyMap.empty.insert "r" entry ∧
        entry.rows = 1 ∧ entry.location = some (tableLocation "t") ∧
        entry.sourceOptions.get? "secret" = some (.string redactedText) := by
  have hsite : oneRowHost.makeSite secretRegistry secretPlan = .ok secretSite := rfl
  have hread := ((((JobRun.Trace.refl (w := JobSite.wiring (siteKind secretSite))
    (c := JobRun.oneBatchSettings) (.start secretSite false none)).step
      (.writer (.inl rfl) rfl)).step (.writer (.inl rfl) rfl)).step (.writer (.inl rfl) rfl)).step
      (.writer (.inl rfl) rfl)
  have hwritten := (((hread.step (.reader id rfl)).step (.reader id rfl)).step
    (.writer (.inl rfl) rfl)).step (.writer (.inl rfl) rfl)
  have hcommitted := (((hwritten.step (.reader id rfl)).step (.writer (.inl rfl) rfl)).step
    (.writer (.inl rfl) rfl)).step (.writer (.inl rfl) rfl)
  have hclosed := (hcommitted.step (.writer (.inl rfl) rfl)).step (.writer (.inl rfl) rfl)
  have hrun : oneRowHost.PlanRun secretRegistry JobRun.oneBatchSettings secretPlan {} _ _ :=
    .resolved hsite hclosed rfl
  obtain ⟨-, -, hcompleted⟩ := publishes_on_completion hrun
  obtain ⟨stream, entry, hstream, -, -, hresults, -, -, hrows, hlocation, hoptions⟩ :=
    hcompleted _ "r" rfl rfl
  refine ⟨_, _, _, entry, hrun, rfl, hresults, ?_, hlocation, hoptions "secret"⟩
  have hstream' : some (.listed [⟨0, .batch JobRun.oneRow⟩]) = some stream := hstream
  cases hstream'
  rw [hrows, Stream.batches, Stream.items_of_next? rfl, Stream.items_of_next?_eq_none rfl]
  rfl

end Host

end BatchTransfer
