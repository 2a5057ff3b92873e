import BatchTransfer.Job.Run
import BatchTransfer.Proofs.Options.Validation
import BatchTransfer.Proofs.Refusal

/-!
# How connectors are made

The connectors of a plan can be made if the options of both sides are valid and fit the settings of
their kinds (`Host.makeSite_eq_ok_iff`, `Registry.make_eq_ok_iff`). For tables in memory, staged
loads into a table, files and printing this is what their options have to be, and what is made of
them.
-/

namespace BatchTransfer

namespace Registry

variable {α : Type} {role : Role} {makers : KeyMap (Maker α)} {policy : UnknownOptionPolicy}
  {run : RunId} {kind : String} {options : OptionMap} {maker : Maker α} {connector : α}

/-- A connector is made from valid options. -/
theorem make_eq_ok_iff (hmaker : makers.get? kind = some maker) :
    make role makers policy run kind options = .ok connector ↔
      ∃ valid, maker.schema.validate options policy = .ok valid ∧
        maker.create run valid = .ok connector := by
  rw [make, hmaker]
  dsimp only
  cases hvalid : maker.schema.validate options policy with
  | error e => simp
  | ok valid => cases hcreate : maker.create run valid <;> simp [hcreate]

end Registry

namespace Host

variable {h : Host} {registry : ConnectorRegistry} {plan : Plan} {site : JobSite}

/-- The connectors of a plan are made with a host that has given a run away. -/
theorem makeSite_eq_ok_iff : h.makeSite registry plan = .ok site ↔
    ∃ source sink,
      registry.makeSource h.nextRun plan.source.kind plan.source.options = .ok source ∧
      registry.makeSink h.nextRun plan.sink.kind plan.sink.options = .ok sink ∧
      site = ⟨source, sink, { h with nextRun := h.nextRun.next }⟩ := by
  unfold makeSite
  cases registry.makeSource h.nextRun plan.source.kind plan.source.options with
  | error e => simp
  | ok source =>
      cases registry.makeSink h.nextRun plan.sink.kind plan.sink.options with
      | error e => simp
      | ok sink => simp [eq_comm]

end Host

namespace Settings

variable {o : ValidOptions}

theorem check_eq_ok_iff {s : Settings} : s.check o = .ok () ↔
    (∀ e ∈ o.values.entries, s.misfit? o e = none) ∧
      (∀ setting ∈ s.numbers, outOfRange? o setting = none) ∧
      ∀ setting ∈ s.texts, badLength? o setting = none := by
  rw [← List.findSome?_eq_none_iff, ← List.findSome?_eq_none_iff, ← List.findSome?_eq_none_iff,
    check]
  cases o.values.entries.findSome? (s.misfit? o) with
  | some e => simp
  | none =>
      cases s.numbers.findSome? (outOfRange? o) with
      | some e => simp
      | none => cases s.texts.findSome? (badLength? o) <;> simp

/-- One text is checked for its length alone. -/
theorem check_text_eq_ok_iff {setting : TextSetting} : check ⟨[], [setting]⟩ o = .ok () ↔
    ∀ text, o.string? setting.key = some text → TextSetting.permits setting text = true := by
  have hlength : badLength? o setting = none ↔
      ∀ text, o.string? setting.key = some text → TextSetting.permits setting text = true := by
    unfold badLength?
    cases o.string? setting.key <;> simp
  rw [check_eq_ok_iff, List.forall_mem_singleton, hlength]
  exact ⟨fun h => h.2.2, fun h => ⟨fun _ _ => rfl, nofun, h⟩⟩

/-- One number is checked for its width and its range. -/
theorem check_number_eq_ok {setting : NumberSetting} {n : Int}
    (hn : o.integer? setting.key = some n) (hwidth : setting.width.range.contains n = true)
    (hrange : setting.range.contains n = true) : check ⟨[setting], []⟩ o = .ok () := by
  rw [check_eq_ok_iff, List.forall_mem_singleton]
  refine ⟨fun e he => ?_, ?_, nofun⟩
  · unfold misfit?
    split
    · rename_i setting' m hfind hm
      obtain ⟨hkey, hsetting⟩ : setting.key = e.1 ∧ setting = setting' := by
        simpa [List.find?_singleton] using hfind
      subst hsetting
      have hgiven : o.get? setting.key = some e.2 := by
        rw [hkey]
        exact KeyMap.get?_eq_some_iff.mpr he
      rw [ValidOptions.integer?, hgiven, Option.bind_some, hm] at hn
      cases hn
      rw [if_pos hwidth]
    · rfl
  · rw [outOfRange?, hn]
    exact if_pos hrange

end Settings

/-- The columns that valid options ask for. -/
theorem ValidOptions.projection_eq_ok_iff {o : ValidOptions} {p : Projection} :
    o.projection = .ok p ↔ (o.strings? columnsKey = none ∧ p = .all) ∨
      ∃ names, o.strings? columnsKey = some names ∧ Projection.ofList names = .ok p := by
  unfold projection
  cases o.strings? columnsKey with
  | none => simp [eq_comm]
  | some names => cases hlist : Projection.ofList names <;> simp [hlist]

/-! ### Tables in memory and staged loads -/

theorem MemorySink.create_eq_ok_iff {o : ValidOptions} {sink : MemorySink} :
    create o = .ok sink ↔ Settings.check ⟨[], [nonEmptySetting "target"]⟩ o = .ok () ∧
      ∃ projection, o.projection = .ok projection ∧
        sink = ⟨o.text "target", o.saveMode, projection, false, 0⟩ := by
  unfold create
  cases Settings.check ⟨[], [nonEmptySetting "target"]⟩ o with
  | error e => simp [bind, Except.bind]
  | ok u => cases o.projection <;> simp [bind, Except.bind, pure, Except.pure, eq_comm]

theorem MemorySource.create_eq_ok_iff {seesResults : Bool} {o : ValidOptions}
    {source : MemorySource} :
    create seesResults o = .ok source ↔
      Settings.check ⟨[batchSizeSetting], []⟩ o = .ok () ∧
        ∃ origin projection, originOf? o = some origin ∧ o.projection = .ok projection ∧
          source = ⟨origin, o.natural "batchSize", projection, seesResults, none⟩ := by
  unfold create
  cases Settings.check ⟨[batchSizeSetting], []⟩ o with
  | error e => simp [bind, Except.bind]
  | ok u =>
      cases originOf? o with
      | none => simp [bind, Except.bind, throw, throwThe, MonadExceptOf.throw]
      | some origin => cases o.projection <;> simp [bind, Except.bind, pure, Except.pure, eq_comm]

theorem Staging.createWarehouse_eq_ok_iff {run : RunId} {o : ValidOptions}
    {sink : Staging.StagingSink} :
    createWarehouse run o = .ok sink ↔ Settings.check ⟨[], [nonEmptySetting "target"]⟩ o = .ok () ∧
      ∃ location projection, locationOption o = .ok location ∧
        (∀ bucket folder, location ≠ .bucket bucket folder) ∧ o.projection = .ok projection ∧
        sink = .new (.table (o.text "target") o.saveMode) location projection
          (o.flag "keepStaging") run := by
  unfold createWarehouse
  cases Settings.check ⟨[], [nonEmptySetting "target"]⟩ o with
  | error e => simp [bind, Except.bind]
  | ok u =>
      cases locationOption o with
      | error e => simp [bind, Except.bind]
      | ok location =>
          cases location <;> cases o.projection <;>
            simp [bind, Except.bind, pure, Except.pure, throw, throwThe, MonadExceptOf.throw, eq_comm]

/-! ### Files and printing -/

theorem FileSink.create_eq_ok_iff {run : RunId} {o : ValidOptions} {sink : FileSink} :
    create run o = .ok sink ↔ Settings.check ⟨[], [nonEmptySetting "path"]⟩ o = .ok () ∧
      ∃ projection, o.projection = .ok projection ∧
        sink = ⟨o.text "path", ((o.string? "format").bind FileFormat.ofName?).getD .json,
          o.saveMode, projection, run, none, 0, 0, false⟩ := by
  unfold create
  cases Settings.check ⟨[], [nonEmptySetting "path"]⟩ o with
  | error e => simp [bind, Except.bind]
  | ok u => cases o.projection <;> simp [bind, Except.bind, pure, Except.pure, eq_comm]

theorem LogSink.create_eq_ok_iff {o : ValidOptions} {sink : LogSink} :
    create o = .ok sink ↔ settings.check o = .ok () ∧
      ∃ projection, o.projection = .ok projection ∧
        sink = ⟨o.natural "numRows", o.natural "truncate", o.flag "vertical", projection, 0, 0⟩ := by
  unfold create
  cases settings.check o with
  | error e => simp [bind, Except.bind]
  | ok u => cases o.projection <;> simp [bind, Except.bind, pure, Except.pure, eq_comm]

end BatchTransfer
