import BatchTransfer.Proofs.Options.Validation
import BatchTransfer.Proofs.Refusal

/-!
# The fault that is reported

Options can be refused for several keys at once and for several causes each. A check that goes
through a list stops at the first part that it refuses, behind a beginning that passes
(`OptionSchema.checkOptions_eq_error_iff`, `OptionSchema.fillDefaults_eq_error_iff`). Options are
listed by their keys, so what has passed in front of an option are those of smaller keys. The main
theorem, `OptionSchema.reports_first_fault`, says of every schema which error is reported, without
following the check.
-/

namespace BatchTransfer

/-- The entries in front of one are those of smaller keys. -/
theorem KeyMap.mem_before_iff {α : Type} {m : KeyMap α} {before after : List (String × α)}
    {key : String} {value : α} (h : m.entries = before ++ (key, value) :: after)
    {e : String × α} : e ∈ before ↔ m.get? e.1 = some e.2 ∧ e.1 < key := by
  have hsorted := m.sorted
  rw [h, List.map_append, List.map_cons, List.pairwise_append, List.pairwise_cons] at hsorted
  obtain ⟨-, ⟨hafter, -⟩, hbefore⟩ := hsorted
  rw [KeyMap.get?_eq_some_iff, h, List.mem_append, List.mem_cons]
  constructor
  · intro he
    exact ⟨.inl he, hbefore _ (List.mem_map_of_mem he) _ List.mem_cons_self⟩
  · rintro ⟨he | he | he, hsmaller⟩
    · exact he
    · cases he
      exact absurd hsmaller (String.lt_irrefl _)
    · exact absurd (String.lt_trans hsmaller (hafter _ (List.mem_map_of_mem he)))
        (String.lt_irrefl _)

namespace OptionSchema

variable {s : OptionSchema} {policy : UnknownOptionPolicy} {checked checked' : CheckedOptions}
  {key : String} {value : OptionValue} {entries : List (String × OptionValue)}
  {options : OptionMap} {e : OptionsError}

/-! ### Where a check stops -/

/-- An option is refused if it is unknown, if another one is kept under its declared key, or else if
its value has not its type. -/
theorem checkOption_eq_error_iff : s.checkOption policy checked key value = .error e ↔
    (s.resolve? key = none ∧ policy = .reject ∧ e = .unknown s.kind key) ∨
      ∃ spec, s.resolve? key = some spec ∧
        ((∃ earlier, checked.writtenAs.get? spec.key = some earlier ∧
          e = .invalidValue s.kind spec.key (.setTwice earlier key)) ∨
        (checked.writtenAs.get? spec.key = none ∧ spec.type.coerce value = none ∧
          e = .invalidType s.kind key spec.type.display (describeFound spec value))) := by
  unfold checkOption
  cases s.resolve? key with
  | none => cases policy <;> simp [eq_comm]
  | some spec =>
      cases hwritten : checked.writtenAs.get? spec.key with
      | some earlier => simp [hwritten, eq_comm]
      | none =>
          cases hvalue : spec.type.coerce value with
          | none => simp [hwritten, hvalue, eq_comm]
          | some coerced => simp [hwritten, hvalue]

theorem checkOptions_eq_foldlM : s.checkOptions policy checked entries =
    entries.foldlM (fun checked entry => s.checkOption policy checked entry.1 entry.2) checked := by
  induction entries generalizing checked with
  | nil => rfl
  | cons first entries ih =>
      rw [checkOptions, List.foldlM_cons]
      cases s.checkOption policy checked first.1 first.2 with
      | error e => rfl
      | ok next => exact ih

theorem checkOptions_append (before after : List (String × OptionValue)) :
    s.checkOptions policy checked (before ++ after) =
      (s.checkOptions policy checked before).bind fun passed =>
        s.checkOptions policy passed after := by
  simp only [checkOptions_eq_foldlM, List.foldlM_append]
  rfl

/-- The check of several options stops at the first that is refused. -/
theorem checkOptions_eq_error_iff : s.checkOptions policy checked entries = .error e ↔
    ∃ before entry after passed, entries = before ++ entry :: after ∧
      s.checkOptions policy checked before = .ok passed ∧
      s.checkOption policy passed entry.1 entry.2 = .error e := by
  simp only [checkOptions_eq_foldlM, foldlM_eq_error_iff]

/-- What is kept of options that pass: for each declared key the key under which it was written. -/
theorem writtenAs_checkOptions (h : s.checkOptions policy checked entries = .ok checked')
    {declared written : String} : checked'.writtenAs.get? declared = some written ↔
      checked.writtenAs.get? declared = some written ∨
        ∃ entry ∈ entries, entry.1 = written ∧
          ∃ spec, s.resolve? entry.1 = some spec ∧ spec.key = declared := by
  induction entries generalizing checked with
  | nil =>
      cases h
      simp
  | cons first entries ih =>
      rw [checkOptions] at h
      split at h
      · cases h
      · rename_i next hnext
        simp only [ih h, List.mem_cons, or_and_right, exists_or, exists_eq_left]
        rcases checkOption_eq_ok_iff.mp hnext with ⟨hspec, -, rfl⟩ | ⟨spec, _, hspec, hfree, -, rfl⟩
        · simp [hspec]
        · -- The key was free, so nothing that was kept is lost.
          have hkept : (checked.writtenAs.insert spec.key first.1).get? declared = some written ↔
              checked.writtenAs.get? declared = some written ∨
                first.1 = written ∧ spec.key = declared := by
            rw [KeyMap.get?_insert]
            by_cases hdeclared : declared = spec.key
            · simp [hdeclared, hfree]
            · simp [hdeclared, Ne.symm hdeclared]
          simp only [hkept, hspec, Option.some.injEq, exists_eq_left', or_assoc]

variable {kind : String} {values : OptionMap} {specs : List OptionSpec} {spec : OptionSpec}

/-- Fills in the default of one option, or asks for it if it must be given. -/
def fillDefault (kind : String) (values : OptionMap) (spec : OptionSpec) :
    Except OptionsError OptionMap :=
  fillDefaults kind values [spec]

theorem fillDefaults_eq_foldlM :
    fillDefaults kind values specs = specs.foldlM (fillDefault kind) values := by
  induction specs generalizing values with
  | nil => rfl
  | cons first specs ih =>
      rw [List.foldlM_cons, fillDefault, fillDefaults, fillDefaults]
      split
      · exact ih
      · split
        · exact ih
        · rfl
        · exact ih

theorem fillDefault_eq_error_iff : fillDefault kind values spec = .error e ↔
    spec.isRequired = true ∧ values.get? spec.key = none ∧ e = .missingRequired kind spec.key := by
  cases hvalue : values.get? spec.key with
  | some v => simp [fillDefault, fillDefaults, KeyMap.contains, hvalue]
  | none =>
      cases hpresence : spec.presence <;>
        simp [fillDefault, fillDefaults, KeyMap.contains, OptionSpec.isRequired, hvalue, hpresence,
          eq_comm (a := e)]

/-- Defaults are filled in up to the first option that must be given and is not there. -/
theorem fillDefaults_eq_error_iff : fillDefaults kind values specs = .error e ↔
    ∃ before spec after filled, specs = before ++ spec :: after ∧
      fillDefaults kind values before = .ok filled ∧ spec.isRequired = true ∧
      filled.get? spec.key = none ∧ e = .missingRequired kind spec.key := by
  simp only [fillDefaults_eq_foldlM, foldlM_eq_error_iff, fillDefault_eq_error_iff]

/-! ### Faults -/

/-- Whether a key of the statement that is smaller than `written` stands for the option that is
declared under `declared`. -/
def GivesBefore (s : OptionSchema) (options : OptionMap) (earlier written declared : String) : Prop :=
  earlier < written ∧ ∃ value spec, options.get? earlier = some value ∧
    s.resolve? earlier = some spec ∧ spec.key = declared

/-- Whether a key of a statement is at fault. -/
inductive Offends (s : OptionSchema) (policy : UnknownOptionPolicy) (options : OptionMap)
    (key : String) (value : OptionValue) : Prop where
  | unknown (hspec : s.resolve? key = none) (hpolicy : policy = .reject)
  | repeated {spec : OptionSpec} {earlier : String} (hspec : s.resolve? key = some spec)
      (hearlier : s.GivesBefore options earlier key spec.key)
  | mistyped {spec : OptionSpec} (hspec : s.resolve? key = some spec)
      (hvalue : spec.type.coerce value = none)

/-- The error about a key that is at fault. That it repeats another key comes before the type of its
value. -/
inductive Blames (s : OptionSchema) (options : OptionMap) (key : String) (value : OptionValue) :
    OptionsError → Prop where
  | unknown (hspec : s.resolve? key = none) : Blames s options key value (.unknown s.kind key)
  | repeated {spec : OptionSpec} {earlier : String} (hspec : s.resolve? key = some spec)
      (hearlier : s.GivesBefore options earlier key spec.key) :
      Blames s options key value (.invalidValue s.kind spec.key (.setTwice earlier key))
  | mistyped {spec : OptionSpec} (hspec : s.resolve? key = some spec)
      (honly : ∀ earlier, ¬ s.GivesBefore options earlier key spec.key)
      (hvalue : spec.type.coerce value = none) :
      Blames s options key value
        (.invalidType s.kind key spec.type.display (describeFound spec value))

/-- Whether an option must be given and is not: neither by the statement nor by the default of an
option that is declared before it for the same key. -/
def Lacks (s : OptionSchema) (options : OptionMap) (before : List OptionSpec) (spec : OptionSpec) :
    Prop :=
  spec.isRequired = true ∧ ¬ s.Supplies options spec.key ∧
    ∀ earlier ∈ before, earlier.key = spec.key → earlier.default? = none

section Stopped

variable {before after : List (String × OptionValue)}
  (hentries : options.entries = before ++ (key, value) :: after)
  (hpassed : s.checkOptions policy default before = .ok checked)

include hentries hpassed

/-- What is kept in front of an option are the smaller keys of the statement. -/
theorem writtenAs_before {declared earlier : String} :
    checked.writtenAs.get? declared = some earlier ↔
      s.GivesBefore options earlier key declared := by
  have hnothing : (default : CheckedOptions).writtenAs.get? declared = none := rfl
  rw [writtenAs_checkOptions hpassed, hnothing, GivesBefore]
  constructor
  · rintro (hkept | ⟨⟨_, v⟩, hmem, rfl, spec, hspec, hdeclared⟩)
    · cases hkept
    · obtain ⟨hgiven, hsmaller⟩ := (KeyMap.mem_before_iff hentries).mp hmem
      exact ⟨hsmaller, v, spec, hgiven, hspec, hdeclared⟩
  · rintro ⟨hsmaller, v, spec, hgiven, hspec, hdeclared⟩
    exact .inr ⟨(earlier, v), (KeyMap.mem_before_iff hentries).mpr ⟨hgiven, hsmaller⟩, rfl, spec,
      hspec, hdeclared⟩

/-- An option is refused if its key is at fault, with the error about it. -/
theorem checkOption_eq_error_iff_blames : s.checkOption policy checked key value = .error e ↔
    s.Offends policy options key value ∧ s.Blames options key value e := by
  have hkept {declared : String} : checked.writtenAs.get? declared = none ↔
      ∀ earlier, ¬ s.GivesBefore options earlier key declared := by
    simp only [Option.eq_none_iff_forall_ne_some, ne_eq, writtenAs_before hentries hpassed]
  simp only [checkOption_eq_error_iff, writtenAs_before hentries hpassed, hkept]
  constructor
  · rintro (⟨hspec, hpolicy, rfl⟩ | ⟨spec, hspec, ⟨earlier, hearlier, rfl⟩ | ⟨honly, hvalue, rfl⟩⟩)
    · exact ⟨.unknown hspec hpolicy, .unknown hspec⟩
    · exact ⟨.repeated hspec hearlier, .repeated hspec hearlier⟩
    · exact ⟨.mistyped hspec hvalue, .mistyped hspec honly hvalue⟩
  · rintro ⟨hoffends, hblames⟩
    cases hblames with
    | unknown hspec =>
        cases hoffends with
        | unknown _ hpolicy => exact .inl ⟨hspec, hpolicy, rfl⟩
        | repeated hspec' => cases hspec.symm.trans hspec'
        | mistyped hspec' => cases hspec.symm.trans hspec'
    | repeated hspec hearlier => exact .inr ⟨_, hspec, .inl ⟨_, hearlier, rfl⟩⟩
    | mistyped hspec honly hvalue => exact .inr ⟨_, hspec, .inr ⟨honly, hvalue, rfl⟩⟩

end Stopped

/-- There is an error about each key that is at fault. -/
theorem Offends.exists_blames (h : s.Offends policy options key value) :
    ∃ e, s.Blames options key value e := by
  cases h with
  | unknown hspec _ => exact ⟨_, .unknown hspec⟩
  | repeated hspec hearlier => exact ⟨_, .repeated hspec hearlier⟩
  | @mistyped spec hspec hvalue =>
      by_cases hbefore : ∃ earlier, s.GivesBefore options earlier key spec.key
      · obtain ⟨earlier, hearlier⟩ := hbefore
        exact ⟨_, .repeated hspec hearlier⟩
      · exact ⟨_, .mistyped hspec (fun earlier hearlier => hbefore ⟨earlier, hearlier⟩) hvalue⟩

/-- Options pass in front of one if no key there is at fault. -/
theorem exists_checkOptions_iff_not_offends {before after : List (String × OptionValue)}
    (hentries : options.entries = before ++ after) :
    (∃ passed, s.checkOptions policy default before = .ok passed) ↔
      ∀ entry ∈ before, ¬ s.Offends policy options entry.1 entry.2 := by
  constructor
  · rintro ⟨passed, hpassed⟩ entry hmem hoffends
    obtain ⟨first, last, rfl⟩ := List.append_of_mem hmem
    rw [List.append_assoc] at hentries
    obtain ⟨e, hblames⟩ := hoffends.exists_blames
    rw [checkOptions_append] at hpassed
    cases hfirst : s.checkOptions policy default first with
    | error e' =>
        rw [hfirst] at hpassed
        cases hpassed
    | ok passed' =>
        have hrefused := (checkOption_eq_error_iff_blames hentries hfirst).mpr ⟨hoffends, hblames⟩
        rw [hfirst, Except.bind, checkOptions, hrefused] at hpassed
        cases hpassed
  · intro h
    cases hbefore : s.checkOptions policy default before with
    | ok passed => exact ⟨passed, rfl⟩
    | error e =>
        obtain ⟨first, entry, last, passed, rfl, hpassed, hrefused⟩ :=
          checkOptions_eq_error_iff.mp hbefore
        rw [List.append_assoc] at hentries
        obtain ⟨hoffends, -⟩ := (checkOption_eq_error_iff_blames hentries hpassed).mp hrefused
        exact absurd hoffends (h entry (List.mem_append_right _ List.mem_cons_self))

/-- The check of all options stops at the smallest key that is at fault. -/
theorem checkOptions_entries_eq_error_iff :
    s.checkOptions policy default options.entries = .error e ↔
      ∃ key value, options.get? key = some value ∧ s.Offends policy options key value ∧
        s.Blames options key value e ∧
        ∀ smaller other, smaller < key → options.get? smaller = some other →
          ¬ s.Offends policy options smaller other := by
  have hfirst {before after : List (String × OptionValue)} {key : String} {value : OptionValue}
      (hentries : options.entries = before ++ (key, value) :: after) :
      (∃ passed, s.checkOptions policy default before = .ok passed) ↔
        ∀ smaller other, smaller < key → options.get? smaller = some other →
          ¬ s.Offends policy options smaller other := by
    rw [exists_checkOptions_iff_not_offends hentries]
    simp only [KeyMap.mem_before_iff hentries, Prod.forall]
    exact ⟨fun h smaller other hsmaller hgiven => h smaller other ⟨hgiven, hsmaller⟩,
      fun h smaller other hother => h smaller other hother.2 hother.1⟩
  rw [checkOptions_eq_error_iff]
  constructor
  · rintro ⟨before, ⟨key, value⟩, after, passed, hentries, hpassed, hrefused⟩
    obtain ⟨hoffends, hblames⟩ := (checkOption_eq_error_iff_blames hentries hpassed).mp hrefused
    have hgiven : options.get? key = some value := by
      rw [KeyMap.get?_eq_some_iff, hentries]
      exact List.mem_append_right _ List.mem_cons_self
    exact ⟨key, value, hgiven, hoffends, hblames, (hfirst hentries).mp ⟨passed, hpassed⟩⟩
  · rintro ⟨key, value, hgiven, hoffends, hblames, hsmaller⟩
    obtain ⟨before, after, hentries⟩ := List.append_of_mem (KeyMap.get?_eq_some_iff.mp hgiven)
    obtain ⟨passed, hpassed⟩ := (hfirst hentries).mpr hsmaller
    exact ⟨before, (key, value), after, passed, hentries, hpassed,
      (checkOption_eq_error_iff_blames hentries hpassed).mpr ⟨hoffends, hblames⟩⟩

/-! ### Options that must be given -/

theorem allGiven_iff_not_lacks : AllGiven (s.Supplies options) specs ↔
    ∀ before spec after, specs = before ++ spec :: after → ¬ s.Lacks options before spec := by
  refine forall_congr' fun before => forall_congr' fun spec => forall_congr' fun after =>
    imp_congr_right fun _ => ?_
  simp only [Lacks, ← Option.not_isSome_iff_eq_none]
  grind

section Passed

variable (hpassed : s.checkOptions policy default options.entries = .ok checked)

include hpassed

/-- An option is missing behind the defaults of those declared before it if neither they nor the
statement give it. -/
theorem get?_filled_eq_none_iff {before : List OptionSpec} {filled : OptionMap}
    (hfilled : fillDefaults kind checked.values before = .ok filled) :
    filled.get? key = none ↔ ¬ s.Supplies options key ∧
      ∀ earlier ∈ before, earlier.key = key → earlier.default? = none := by
  rw [get?_fillDefaults hfilled, Option.or_eq_none_iff, ← contains_checkOptions_iff hpassed,
    KeyMap.contains, Option.not_isSome_iff_eq_none, List.findSome?_eq_none_iff]
  simp only [ite_eq_right_iff]

/-- The first option that must be given and is not there stops the filling in of defaults. -/
theorem fillDefaults_eq_error_iff_lacks :
    fillDefaults kind checked.values specs = .error e ↔
      ∃ before spec after, specs = before ++ spec :: after ∧ s.Lacks options before spec ∧
        (∀ first earlier last, before = first ++ earlier :: last →
          ¬ s.Lacks options first earlier) ∧
        e = .missingRequired kind spec.key := by
  have hfirst (before : List OptionSpec) :
      (∃ filled, fillDefaults kind checked.values before = .ok filled) ↔
        ∀ first earlier last, before = first ++ earlier :: last →
          ¬ s.Lacks options first earlier := by
    rw [exists_fillDefaults_iff, AllGiven.congr fun key => contains_checkOptions_iff hpassed,
      allGiven_iff_not_lacks]
  rw [fillDefaults_eq_error_iff]
  constructor
  · rintro ⟨before, spec, after, filled, rfl, hfilled, hrequired, hnone, rfl⟩
    exact ⟨before, spec, after, rfl,
      ⟨hrequired, (get?_filled_eq_none_iff hpassed hfilled).mp hnone⟩,
      (hfirst before).mp ⟨filled, hfilled⟩, rfl⟩
  · rintro ⟨before, spec, after, rfl, ⟨hrequired, hlacks⟩, hbefore, rfl⟩
    obtain ⟨filled, hfilled⟩ := (hfirst before).mpr hbefore
    exact ⟨before, spec, after, filled, rfl, hfilled, hrequired,
      (get?_filled_eq_none_iff hpassed hfilled).mpr hlacks, rfl⟩

end Passed

/-! ### The error of a validation -/

theorem validate_eq_error_iff : s.validate options policy = .error e ↔
    s.checkOptions policy default options.entries = .error e ∨
      ∃ checked, s.checkOptions policy default options.entries = .ok checked ∧
        fillDefaults s.kind checked.values s.specs = .error e := by
  unfold validate
  cases hchecked : s.checkOptions policy default options.entries with
  | error e' => simp
  | ok checked => cases hvalues : fillDefaults s.kind checked.values s.specs <;> simp [hvalues]

/-- Options that are not accepted are refused for the smallest key that is at fault, for the first
cause that it gives: that no option has the key, that a smaller key of the statement stands for the
option that is declared under the same key, or that the value has not the type of the option. Only
if no key is at fault, they are refused for the first option in the order of declaration that must be
given and is not, be it by the statement or by the default of an earlier declaration for its key. -/
theorem reports_first_fault (s : OptionSchema) (options : OptionMap) (policy : UnknownOptionPolicy)
    (e : OptionsError) :
    s.validate options policy = .error e ↔
      (∃ key value, options.get? key = some value ∧ s.Offends policy options key value ∧
        s.Blames options key value e ∧
        ∀ smaller other, smaller < key → options.get? smaller = some other →
          ¬ s.Offends policy options smaller other) ∨
      (∀ key value, options.get? key = some value → ¬ s.Offends policy options key value) ∧
        ∃ before spec after, s.specs = before ++ spec :: after ∧ s.Lacks options before spec ∧
          (∀ first earlier last, before = first ++ earlier :: last →
            ¬ s.Lacks options first earlier) ∧
          e = .missingRequired s.kind spec.key := by
  rw [validate_eq_error_iff, checkOptions_entries_eq_error_iff]
  refine or_congr_right ?_
  have hpass : (∃ passed, s.checkOptions policy default options.entries = .ok passed) ↔
      ∀ key value, options.get? key = some value → ¬ s.Offends policy options key value := by
    rw [exists_checkOptions_iff_not_offends (List.append_nil _).symm]
    simp only [KeyMap.get?_eq_some_iff, Prod.forall]
  rw [← hpass]
  constructor
  · rintro ⟨checked, hpassed, hmissing⟩
    exact ⟨⟨checked, hpassed⟩, (fillDefaults_eq_error_iff_lacks hpassed).mp hmissing⟩
  · rintro ⟨⟨checked, hpassed⟩, hmissing⟩
    exact ⟨checked, hpassed, (fillDefaults_eq_error_iff_lacks hpassed).mpr hmissing⟩

end OptionSchema

end BatchTransfer
