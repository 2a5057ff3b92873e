import Mathlib.Data.List.Nodup
import BatchTransfer.Options.Schema

/-!
# What passes validation

An option of a statement is admitted if it is declared and its value can be brought to the declared
type, or if unknown options are let through. `OptionSchema.checkOptions` passes options that are all
admitted and of which no two are declared under one key; each value is then found under its declared
key. `OptionSchema.exists_validate_iff_allGiven` says which options are valid, and
`OptionSchema.Plain` what becomes of this for a schema without a second key for an option or a second
option for a key.
-/

namespace BatchTransfer

/-! ### Values that have their type -/

namespace OptionType

theorem mapM_textOf?_strings (texts : List String) :
    (texts.map OptionValue.string).mapM textOf? = some texts := by
  induction texts with
  | nil => rfl
  | cons text texts ih => simp [textOf?, ih]

/-- A list of strings is one. -/
theorem coerce_strings (texts : List String) :
    stringList.coerce (.strings texts) = some (.strings texts) := by
  rw [OptionValue.strings, coerce, mapM_textOf?_strings]
  rfl

/-- A list of records is one. -/
theorem coerce_records (items : List Record) :
    records.coerce (.list (items.map .object)) = some (.list (items.map .object)) := by
  rw [coerce, if_pos]
  simp [isObject]

end OptionType

/-- The texts of a list of strings. -/
theorem OptionValue.strings?_strings (texts : List String) :
    (OptionValue.strings texts).strings? = some texts := by
  have hread : (texts.map OptionValue.string).mapM OptionValue.string? = some texts := by
    induction texts with
    | nil => rfl
    | cons text texts ih => simp [string?, ih]
  exact hread

/-! ### Options that are admitted -/

namespace OptionSchema

/-- Whether an option of a statement may be given. -/
inductive Admits (s : OptionSchema) (policy : UnknownOptionPolicy) (key : String)
    (value : OptionValue) : Prop where
  | declared {spec : OptionSpec} {coerced : OptionValue} (hspec : s.resolve? key = some spec)
      (hvalue : spec.type.coerce value = some coerced)
  | unknown (hspec : s.resolve? key = none) (hpolicy : policy = .warn)

/-- Whether two options are not declared under one key. -/
def Apart (s : OptionSchema) (first second : String × OptionValue) : Prop :=
  ∀ spec spec', s.resolve? first.1 = some spec → s.resolve? second.1 = some spec' →
    spec.key ≠ spec'.key

variable {s : OptionSchema} {policy : UnknownOptionPolicy} {checked checked' : CheckedOptions}
  {key : String} {value : OptionValue} {entries : List (String × OptionValue)}

/-- A declared option may be given with a value of its type. -/
theorem admits_iff {spec : OptionSpec} (hspec : s.resolve? key = some spec) :
    s.Admits policy key value ↔ ∃ coerced, spec.type.coerce value = some coerced := by
  constructor
  · rintro (⟨hspec', hvalue⟩ | ⟨hnone, -⟩)
    · cases hspec.symm.trans hspec'
      exact ⟨_, hvalue⟩
    · cases hspec.symm.trans hnone
  · rintro ⟨coerced, hvalue⟩
    exact .declared hspec hvalue

/-- Options are admitted one by one. -/
theorem admits_insert {options : OptionMap} (hvalue : s.Admits policy key value)
    (h : ∀ key value, options.get? key = some value → s.Admits policy key value) :
    ∀ key' value', (options.insert key value).get? key' = some value' →
      s.Admits policy key' value' := by
  intro key' value' hgiven
  rw [KeyMap.get?_insert] at hgiven
  split at hgiven
  · rename_i hkey
    cases hgiven
    rw [hkey]
    exact hvalue
  · exact h key' value' hgiven

/-- An option that passes is let through, or is kept under its declared key, under which nothing has
been kept before. -/
theorem checkOption_eq_ok_iff : s.checkOption policy checked key value = .ok checked' ↔
    (s.resolve? key = none ∧ policy = .warn ∧ checked' = checked) ∨
      ∃ spec coerced, s.resolve? key = some spec ∧ checked.writtenAs.get? spec.key = none ∧
        spec.type.coerce value = some coerced ∧
        checked' =
          ⟨checked.values.insert spec.key coerced, checked.writtenAs.insert spec.key key⟩ := by
  unfold checkOption
  cases s.resolve? key with
  | none => cases policy <;> simp [eq_comm]
  | some spec =>
      cases hwritten : checked.writtenAs.get? spec.key with
      | some earlier => simp [hwritten]
      | none =>
          cases hvalue : spec.type.coerce value with
          | none => simp [hwritten, hvalue]
          | some coerced => simp [hwritten, hvalue, eq_comm]

/-- Options that pass leave everything as it is under other keys than their own. -/
theorem get?_checkOptions_of_ne (h : s.checkOptions policy checked entries = .ok checked')
    (hkey : ∀ e ∈ entries, ∀ spec, s.resolve? e.1 = some spec → spec.key ≠ key) :
    checked'.values.get? key = checked.values.get? key ∧
      checked'.writtenAs.get? key = checked.writtenAs.get? key := by
  induction entries generalizing checked with
  | nil =>
      cases h
      exact ⟨rfl, rfl⟩
  | cons e entries ih =>
      rw [checkOptions] at h
      split at h
      · cases h
      · rename_i next hnext
        rw [List.forall_mem_cons] at hkey
        obtain ⟨hvalues, hwritten⟩ := ih h hkey.2
        rcases checkOption_eq_ok_iff.mp hnext with ⟨-, -, rfl⟩ | ⟨spec, _, hspec, -, -, rfl⟩
        · exact ⟨hvalues, hwritten⟩
        · have hne : key ≠ spec.key := (hkey.1 spec hspec).symm
          rw [KeyMap.get?_insert, if_neg hne] at hvalues hwritten
          exact ⟨hvalues, hwritten⟩

/-- Options that pass are admitted, and apart from each other and from what has been kept before.
Each is found under its declared key. -/
theorem checkOptions_ok (h : s.checkOptions policy checked entries = .ok checked') :
    (∀ e ∈ entries, s.Admits policy e.1 e.2) ∧ entries.Pairwise s.Apart ∧
      ∀ e ∈ entries, ∀ spec, s.resolve? e.1 = some spec →
        checked.writtenAs.get? spec.key = none ∧
          checked'.values.get? spec.key = spec.type.coerce e.2 := by
  induction entries generalizing checked with
  | nil => exact ⟨nofun, .nil, nofun⟩
  | cons e entries ih =>
      rw [checkOptions] at h
      split at h
      · cases h
      · rename_i next hnext
        obtain ⟨hadmits, hapart, hfound⟩ := ih h
        rcases checkOption_eq_ok_iff.mp hnext with
          ⟨hspec, hpolicy, rfl⟩ | ⟨spec, coerced, hspec, hfree, hvalue, rfl⟩
        · refine ⟨List.forall_mem_cons.mpr ⟨.unknown hspec hpolicy, hadmits⟩,
            .cons (fun e' he' spec spec' hspec' => ?_) hapart, List.forall_mem_cons.mpr
              ⟨fun spec hspec' => ?_, hfound⟩⟩
          · cases hspec.symm.trans hspec'
          · cases hspec.symm.trans hspec'
        · -- What is kept under this key keeps all later options away from it.
          have hlater : ∀ e' ∈ entries, ∀ spec', s.resolve? e'.1 = some spec' →
              spec'.key ≠ spec.key := fun e' he' spec' hspec' hsame => by
            obtain ⟨hwritten, -⟩ := hfound e' he' spec' hspec'
            rw [KeyMap.get?_insert, if_pos hsame] at hwritten
            cases hwritten
          refine ⟨List.forall_mem_cons.mpr ⟨.declared hspec hvalue, hadmits⟩,
            .cons (fun e' he' first second hfirst hsecond hsame => ?_) hapart,
            List.forall_mem_cons.mpr ⟨fun spec' hspec' => ?_, fun e' he' spec' hspec' => ?_⟩⟩
          · cases hspec.symm.trans hfirst
            exact hlater e' he' second hsecond hsame.symm
          · cases hspec.symm.trans hspec'
            obtain ⟨hvalues, -⟩ := get?_checkOptions_of_ne h hlater
            refine ⟨hfree, ?_⟩
            rw [hvalues, KeyMap.get?_insert, if_pos rfl, hvalue]
          · obtain ⟨hwritten, hvalues⟩ := hfound e' he' spec' hspec'
            rw [KeyMap.get?_insert, if_neg (hlater e' he' spec' hspec')] at hwritten
            exact ⟨hwritten, hvalues⟩

/-- Options pass that are admitted and apart from each other and from what has been kept before. -/
theorem exists_checkOptions (hadmits : ∀ e ∈ entries, s.Admits policy e.1 e.2)
    (hapart : entries.Pairwise s.Apart)
    (hfree : ∀ e ∈ entries, ∀ spec, s.resolve? e.1 = some spec →
      checked.writtenAs.get? spec.key = none) :
    ∃ checked', s.checkOptions policy checked entries = .ok checked' := by
  induction entries generalizing checked with
  | nil => exact ⟨checked, rfl⟩
  | cons e entries ih =>
      rw [List.forall_mem_cons] at hadmits hfree
      rw [List.pairwise_cons] at hapart
      cases hadmits.1 with
      | unknown hspec hpolicy =>
          rw [checkOptions, checkOption_eq_ok_iff.mpr (.inl ⟨hspec, hpolicy, rfl⟩)]
          exact ih hadmits.2 hapart.2 hfree.2
      | @declared spec coerced hspec hvalue =>
          rw [checkOptions, checkOption_eq_ok_iff.mpr
            (.inr ⟨spec, coerced, hspec, hfree.1 spec hspec, hvalue, rfl⟩)]
          refine ih hadmits.2 hapart.2 fun e' he' spec' hspec' => ?_
          rw [KeyMap.get?_insert, if_neg (hapart.1 e' he' spec spec' hspec hspec').symm]
          exact hfree.2 e' he' spec' hspec'

/-! ### Defaults -/

variable {kind : String} {values values' : OptionMap} {specs : List OptionSpec}

/-- Where there is no value, the first default that is declared for the key is filled in. -/
theorem get?_fillDefaults (h : fillDefaults kind values specs = .ok values') (key : String) :
    values'.get? key = (values.get? key).or
      (specs.findSome? fun spec => if spec.key = key then spec.default? else none) := by
  induction specs generalizing values with
  | nil =>
      cases h
      simp
  | cons spec specs ih =>
      rw [fillDefaults] at h
      rw [List.findSome?_cons]
      split at h
      · rename_i hthere
        obtain ⟨value, hvalue⟩ := Option.isSome_iff_exists.mp hthere
        rw [ih h]
        by_cases hkey : spec.key = key
        · subst hkey
          rw [hvalue]
          rfl
        · rw [if_neg hkey]
      · rename_i hnone
        rw [KeyMap.contains, Bool.not_eq_true, Option.isSome_eq_false_iff, Option.isNone_iff_eq_none]
          at hnone
        split at h
        · rename_i value hdefault
          rw [ih h, KeyMap.get?_insert, OptionSpec.default?, hdefault]
          by_cases hkey : spec.key = key
          · subst hkey
            rw [if_pos rfl, if_pos rfl, hnone]
            rfl
          · rw [if_neg (Ne.symm hkey), if_neg hkey]
        · cases h
        · rename_i hoptional
          rw [ih h, OptionSpec.default?, hoptional]
          simp

/-- Whether every option that must be given is: under its key, or by the default of an option that is
declared before it for the same key. -/
def AllGiven (given : String → Prop) (specs : List OptionSpec) : Prop :=
  ∀ before spec after, specs = before ++ spec :: after → spec.isRequired = true →
    given spec.key ∨ ∃ earlier ∈ before, earlier.key = spec.key ∧ earlier.default?.isSome = true

theorem AllGiven.congr {given given' : String → Prop} (h : ∀ key, given key ↔ given' key) :
    AllGiven given specs ↔ AllGiven given' specs := by
  have hsame : given = given' := funext fun key => propext (h key)
  rw [hsame]

/-- The default of the first option counts for all that are declared after it. -/
theorem allGiven_cons {given : String → Prop} {first : OptionSpec} :
    AllGiven given (first :: specs) ↔
      (first.isRequired = true → given first.key) ∧
        AllGiven (fun key => given key ∨ first.key = key ∧ first.default?.isSome = true) specs := by
  constructor
  · intro h
    refine ⟨?_, ?_⟩
    · intro hrequired
      rcases h [] first specs rfl hrequired with hgiven | ⟨earlier, hearlier, -⟩
      · exact hgiven
      · cases hearlier
    · intro before spec after hsplit hrequired
      subst hsplit
      rcases h (first :: before) spec after rfl hrequired with
        hgiven | ⟨earlier, hearlier, hkey, hdefault⟩
      · exact .inl (.inl hgiven)
      · rcases List.mem_cons.mp hearlier with heq | hearlier
        · exact .inl (.inr ⟨heq ▸ hkey, heq ▸ hdefault⟩)
        · exact .inr ⟨earlier, hearlier, hkey, hdefault⟩
  · intro h before spec after hsplit hrequired
    obtain ⟨hfirst, hrest⟩ := h
    cases before with
    | nil =>
        obtain ⟨rfl, rfl⟩ := List.cons.inj hsplit
        exact .inl (hfirst hrequired)
    | cons other before =>
        obtain ⟨rfl, rfl⟩ := List.cons.inj hsplit
        rcases hrest before spec after rfl hrequired with
          (hgiven | ⟨hkey, hdefault⟩) | ⟨earlier, hearlier, hkey, hdefault⟩
        · exact .inl hgiven
        · exact .inr ⟨first, List.mem_cons_self, hkey, hdefault⟩
        · exact .inr ⟨earlier, List.mem_cons_of_mem _ hearlier, hkey, hdefault⟩

/-- Where no key is declared twice, no default counts for another option. -/
theorem allGiven_iff_of_nodup {given : String → Prop}
    (hnodup : (specs.map OptionSpec.key).Nodup) :
    AllGiven given specs ↔ ∀ spec ∈ specs, spec.isRequired = true → given spec.key := by
  constructor
  · intro h spec hmem hrequired
    obtain ⟨before, after, rfl⟩ := List.append_of_mem hmem
    rcases h before spec after rfl hrequired with hgiven | ⟨earlier, hearlier, hkey, -⟩
    · exact hgiven
    · rw [List.map_append, List.map_cons, List.nodup_append] at hnodup
      exact absurd hkey (hnodup.2.2 _ (List.mem_map_of_mem hearlier) _ List.mem_cons_self)
  · intro h before spec after hsplit hrequired
    subst hsplit
    exact .inl (h spec (List.mem_append_right _ List.mem_cons_self) hrequired)

/-- The defaults can be filled in if all options that must be given are. -/
theorem exists_fillDefaults_iff :
    (∃ values', fillDefaults kind values specs = .ok values') ↔
      AllGiven (fun key => values.contains key = true) specs := by
  induction specs generalizing values with
  | nil =>
      refine ⟨?_, fun _ => ⟨values, rfl⟩⟩
      intro _ before spec after hsplit
      simp at hsplit
  | cons first specs ih =>
      rw [fillDefaults, allGiven_cons]
      by_cases hthere : values.contains first.key = true
      · have hsame (key : String) : values.contains key = true ↔
            values.contains key = true ∨ first.key = key ∧ first.default?.isSome = true := by
          refine ⟨.inl, ?_⟩
          rintro (hgiven | ⟨rfl, -⟩)
          · exact hgiven
          · exact hthere
        rw [if_pos hthere, ih, AllGiven.congr hsame]
        exact ⟨fun h => ⟨fun _ => hthere, h⟩, fun h => h.2⟩
      · rw [if_neg hthere]
        cases hpresence : first.presence with
        | default value =>
            have hsame (key : String) : (values.insert first.key value).contains key = true ↔
                values.contains key = true ∨ first.key = key ∧ first.default?.isSome = true := by
              rw [KeyMap.contains, KeyMap.get?_insert, KeyMap.contains, OptionSpec.default?, hpresence]
              by_cases hkey : first.key = key
              · simp [hkey]
              · simp [hkey, Ne.symm hkey]
            have hoptional : first.isRequired = false := by rw [OptionSpec.isRequired, hpresence]
            dsimp only
            rw [ih, AllGiven.congr hsame, hoptional]
            exact ⟨fun h => ⟨nofun, h⟩, fun h => h.2⟩
        | required =>
            have hrequired : first.isRequired = true := by rw [OptionSpec.isRequired, hpresence]
            exact ⟨nofun, fun h => absurd (h.1 hrequired) hthere⟩
        | optional =>
            have hsame (key : String) : values.contains key = true ↔
                values.contains key = true ∨ first.key = key ∧ first.default?.isSome = true := by
              rw [OptionSpec.default?, hpresence]
              simp
            have hoptional : first.isRequired = false := by rw [OptionSpec.isRequired, hpresence]
            dsimp only
            rw [ih, AllGiven.congr hsame, hoptional]
            exact ⟨fun h => ⟨nofun, h⟩, fun h => h.2⟩

/-! ### Valid options -/

/-- Whether a statement gives the option that is declared under a key, under this key or another. -/
def Supplies (s : OptionSchema) (options : OptionMap) (key : String) : Prop :=
  ∃ written value spec, options.get? written = some value ∧ s.resolve? written = some spec ∧
    spec.key = key

variable {options : OptionMap} {o : ValidOptions}

theorem validate_eq_ok_iff : s.validate options policy = .ok o ↔
    ∃ checked values, s.checkOptions policy default options.entries = .ok checked ∧
      fillDefaults s.kind checked.values s.specs = .ok values ∧ o = ⟨s.kind, values⟩ := by
  unfold validate
  cases hchecked : s.checkOptions policy default options.entries with
  | error e => simp
  | ok checked =>
      cases hvalues : fillDefaults s.kind checked.values s.specs with
      | error e => simp [hvalues]
      | ok values => simp [hvalues, eq_comm]

/-- What is given is kept under its declared key, as a value of its type. -/
theorem get?_checkOptions_of_given
    (h : s.checkOptions policy default options.entries = .ok checked)
    (hgiven : options.get? key = some value) {spec : OptionSpec}
    (hspec : s.resolve? key = some spec) :
    ∃ coerced, spec.type.coerce value = some coerced ∧
      checked.values.get? spec.key = some coerced := by
  have hmem := KeyMap.get?_eq_some_iff.mp hgiven
  obtain ⟨hadmits, -, hfound⟩ := checkOptions_ok h
  obtain ⟨coerced, hcoerced⟩ := (admits_iff hspec).mp (hadmits _ hmem)
  obtain ⟨-, hvalue⟩ := hfound _ hmem spec hspec
  exact ⟨coerced, hcoerced, hvalue.trans hcoerced⟩

theorem get?_checkOptions_of_not_supplies
    (h : s.checkOptions policy default options.entries = .ok checked)
    (hnot : ¬ s.Supplies options key) : checked.values.get? key = none := by
  obtain ⟨hnothing, -⟩ : checked.values.get? key = _ ∧ _ := get?_checkOptions_of_ne h
    fun e hmem spec hspec hkey =>
      hnot ⟨e.1, e.2, spec, KeyMap.get?_eq_some_iff.mpr hmem, hspec, hkey⟩
  exact hnothing

theorem contains_checkOptions_iff
    (h : s.checkOptions policy default options.entries = .ok checked) :
    checked.values.contains key = true ↔ s.Supplies options key := by
  constructor
  · intro hthere
    by_contra hnot
    rw [KeyMap.contains, get?_checkOptions_of_not_supplies h hnot] at hthere
    cases hthere
  · rintro ⟨written, value, spec, hgiven, hspec, rfl⟩
    obtain ⟨coerced, -, hvalue⟩ := get?_checkOptions_of_given h hgiven hspec
    rw [KeyMap.contains, hvalue]
    rfl

/-- Options are valid if each is admitted, no two are declared under one key, and all that must be
given are. -/
theorem exists_validate_iff_allGiven : (∃ o, s.validate options policy = .ok o) ↔
    (∀ e ∈ options.entries, s.Admits policy e.1 e.2) ∧ options.entries.Pairwise s.Apart ∧
      AllGiven (s.Supplies options) s.specs := by
  constructor
  · rintro ⟨o, h⟩
    obtain ⟨checked, values, hchecked, hvalues, -⟩ := validate_eq_ok_iff.mp h
    obtain ⟨hadmits, hapart, -⟩ := checkOptions_ok hchecked
    refine ⟨hadmits, hapart, ?_⟩
    rw [← AllGiven.congr fun key => contains_checkOptions_iff hchecked]
    exact exists_fillDefaults_iff.mp ⟨values, hvalues⟩
  · rintro ⟨hadmits, hapart, hgiven⟩
    obtain ⟨checked, hchecked⟩ : ∃ checked,
        s.checkOptions policy default options.entries = .ok checked :=
      exists_checkOptions hadmits hapart fun _ _ _ _ => rfl
    rw [← AllGiven.congr fun key => contains_checkOptions_iff hchecked] at hgiven
    obtain ⟨values, hvalues⟩ := exists_fillDefaults_iff.mpr hgiven
    exact ⟨_, validate_eq_ok_iff.mpr ⟨checked, values, hchecked, hvalues, rfl⟩⟩

/-- A value that is given is found under its declared key, brought to its type. -/
theorem get?_validate_of_given (h : s.validate options policy = .ok o)
    (hgiven : options.get? key = some value) {spec : OptionSpec}
    (hspec : s.resolve? key = some spec) :
    ∃ coerced, spec.type.coerce value = some coerced ∧ o.get? spec.key = some coerced := by
  obtain ⟨checked, values, hchecked, hvalues, rfl⟩ := validate_eq_ok_iff.mp h
  obtain ⟨coerced, hcoerced, hvalue⟩ := get?_checkOptions_of_given hchecked hgiven hspec
  refine ⟨coerced, hcoerced, ?_⟩
  rw [ValidOptions.get?, get?_fillDefaults hvalues, hvalue]
  rfl

/-- Under a key that is not given, the first default that is declared for it is found. -/
theorem get?_validate_of_not_supplies (h : s.validate options policy = .ok o)
    (hnot : ¬ s.Supplies options key) :
    o.get? key = s.specs.findSome? fun spec => if spec.key = key then spec.default? else none := by
  obtain ⟨checked, values, hchecked, hvalues, rfl⟩ := validate_eq_ok_iff.mp h
  rw [ValidOptions.get?, get?_fillDefaults hvalues,
    get?_checkOptions_of_not_supplies hchecked hnot]
  rfl

/-! ### Schemas with one key for each option -/

/-- A schema in which every option has one key and every key one option. -/
structure Plain (s : OptionSchema) : Prop where
  aliases : ∀ spec ∈ s.specs, spec.aliases = []
  nodup : (s.specs.map OptionSpec.key).Nodup

namespace Plain

variable {spec : OptionSpec}

theorem eq_of_key_eq (hs : s.Plain) {other : OptionSpec} (hspec : spec ∈ s.specs)
    (hother : other ∈ s.specs) (hkey : spec.key = other.key) : spec = other :=
  List.inj_on_of_nodup_map hs.nodup hspec hother hkey

theorem resolve?_eq_some_iff (hs : s.Plain) :
    s.resolve? key = some spec ↔ spec ∈ s.specs ∧ spec.key = key := by
  have hmatches : ∀ spec ∈ s.specs, (spec.matchesKey key = true ↔ spec.key = key) := by
    intro spec hmem
    simp [OptionSpec.matchesKey, hs.aliases spec hmem]
  have hresolved {spec : OptionSpec} (h : s.resolve? key = some spec) :
      spec ∈ s.specs ∧ spec.key = key := by
    have hmem := List.mem_of_find?_eq_some h
    exact ⟨hmem, (hmatches spec hmem).mp (by simpa using List.find?_some h)⟩
  refine ⟨hresolved, ?_⟩
  · rintro ⟨hmem, hkey⟩
    have hfound : (s.resolve? key).isSome = true :=
      List.find?_isSome.mpr ⟨spec, hmem, (hmatches spec hmem).mpr hkey⟩
    obtain ⟨other, hother⟩ := Option.isSome_iff_exists.mp hfound
    obtain ⟨hmem', hkey'⟩ := hresolved hother
    rw [hs.eq_of_key_eq hmem hmem' (hkey.trans hkey'.symm)]
    exact hother

/-- No two options of a statement stand apart in such a schema. -/
theorem apart (hs : s.Plain) (options : OptionMap) : options.entries.Pairwise s.Apart := by
  refine (List.pairwise_map.mp (KeyMap.keys_nodup options)).imp ?_
  rintro e e' hne spec spec' hspec hspec' hsame
  rw [hs.resolve?_eq_some_iff] at hspec hspec'
  exact hne (hspec.2.symm.trans (hsame.trans hspec'.2))

/-- In such a schema an option is given under its own key. -/
theorem supplies_iff (hs : s.Plain) (hspec : spec ∈ s.specs) :
    s.Supplies options spec.key ↔ options.contains spec.key = true := by
  rw [KeyMap.contains, Option.isSome_iff_exists]
  constructor
  · rintro ⟨written, value, other, hgiven, hother, hkey⟩
    obtain ⟨-, hwritten⟩ := hs.resolve?_eq_some_iff.mp hother
    exact ⟨value, by rw [← hkey, hwritten, hgiven]⟩
  · rintro ⟨value, hgiven⟩
    exact ⟨spec.key, value, spec, hgiven, hs.resolve?_eq_some_iff.mpr ⟨hspec, rfl⟩, rfl⟩

/-- The default that is filled in for a key is that of its only option. -/
theorem findSome?_default (hs : s.Plain) (hspec : spec ∈ s.specs) :
    (s.specs.findSome? fun other => if other.key = spec.key then other.default? else none) =
      spec.default? := by
  have hone : ∀ other ∈ s.specs, (if other.key = spec.key then other.default? else none) =
      if other.key = spec.key then spec.default? else none := fun other hother => by
    split
    · rename_i hkey
      rw [hs.eq_of_key_eq hother hspec hkey]
    · rfl
  cases hdefault : spec.default? with
  | none =>
      refine List.findSome?_eq_none_iff.mpr fun other hother => ?_
      rw [hone other hother, hdefault, ite_self]
  | some value =>
      have hsome : (s.specs.findSome? fun other =>
          if other.key = spec.key then other.default? else none).isSome = true := by
        rw [List.findSome?_isSome_iff]
        exact ⟨spec, hspec, by rw [if_pos rfl, hdefault]; rfl⟩
      obtain ⟨first, hfirst⟩ := Option.isSome_iff_exists.mp hsome
      obtain ⟨other, hother, hvalue⟩ := List.exists_of_findSome?_eq_some hfirst
      rw [hone other hother, hdefault] at hvalue
      split at hvalue
      · rw [hfirst, ← hvalue]
      · cases hvalue

/-- What is found in valid options: the value that is given, brought to its type, or else the
default. -/
theorem get?_validate (hs : s.Plain) (h : s.validate options policy = .ok o)
    (hspec : s.resolve? key = some spec) :
    o.get? key =
      match options.get? key with
      | some value => spec.type.coerce value
      | none => spec.default? := by
  obtain ⟨hmem, rfl⟩ := hs.resolve?_eq_some_iff.mp hspec
  cases hgiven : options.get? spec.key with
  | some value =>
      obtain ⟨coerced, hcoerced, hvalue⟩ := get?_validate_of_given h hgiven hspec
      exact hvalue.trans hcoerced.symm
  | none =>
      have hnot : ¬ s.Supplies options spec.key := by
        rw [hs.supplies_iff hmem, KeyMap.contains, hgiven]
        exact Bool.false_ne_true
      rw [get?_validate_of_not_supplies h hnot, hs.findSome?_default hmem]

/-- The options are valid if each is admitted and all that must be given are there. -/
theorem exists_validate_iff (hs : s.Plain) :
    (∃ o, s.validate options policy = .ok o) ↔
      (∀ key value, options.get? key = some value → s.Admits policy key value) ∧
        ∀ spec ∈ s.specs, spec.isRequired = true → options.contains spec.key = true := by
  have hadmits : (∀ e ∈ options.entries, s.Admits policy e.1 e.2) ↔
      ∀ key value, options.get? key = some value → s.Admits policy key value := by
    simp only [KeyMap.get?_eq_some_iff, Prod.forall]
  have hrequired : (∀ spec ∈ s.specs, spec.isRequired = true → s.Supplies options spec.key) ↔
      ∀ spec ∈ s.specs, spec.isRequired = true → options.contains spec.key = true :=
    forall₂_congr fun spec hspec => imp_congr_right fun _ => hs.supplies_iff hspec
  rw [exists_validate_iff_allGiven, allGiven_iff_of_nodup hs.nodup, hadmits, hrequired]
  exact ⟨fun h => ⟨h.1, h.2.2⟩, fun h => ⟨h.1, hs.apart options, h.2⟩⟩

end Plain

end OptionSchema

end BatchTransfer
