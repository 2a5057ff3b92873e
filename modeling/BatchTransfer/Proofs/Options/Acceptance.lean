import BatchTransfer.Proofs.Options.Validation
import Mathlib.Data.List.Pairwise

/-!
# What a schema accepts

A key in a statement stands for the option that it resolves to. The main theorem,
`OptionSchema.accepts_as_declared`, says of every schema which options are accepted, what is found
under each key afterwards, and that letting unknown options through is leaving them out.
-/

namespace BatchTransfer

/-- The entries of a map whose keys pass a test. -/
def KeyMap.filterKeys {α : Type} (m : KeyMap α) (p : String → Bool) : KeyMap α where
  entries := m.entries.filter fun e => p e.1
  sorted := m.sorted.sublist (List.Sublist.map _ List.filter_sublist)

namespace OptionSchema

variable {s : OptionSchema} {policy : UnknownOptionPolicy} {options : OptionMap}

/-- Every option is admitted if each key resolves or may be unknown, and each value that belongs to
an option has its type. -/
theorem forall_admits_iff : (∀ e ∈ options.entries, s.Admits policy e.1 e.2) ↔
    (∀ key value, options.get? key = some value →
      (∃ spec, s.resolve? key = some spec) ∨ policy = .warn) ∧
    ∀ key value spec, options.get? key = some value → s.resolve? key = some spec →
      ∃ coerced, spec.type.coerce value = some coerced := by
  constructor
  · intro h
    refine ⟨?_, ?_⟩
    · intro key value hgiven
      cases h _ (KeyMap.get?_eq_some_iff.mp hgiven) with
      | declared hspec => exact .inl ⟨_, hspec⟩
      | unknown _ hpolicy => exact .inr hpolicy
    · intro key value spec hgiven hspec
      exact (admits_iff hspec).mp (h _ (KeyMap.get?_eq_some_iff.mp hgiven))
  · intro h e he
    obtain ⟨hknown, htyped⟩ := h
    have hgiven : options.get? e.1 = some e.2 := KeyMap.get?_eq_some_iff.mpr he
    cases hspec : s.resolve? e.1 with
    | some spec => exact (admits_iff hspec).mpr (htyped _ _ spec hgiven hspec)
    | none =>
        rcases hknown _ _ hgiven with ⟨spec, hspec'⟩ | hpolicy
        · cases hspec.symm.trans hspec'
        · exact .unknown hspec hpolicy

/-- No two options of a statement are declared under one key if different keys in it resolve to
options of different keys. -/
theorem pairwise_apart_iff : options.entries.Pairwise s.Apart ↔
    ∀ key key' value value' spec spec', options.get? key = some value →
      options.get? key' = some value' → s.resolve? key = some spec →
      s.resolve? key' = some spec' → spec.key = spec'.key → key = key' := by
  constructor
  · intro h key key' value value' spec spec' hgiven hgiven' hspec hspec' hsame
    by_contra hne
    have hsymmetric : Std.Symm s.Apart := by
      constructor
      intro e e' hapart spec spec' hspec hspec' hkey
      exact hapart spec' spec hspec' hspec hkey.symm
    exact h.forall (KeyMap.get?_eq_some_iff.mp hgiven) (KeyMap.get?_eq_some_iff.mp hgiven')
      (fun heq => hne (congrArg Prod.fst heq)) spec spec' hspec hspec' hsame
  · intro h
    have hnodup : options.entries.Nodup := List.Nodup.of_map Prod.fst (KeyMap.keys_nodup options)
    refine hnodup.pairwise_of_forall_ne ?_
    intro e he e' he' hne spec spec' hspec hspec' hsame
    have hgiven : options.get? e.1 = some e.2 := KeyMap.get?_eq_some_iff.mpr he
    have hgiven' : options.get? e'.1 = some e'.2 := KeyMap.get?_eq_some_iff.mpr he'
    have hkey := h _ _ _ _ spec spec' hgiven hgiven' hspec hspec' hsame
    rw [← hkey, hgiven] at hgiven'
    exact hne (Prod.ext hkey (Option.some.inj hgiven'))

/-! ### Unknown options -/

/-- What to do with unknown options makes no difference to one that is declared. -/
theorem checkOption_of_resolve? {checked : CheckedOptions} {key : String} {value : OptionValue}
    {spec : OptionSpec} (hspec : s.resolve? key = some spec) (policy' : UnknownOptionPolicy) :
    s.checkOption policy checked key value = s.checkOption policy' checked key value := by
  simp only [checkOption, hspec]

theorem checkOptions_warn (checked : CheckedOptions) (entries : List (String × OptionValue)) :
    s.checkOptions .warn checked entries =
      s.checkOptions .reject checked (entries.filter fun e => (s.resolve? e.1).isSome) := by
  induction entries generalizing checked with
  | nil => rfl
  | cons e entries ih =>
      cases hspec : s.resolve? e.1 with
      | none =>
          have hpassed : s.checkOption .warn checked e.1 e.2 = .ok checked := by
            simp only [checkOption, hspec]
          rw [checkOptions, hpassed, List.filter_cons_of_neg (by simp [hspec])]
          exact ih checked
      | some spec =>
          rw [List.filter_cons_of_pos (by simp [hspec]), checkOptions, checkOptions,
            checkOption_of_resolve? hspec .reject]
          cases s.checkOption .reject checked e.1 e.2 with
          | error e => rfl
          | ok next => exact ih next

/-- To let unknown options through is to leave them out. -/
theorem validate_warn : s.validate options .warn =
    s.validate (options.filterKeys fun key => (s.resolve? key).isSome) .reject := by
  simp only [validate, checkOptions_warn]
  rfl

/-- The options of a statement are accepted if every key in it resolves to a declared option or
unknown ones are let through, no two keys resolve to options that are declared under one key, every
value can be brought to the type of its option, and every option that must be given is, be it by a
default that is declared before it for the same key. Then each value is found under the declared
key of its option, brought to its type, and under every other key the first default that is declared
for it, if there is one. To let unknown options through is to leave them out. -/
theorem accepts_as_declared (s : OptionSchema) (options : OptionMap)
    (policy : UnknownOptionPolicy) :
    ((∃ o, s.validate options policy = .ok o) ↔
      (∀ key value, options.get? key = some value →
        (∃ spec, s.resolve? key = some spec) ∨ policy = .warn) ∧
      (∀ key key' value value' spec spec', options.get? key = some value →
        options.get? key' = some value' → s.resolve? key = some spec →
        s.resolve? key' = some spec' → spec.key = spec'.key → key = key') ∧
      (∀ key value spec, options.get? key = some value → s.resolve? key = some spec →
        ∃ coerced, spec.type.coerce value = some coerced) ∧
      ∀ before spec after, s.specs = before ++ spec :: after → spec.isRequired = true →
        s.Supplies options spec.key ∨
          ∃ earlier ∈ before, earlier.key = spec.key ∧ earlier.default?.isSome = true) ∧
    (∀ o, s.validate options policy = .ok o →
      o.kind = s.kind ∧
      (∀ key value spec, options.get? key = some value → s.resolve? key = some spec →
        ∃ coerced, spec.type.coerce value = some coerced ∧ o.get? spec.key = some coerced) ∧
      ∀ key, ¬ s.Supplies options key →
        o.get? key =
          s.specs.findSome? fun spec => if spec.key = key then spec.default? else none) ∧
    s.validate options .warn =
      s.validate (options.filterKeys fun key => (s.resolve? key).isSome) .reject := by
  refine ⟨?_, ?_, validate_warn⟩
  · rw [exists_validate_iff_allGiven, forall_admits_iff, pairwise_apart_iff, AllGiven]
    constructor
    · rintro ⟨⟨hknown, htyped⟩, hapart, hgiven⟩
      exact ⟨hknown, hapart, htyped, hgiven⟩
    · rintro ⟨hknown, hapart, htyped, hgiven⟩
      exact ⟨⟨hknown, htyped⟩, hapart, hgiven⟩
  · intro o h
    refine ⟨?_, ?_, ?_⟩
    · obtain ⟨checked, values, -, -, rfl⟩ := validate_eq_ok_iff.mp h
      rfl
    · intro key value spec hgiven hspec
      exact get?_validate_of_given h hgiven hspec
    · intro key hnot
      exact get?_validate_of_not_supplies h hnot

/-- A schema with a second key for an option, and with an option that is declared again as one that
must be given. -/
def shadowedSchema : OptionSchema :=
  (((OptionSchema.new "db").required "host" .string "Server").withAlias "server").withDefault
    "port" .integer (.integer 3306) "Port"
  |>.required "port" .integer "Port"

/-- Options under the second key and under an unknown one. -/
def shadowedOptions : OptionMap :=
  (KeyMap.empty.insert "server" (.integer 7)).insert "sever" (.boolean true)

/-- The number becomes a text under the declared key, the earlier default serves the option that must
be given, and the unknown key is passed over or reported. -/
theorem accepts_as_declared_shadowed :
    (∃ o, shadowedSchema.validate shadowedOptions .warn = .ok o ∧
      o.get? "host" = some (.string "7") ∧ o.get? "port" = some (.integer 3306) ∧
      o.get? "sever" = none) ∧
    ¬ ∃ o, shadowedSchema.validate shadowedOptions .reject = .ok o := by
  refine ⟨?_, ?_⟩
  · obtain ⟨-, hfound, -⟩ := accepts_as_declared shadowedSchema shadowedOptions .warn
    obtain ⟨o, ho⟩ : ∃ o, shadowedSchema.validate shadowedOptions .warn = .ok o := ⟨_, rfl⟩
    obtain ⟨-, hgiven, hdefault⟩ := hfound o ho
    have hsupplied {key : String} (h : shadowedSchema.Supplies shadowedOptions key) :
        key = "host" := by
      obtain ⟨written, value, spec, hwritten, hspec, rfl⟩ := h
      rw [shadowedOptions, KeyMap.get?_insert, KeyMap.get?_insert] at hwritten
      split at hwritten
      · rename_i hkey
        rw [hkey] at hspec
        cases hspec
      · split at hwritten
        · rename_i hkey
          rw [hkey] at hspec
          cases hspec
          rfl
        · cases hwritten
    obtain ⟨coerced, hcoerced, hhost⟩ := hgiven "server" (.integer 7) _ rfl rfl
    refine ⟨o, ho, ?_, ?_, ?_⟩
    · rw [← hcoerced] at hhost
      exact hhost
    · exact hdefault "port" fun h => absurd (hsupplied h) (by decide)
    · exact hdefault "sever" fun h => absurd (hsupplied h) (by decide)
  · obtain ⟨haccepted, -, -⟩ := accepts_as_declared shadowedSchema shadowedOptions .reject
    rw [haccepted]
    intro h
    rcases h.1 "sever" (.boolean true) rfl with ⟨spec, hspec⟩ | hpolicy
    · cases hspec
    · cases hpolicy

end OptionSchema

end BatchTransfer
