import BatchTransfer.Proofs.Options.Acceptance
import BatchTransfer.Registry.BuiltIn

/-!
# Options that are checked again

A value that is brought to a type is of the type, and then stays as it is
(`OptionType.coerce_coerced`). Where every declared key stands for its own declaration and every
default has its type, the outcome of a validation is itself a set of options, each under its declared
key and of its type. So it is accepted, and stays as it is: this is the main theorem,
`OptionSchema.validates_again`, with the schemas of the connectors that are there from the start as
instances.
-/

namespace BatchTransfer

open BatchTransfer.Text

/-! ### Values that have been brought to a type -/

namespace OptionType

/-- Texts that are equal up to letter case take the same choice. -/
theorem chooseFrom?_congr {s t : String} (h : equalFold s t = true) (choices : List String) :
    chooseFrom? choices s = chooseFrom? choices t := by
  rw [equalFold, beq_iff_eq] at h
  simp only [chooseFrom?, equalFold, h]

/-- A choice that is taken takes itself, even where others equal it up to letter case. -/
theorem chooseFrom?_chosen {choices : List String} {s choice : String}
    (h : chooseFrom? choices s = some choice) : chooseFrom? choices choice = some choice := by
  rw [chooseFrom?_congr (List.find?_some (p := (equalFold · s)) h) choices]
  exact h

/-- Whether a value is a text. -/
def isString : OptionValue → Bool
  | .string _ => true
  | _ => false

/-- Whether a value is of a type as it is. -/
def has : OptionType → OptionValue → Bool
  | string, .string _ => true
  | integer, .integer _ => true
  | float, .float _ => true
  | boolean, .boolean _ => true
  | stringList, .list items => items.all isString
  | records, .list items => items.all isObject
  | oneOf choices, .string s => chooseFrom? choices s == some s
  | _, _ => false

variable {type : OptionType} {value coerced : OptionValue}

theorem has_strings (texts : List String) : stringList.has (.strings texts) = true := by
  rw [OptionValue.strings, has, List.all_map]
  exact List.all_eq_true.mpr fun _ _ => rfl

/-- A value that is brought to a type is of the type. -/
theorem has_of_coerce (h : type.coerce value = some coerced) : type.has coerced = true := by
  cases type with
  | string =>
      obtain ⟨text, -, rfl⟩ := Option.map_eq_some_iff.mp h
      rfl
  | integer =>
      cases value with
      | integer i =>
          cases h
          rfl
      | string s =>
          obtain ⟨i, -, rfl⟩ := Option.map_eq_some_iff.mp h
          rfl
      | _ => cases h
  | float =>
      cases value with
      | float x =>
          cases h
          rfl
      | integer i =>
          cases h
          rfl
      | string s =>
          obtain ⟨x, -, rfl⟩ := Option.map_eq_some_iff.mp h
          rfl
      | _ => cases h
  | boolean =>
      cases value with
      | boolean b =>
          cases h
          rfl
      | string s =>
          obtain ⟨b, -, rfl⟩ := Option.map_eq_some_iff.mp h
          rfl
      | _ => cases h
  | stringList =>
      cases value with
      | string s =>
          cases h
          exact has_strings [s]
      | list items =>
          obtain ⟨texts, -, rfl⟩ := Option.map_eq_some_iff.mp h
          exact has_strings texts
      | _ => cases h
  | records =>
      cases value with
      | list items =>
          rw [coerce] at h
          split at h
          · rename_i hobjects
            cases h
            exact hobjects
          · cases h
      | _ => cases h
  | oneOf choices =>
      cases value with
      | string s =>
          obtain ⟨choice, hchoice, rfl⟩ := Option.map_eq_some_iff.mp h
          exact beq_iff_eq.mpr (chooseFrom?_chosen hchoice)
      | _ => cases h

theorem exists_strings {items : List OptionValue} (h : items.all isString = true) :
    ∃ texts : List String, items = texts.map .string := by
  induction items with
  | nil => exact ⟨[], rfl⟩
  | cons item items ih =>
      rw [List.all_cons, Bool.and_eq_true] at h
      obtain ⟨texts, rfl⟩ := ih h.2
      cases item with
      | string text => exact ⟨text :: texts, rfl⟩
      | _ => cases h.1

/-- A value that is of a type stays as it is when it is brought to the type. -/
theorem coerce_of_has (h : type.has value = true) : type.coerce value = some value := by
  revert h
  fun_cases has type value with
  | case5 items =>
      intro h
      obtain ⟨texts, rfl⟩ := exists_strings h
      exact coerce_strings texts
  | case6 items =>
      intro h
      exact if_pos h
  | case7 choices s =>
      intro h
      rw [coerce, beq_iff_eq.mp h]
      rfl
  | case8 =>
      intro h
      cases h
  | _ => exact fun _ => rfl

/-- To bring a value to a type a second time changes nothing. -/
theorem coerce_coerced (h : type.coerce value = some coerced) : type.coerce coerced = some coerced :=
  coerce_of_has (has_of_coerce h)

end OptionType

/-- The keys under which an option may be written. -/
def OptionSpec.keys (spec : OptionSpec) : List String := spec.key :: spec.aliases

theorem OptionSpec.matchesKey_iff {spec : OptionSpec} {key : String} :
    spec.matchesKey key = true ↔ key ∈ spec.keys := by
  rw [matchesKey, Bool.or_eq_true, beq_iff_eq, List.contains_iff_mem, keys, List.mem_cons, eq_comm]

/-! ### The outcome of a validation as options -/

namespace OptionSchema

/-- A schema in which every declared key stands for its own declaration and every default has the
type of its option. -/
structure Consistent (s : OptionSchema) : Prop where
  resolves : ∀ spec ∈ s.specs, s.resolve? spec.key = some spec
  default_typed : ∀ spec ∈ s.specs, ∀ value, spec.default? = some value →
    spec.type.coerce value = some value

variable {s : OptionSchema} {policy : UnknownOptionPolicy} {options : OptionMap} {o : ValidOptions}
  {key : String} {value : OptionValue}

/-- A schema is consistent if no key stands for two options and every default is of its type. -/
theorem Consistent.of_nodup (hkeys : (s.specs.flatMap OptionSpec.keys).Nodup)
    (hdefaults : ∀ spec ∈ s.specs, spec.default?.all spec.type.has = true) : s.Consistent := by
  refine ⟨?_, fun spec hspec value hvalue => ?_⟩
  · clear hdefaults
    unfold resolve?
    generalize s.specs = specs at hkeys
    induction specs with
    | nil => nofun
    | cons first specs ih =>
        rw [List.flatMap_cons, List.nodup_append] at hkeys
        obtain ⟨-, hrest, hapart⟩ := hkeys
        intro spec hspec
        rcases List.mem_cons.mp hspec with rfl | hspec
        · exact List.find?_cons_of_pos (OptionSpec.matchesKey_iff.mpr List.mem_cons_self)
        · rw [List.find?_cons_of_neg, ih hrest spec hspec]
          intro hmatches
          exact hapart _ (OptionSpec.matchesKey_iff.mp hmatches) _
            (List.mem_flatMap.mpr ⟨spec, hspec, List.mem_cons_self⟩) rfl
  · have htyped := hdefaults spec hspec
    rw [hvalue] at htyped
    exact OptionType.coerce_of_has htyped

theorem mem_of_resolve? {spec : OptionSpec} (h : s.resolve? key = some spec) : spec ∈ s.specs :=
  List.mem_of_find?_eq_some h

namespace Consistent

variable (hs : s.Consistent) (ho : s.validate options policy = .ok o)

include hs ho

/-- What is found in valid options is of the type of the option that is declared under its key, and
for which the key stands. -/
theorem exists_spec (hfound : o.get? key = some value) :
    ∃ spec, s.resolve? key = some spec ∧ spec.key = key ∧
      spec.type.coerce value = some value := by
  by_cases hsupplied : s.Supplies options key
  · obtain ⟨written, given, spec, hgiven, hspec, rfl⟩ := hsupplied
    obtain ⟨coerced, hcoerced, hvalue⟩ := get?_validate_of_given ho hgiven hspec
    cases hvalue.symm.trans hfound
    exact ⟨spec, hs.resolves spec (mem_of_resolve? hspec), rfl, OptionType.coerce_coerced hcoerced⟩
  · rw [get?_validate_of_not_supplies ho hsupplied] at hfound
    obtain ⟨spec, hmem, hdefault⟩ := List.exists_of_findSome?_eq_some hfound
    split at hdefault
    · rename_i hkey
      subst hkey
      exact ⟨spec, hs.resolves spec hmem, rfl, hs.default_typed spec hmem value hdefault⟩
    · cases hdefault

/-- As options, valid options supply the keys under which they hold something. -/
theorem supplies_iff : s.Supplies o.values key ↔ ∃ value, o.get? key = some value := by
  constructor
  · rintro ⟨written, value, spec, hfound, hspec, rfl⟩
    obtain ⟨spec', hspec', rfl, -⟩ := hs.exists_spec ho hfound
    cases hspec.symm.trans hspec'
    exact ⟨value, hfound⟩
  · rintro ⟨value, hfound⟩
    obtain ⟨spec, hspec, hkey, -⟩ := hs.exists_spec ho hfound
    exact ⟨key, value, spec, hfound, hspec, hkey⟩

/-- Valid options are accepted as options. -/
theorem exists_validate (policy' : UnknownOptionPolicy) :
    ∃ again, s.validate o.values policy' = .ok again := by
  obtain ⟨-, -, hgiven⟩ := exists_validate_iff_allGiven.mp ⟨o, ho⟩
  refine exists_validate_iff_allGiven.mpr ⟨?_, ?_, ?_⟩
  · intro e he
    obtain ⟨spec, hspec, -, htyped⟩ := hs.exists_spec ho (KeyMap.get?_eq_some_iff.mpr he)
    exact .declared hspec htyped
  · refine pairwise_apart_iff.mpr ?_
    intro first second value value' spec spec' hfirst hsecond hspec hspec' hsame
    obtain ⟨found, hfound, rfl, -⟩ := hs.exists_spec ho hfirst
    obtain ⟨found', hfound', rfl, -⟩ := hs.exists_spec ho hsecond
    cases hspec.symm.trans hfound
    cases hspec'.symm.trans hfound'
    exact hsame
  · intro before spec after hsplit hrequired
    have hmem {other : OptionSpec} (h : other ∈ spec :: before) : other ∈ s.specs := by
      rw [hsplit, List.mem_append]
      rcases List.mem_cons.mp h with rfl | h
      · exact .inr List.mem_cons_self
      · exact .inl h
    rw [hs.supplies_iff ho]
    rcases hgiven before spec after hsplit hrequired with hsupplied | ⟨earlier, hearlier, hkey, hsome⟩
    · obtain ⟨written, given, other, hgiven, hother, hkey⟩ := hsupplied
      obtain ⟨coerced, -, hfound⟩ := get?_validate_of_given ho hgiven hother
      exact .inl ⟨coerced, hkey ▸ hfound⟩
    · -- Both are the declaration that the key stands for, so the default is that of a required one.
      have hsame := hs.resolves earlier (hmem (List.mem_cons_of_mem _ hearlier))
      rw [hkey, hs.resolves spec (hmem List.mem_cons_self)] at hsame
      cases hsame
      exact .inr ⟨spec, hearlier, rfl, hsome⟩

/-- Valid options stay as they are when they are checked again. -/
theorem validate_values (policy' : UnknownOptionPolicy) :
    s.validate o.values policy' = .ok o := by
  obtain ⟨again, hagain⟩ := hs.exists_validate ho policy'
  rw [hagain, Except.ok.injEq]
  have hkind {options : OptionMap} {policy : UnknownOptionPolicy} {o : ValidOptions}
      (ho : s.validate options policy = .ok o) : o.kind = s.kind := by
    obtain ⟨checked, values, -, -, rfl⟩ := validate_eq_ok_iff.mp ho
    rfl
  have hget (key : String) : again.get? key = o.get? key := by
    cases hfound : o.get? key with
    | some value =>
        obtain ⟨spec, hspec, rfl, htyped⟩ := hs.exists_spec ho hfound
        obtain ⟨coerced, hcoerced, hvalue⟩ := get?_validate_of_given hagain hfound hspec
        rw [hvalue, ← hcoerced, htyped]
    | none =>
        have hnot : ¬ s.Supplies o.values key := by
          rw [hs.supplies_iff ho, hfound]
          rintro ⟨value, ⟨⟩⟩
        have hnot' : ¬ s.Supplies options key := by
          rintro ⟨written, given, spec, hgiven, hspec, rfl⟩
          obtain ⟨coerced, -, hvalue⟩ := get?_validate_of_given ho hgiven hspec
          cases hvalue.symm.trans hfound
        rw [get?_validate_of_not_supplies hagain hnot, ← get?_validate_of_not_supplies ho hnot',
          hfound]
  have hvalues : again.values = o.values := KeyMap.ext_get? hget
  obtain ⟨kind, values⟩ := again
  obtain ⟨kind', values'⟩ := o
  cases hvalues
  rw [show kind = kind' from (hkind hagain).trans (hkind ho).symm]

end Consistent

/-- The schemas of the connectors that are there from the start are consistent. -/
theorem consistent_of_builtIn {role : Role} {kind : String}
    (h : ConnectorRegistry.builtIn.schema? role kind = some s) : s.Consistent := by
  simp only [ConnectorRegistry.builtIn, Registry.addSource, Registry.addSink, Registry.empty,
    Registry.schema?, KeyMap.get?_insert, KeyMap.get?_empty] at h
  cases role
  all_goals
    dsimp only at h
    repeat' split at h
    all_goals cases h
    all_goals exact .of_nodup (by decide) (by decide)

/-- To validate twice is to validate once. A value that has been brought to a type stays as it is when
it is brought to it again. Where every declared key stands for its own declaration and every default
is of its type, the outcome of a validation is accepted as options of a statement, whatever is to be
done with unknown ones, and is its own outcome. The schemas of the connectors that are there from the
start are of this kind. -/
theorem validates_again :
    (∀ (type : OptionType) (value coerced : OptionValue), type.coerce value = some coerced →
      type.coerce coerced = some coerced) ∧
    (∀ s : OptionSchema, s.Consistent → ∀ options policy o, s.validate options policy = .ok o →
      ∀ policy', s.validate o.values policy' = .ok o) ∧
    ∀ role kind s, ConnectorRegistry.builtIn.schema? role kind = some s → s.Consistent :=
  ⟨fun _ _ _ => OptionType.coerce_coerced,
    fun _ hs _ _ _ ho policy' => hs.validate_values ho policy',
    fun _ _ _ => consistent_of_builtIn⟩

/-- Two choices that are equal up to letter case. -/
def appendChoices : OptionType := .oneOf ["append", "APPEND"]

/-- A schema with such choices, a second key for an option, and defaults. -/
def respelledSchema : OptionSchema :=
  ((OptionSchema.new "table").optional "saveMode" appendChoices "Mode" |>.withAlias "mode").withDefault
    "port" .integer (.integer 3306) "Port"
  |>.withColumns

/-- Options in another spelling than the schema has them. -/
def respelledOptions : OptionMap :=
  (KeyMap.empty.insert "mode" (.string "Append")).insert columnsKey (.string "id")

/-- The first of the two choices is taken, be it from the statement or from the outcome. -/
theorem validates_again_respelled :
    (appendChoices.coerce (.string "Append") = some (.string "append") ∧
      appendChoices.coerce (.string "append") = some (.string "append")) ∧
    respelledSchema.Consistent ∧
    ∃ o, respelledSchema.validate respelledOptions .reject = .ok o ∧
      o.get? "saveMode" = some (.string "append") ∧ o.get? "port" = some (.integer 3306) ∧
      o.get? columnsKey = some (.list [.string "id"]) ∧
      respelledSchema.validate o.values .reject = .ok o ∧
      respelledSchema.validate o.values .warn = .ok o := by
  obtain ⟨hcoerced, hagain, -⟩ := validates_again
  have hconsistent : respelledSchema.Consistent := .of_nodup (by decide) (by decide)
  obtain ⟨o, ho⟩ : ∃ o, respelledSchema.validate respelledOptions .reject = .ok o := ⟨_, rfl⟩
  have hfirst : appendChoices.coerce (.string "Append") = some (.string "append") := rfl
  refine ⟨⟨hfirst, hcoerced _ _ _ hfirst⟩, hconsistent, o, ho, ?_, ?_, ?_,
    hagain _ hconsistent _ _ o ho .reject, hagain _ hconsistent _ _ o ho .warn⟩
  all_goals
    cases ho
    rfl

end OptionSchema

end BatchTransfer
