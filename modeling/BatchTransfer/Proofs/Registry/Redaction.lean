import BatchTransfer.Registry.Basic

/-!
# What plans show of their secrets

Two plans that differ in nothing but values that must not be shown are redacted to the same plan,
and a plan keeps everything else (`Registry.hides_secrets`). Their options are checked with the
same outcome as well, if secrets are texts and have the same types: the check looks a key up once,
by `OptionSchema.resolve?`, and both the redaction and the wording of an error go by the
declaration that it finds.
-/

namespace BatchTransfer

/-- Whether two computations fail with the same errors, and yield related values where both
succeed. -/
structure SameOutcome {ε α : Type} (related : α → α → Prop) (x y : Except ε α) : Prop where
  error_iff : ∀ e, x = .error e ↔ y = .error e
  related_of_ok : ∀ a b, x = .ok a → y = .ok b → related a b

namespace SameOutcome

variable {ε α : Type} {related : α → α → Prop}

theorem error (e : ε) : SameOutcome related (.error e) (.error e) :=
  ⟨fun _ => Iff.rfl, nofun⟩

theorem ok {a b : α} (h : related a b) : SameOutcome (ε := ε) related (.ok a) (.ok b) := by
  refine ⟨fun e => ⟨nofun, nofun⟩, ?_⟩
  rintro _ _ ⟨⟩ ⟨⟩
  exact h

/-- Two computations with the same outcome fail alike or succeed alike. -/
theorem cases {x y : Except ε α} (h : SameOutcome related x y) :
    (∃ e, x = .error e ∧ y = .error e) ∨ ∃ a b, x = .ok a ∧ y = .ok b ∧ related a b := by
  cases hx : x with
  | error e => exact .inl ⟨e, rfl, (h.error_iff e).mp hx⟩
  | ok a =>
      cases hy : y with
      | error e => cases hx.symm.trans ((h.error_iff e).mpr hy)
      | ok b => exact .inr ⟨a, b, rfl, rfl, h.related_of_ok a b hx hy⟩

end SameOutcome

namespace OptionSchema

variable {s : OptionSchema}

theorem isSensitive_of_resolve? {key : String} {spec : OptionSpec}
    (h : s.resolve? key = some spec) : s.isSensitive key = spec.sensitive := by
  simp [isSensitive, h]

/-- Two values under one key that are told apart by nobody who may not see secrets: they are the
same, or both are secret and of the same type. -/
def Indistinct (s : OptionSchema) (key : String) (v w : OptionValue) : Prop :=
  v = w ∨ s.isSensitive key = true ∧ v.typeName = w.typeName

/-- Whether all options whose values must not be shown are declared as texts. -/
def HasTextSecrets (s : OptionSchema) : Prop :=
  ∀ spec ∈ s.specs, spec.sensitive = true → spec.type = .string

/-- Whether a value has a text is told by its type. -/
theorem textOf?_isSome (v : OptionValue) :
    (OptionType.textOf? v).isSome = (!(["list", "object"].contains v.typeName)) := by
  cases v <;> rfl

/-- Values that are not told apart are brought to the declared type both or neither, and are
described alike where they are rejected. -/
theorem coerce_congr {key : String} {spec : OptionSpec} {v w : OptionValue}
    (htext : s.HasTextSecrets) (hspec : s.resolve? key = some spec) (h : s.Indistinct key v w) :
    (spec.type.coerce v).isSome = (spec.type.coerce w).isSome ∧
      describeFound spec v = describeFound spec w := by
  rcases h with rfl | ⟨hsensitive, htype⟩
  · exact ⟨rfl, rfl⟩
  · -- The declaration asks for a text, and whether a value has one is told by its type.
    rw [isSensitive_of_resolve? hspec] at hsensitive
    have hstring : spec.type = .string := htext spec (List.mem_of_find?_eq_some hspec) hsensitive
    constructor
    · rw [hstring]
      simp only [OptionType.coerce, Option.isSome_map, textOf?_isSome, htype]
    · simp [describeFound, hsensitive, htype]

/-- What has been checked so far is under the same keys, written in the same way. -/
def SameKeys (a b : CheckedOptions) : Prop :=
  a.writtenAs = b.writtenAs ∧ ∀ key, a.values.contains key = b.values.contains key

variable {policy : UnknownOptionPolicy} {a b : CheckedOptions}

/-- One option is checked with the same outcome under either of two values that are not told
apart. -/
theorem checkOption_congr (htext : s.HasTextSecrets) (hchecked : SameKeys a b) {key : String}
    {v w : OptionValue} (h : s.Indistinct key v w) :
    SameOutcome SameKeys (s.checkOption policy a key v) (s.checkOption policy b key w) := by
  unfold checkOption
  cases hspec : s.resolve? key with
  | none =>
      cases policy with
      | reject => exact .error _
      | warn => exact .ok hchecked
  | some spec =>
      obtain ⟨hwritten, hkeys⟩ := hchecked
      -- Whether the option is given twice goes by the keys as they are written, on both sides.
      simp only [hwritten]
      cases b.writtenAs.get? spec.key with
      | some earlier => exact .error _
      | none =>
          obtain ⟨hcoerce, hfound⟩ := coerce_congr htext hspec h
          cases hv : spec.type.coerce v with
          | none =>
              have hw : spec.type.coerce w = none := by simpa [hv] using hcoerce
              simp only [hw, hfound]
              exact .error _
          | some coerced =>
              obtain ⟨coerced', hw⟩ :=
                Option.isSome_iff_exists.mp (hcoerce.symm.trans (by rw [hv]; rfl))
              simp only [hw]
              refine .ok ⟨rfl, fun other => ?_⟩
              have hother := hkeys other
              simp only [KeyMap.contains, KeyMap.get?_insert] at hother ⊢
              split
              · rfl
              · exact hother

/-- Options under the same keys are checked with the same outcome, if under every key the values are
not told apart. -/
theorem checkOptions_congr (htext : s.HasTextSecrets) (hchecked : SameKeys a b)
    {entries entries' : List (String × OptionValue)}
    (hkeys : entries.map Prod.fst = entries'.map Prod.fst)
    (hvalues : ∀ key v w, (key, v) ∈ entries → (key, w) ∈ entries' → s.Indistinct key v w) :
    SameOutcome SameKeys (s.checkOptions policy a entries) (s.checkOptions policy b entries') := by
  induction entries generalizing entries' a b with
  | nil =>
      rw [List.map_eq_nil_iff.mp hkeys.symm]
      exact .ok hchecked
  | cons entry entries ih =>
      obtain ⟨key, v⟩ := entry
      cases entries' with
      | nil => cases hkeys
      | cons entry' entries' =>
          obtain ⟨key', w⟩ := entry'
          obtain ⟨rfl, htail⟩ := List.cons.inj hkeys
          have hfirst : SameOutcome SameKeys (s.checkOption policy a key v)
              (s.checkOption policy b key w) :=
            checkOption_congr htext hchecked
              (hvalues key v w (List.mem_cons_self ..) (List.mem_cons_self ..))
          rcases hfirst.cases with ⟨e, hv, hw⟩ | ⟨a', b', hv, hw, hnext⟩
          · simp only [checkOptions, hv, hw]
            exact .error e
          · simp only [checkOptions, hv, hw]
            exact ih hnext htail fun k x y hx hy =>
              hvalues k x y (List.mem_cons_of_mem _ hx) (List.mem_cons_of_mem _ hy)

/-- Which defaults are filled in, and which options are missing, is told by the keys that have a
value. -/
theorem fillDefaults_congr {kind : String} {specs : List OptionSpec} {x y : OptionMap}
    (h : ∀ key, x.contains key = y.contains key) :
    SameOutcome (fun _ _ => True) (fillDefaults kind x specs) (fillDefaults kind y specs) := by
  induction specs generalizing x y with
  | nil => exact .ok trivial
  | cons spec specs ih =>
      unfold fillDefaults
      rw [h spec.key]
      split
      · exact ih h
      · split
        · refine ih fun key => ?_
          have hkey := h key
          simp only [KeyMap.contains, KeyMap.get?_insert] at hkey ⊢
          split
          · rfl
          · exact hkey
        · exact .error _
        · exact ih h

/-- Options that differ in secrets only are rejected with the same errors. -/
theorem validate_congr (htext : s.HasTextSecrets) {options options' : OptionMap}
    (hkeys : options.keys = options'.keys)
    (hvalues : ∀ key v w, options.get? key = some v → options'.get? key = some w →
      s.Indistinct key v w) (e : OptionsError) :
    s.validate options policy = .error e ↔ s.validate options' policy = .error e := by
  have hchecked : SameOutcome SameKeys (s.checkOptions policy default options.entries)
      (s.checkOptions policy default options'.entries) :=
    checkOptions_congr htext ⟨rfl, fun _ => rfl⟩ hkeys fun key v w hv hw =>
      hvalues key v w (KeyMap.get?_eq_some_iff.mpr hv) (KeyMap.get?_eq_some_iff.mpr hw)
  unfold validate
  rcases hchecked.cases with ⟨e', hv, hw⟩ | ⟨x, y, hv, hw, -, hcontains⟩
  · simp only [hv, hw]
  · simp only [hv, hw]
    have hfilled : SameOutcome (fun _ _ => True) (fillDefaults s.kind x.values s.specs)
        (fillDefaults s.kind y.values s.specs) := fillDefaults_congr hcontains
    rcases hfilled.cases with ⟨e', hx, hy⟩ | ⟨_, _, hx, hy, -⟩
    · simp only [hx, hy]
    · simp only [hx, hy, reduceCtorEq]

end OptionSchema

namespace Registry

variable {σ τ : Type}

/-- Whether the value of an option of a kind must not be shown. Nothing is known of a kind that is
not registered. -/
def isSensitive (r : Registry σ τ) (role : Role) (kind key : String) : Bool :=
  (r.schema? role kind).any (·.isSensitive key)

/-- Whether two plans differ in values that must not be shown, and in nothing else. -/
structure AgreeOutsideSecrets (r : Registry σ τ) (p q : Plan) : Prop where
  kind : ∀ role, (p.endpoint role).kind = (q.endpoint role).kind
  keys : ∀ role, (p.endpoint role).options.keys = (q.endpoint role).options.keys
  resultTable : p.resultTable = q.resultTable
  values : ∀ role key, r.isSensitive role (p.endpoint role).kind key = false →
    (p.endpoint role).options.get? key = (q.endpoint role).options.get? key

/-- What redaction leaves under a key. -/
theorem get?_redactOptions (r : Registry σ τ) (role : Role) (e : Endpoint) (key : String) :
    (r.redactOptions role e).get? key =
      if r.isSensitive role e.kind key then (e.options.get? key).map fun _ => .string redactedText
      else e.options.get? key := by
  unfold redactOptions isSensitive
  cases r.schema? role e.kind with
  | none => rfl
  | some schema =>
      simp only [OptionSchema.redact, KeyMap.get?_map, Option.any_some]
      split <;> simp

theorem keys_redactOptions (r : Registry σ τ) (role : Role) (e : Endpoint) :
    (r.redactOptions role e).keys = e.options.keys := by
  unfold redactOptions
  cases r.schema? role e.kind with
  | none => rfl
  | some schema => exact KeyMap.keys_map _ _

theorem endpoint_redact (r : Registry σ τ) (p : Plan) (role : Role) :
    (r.redact p).endpoint role =
      ⟨(p.endpoint role).kind, r.redactOptions role (p.endpoint role)⟩ := by
  cases role <;> rfl

/-- A plan is determined by its two sides and its result table. -/
theorem plan_ext {p q : Plan} (h : ∀ role, p.endpoint role = q.endpoint role)
    (htable : p.resultTable = q.resultTable) : p = q := by
  obtain ⟨source, sink, table⟩ := p
  cases h .source
  cases h .sink
  cases htable
  rfl

/-- Options that differ in secrets only are redacted to the same options. -/
theorem redactOptions_congr {r : Registry σ τ} {p q : Plan} (h : r.AgreeOutsideSecrets p q)
    (role : Role) :
    r.redactOptions role (p.endpoint role) = r.redactOptions role (q.endpoint role) := by
  refine KeyMap.ext_get? fun key => ?_
  rw [get?_redactOptions, get?_redactOptions, ← h.kind role]
  split
  · -- A secret is replaced by the same text, if there is one at all.
    have hpresent : (∃ v, (p.endpoint role).options.get? key = some v) ↔
        ∃ v, (q.endpoint role).options.get? key = some v := by
      rw [← KeyMap.mem_keys_iff, ← KeyMap.mem_keys_iff, h.keys role]
    cases hp : (p.endpoint role).options.get? key <;>
      cases hq : (q.endpoint role).options.get? key <;> simp [hp, hq] at hpresent ⊢
  · exact h.values role key (eq_false_of_ne_true ‹_›)

theorem redact_congr {r : Registry σ τ} {p q : Plan} (h : r.AgreeOutsideSecrets p q) :
    r.redact p = r.redact q := by
  refine plan_ext (fun role => ?_) h.resultTable
  rw [endpoint_redact, endpoint_redact, h.kind role, redactOptions_congr h role]

/-- Plans that differ in secrets only are redacted to the same plan, so that their canonical
statements and their JSON are the same. Redaction keeps the kinds, the result table, all keys, and
the values under all keys that are not sensitive. If sensitive options are declared as texts and
the secrets of both plans have the same types, then the options of both are accepted, or rejected
with the same error and hence with the same message. -/
theorem hides_secrets (r : Registry σ τ) :
    (∀ p q, r.AgreeOutsideSecrets p q →
      r.redact p = r.redact q ∧ (r.redact p).display = (r.redact q).display ∧
      (r.redact p).toJson = (r.redact q).toJson ∧
      ((∀ role schema, r.schema? role (p.endpoint role).kind = some schema →
          schema.HasTextSecrets) →
        (∀ role key, r.isSensitive role (p.endpoint role).kind key = true →
          ((p.endpoint role).options.get? key).map OptionValue.typeName =
            ((q.endpoint role).options.get? key).map OptionValue.typeName) →
        ∀ role schema policy e, r.schema? role (p.endpoint role).kind = some schema →
          (schema.validate (p.endpoint role).options policy = .error e ↔
            schema.validate (q.endpoint role).options policy = .error e))) ∧
    ∀ p, (r.redact p).resultTable = p.resultTable ∧
      ∀ role, ((r.redact p).endpoint role).kind = (p.endpoint role).kind ∧
        ((r.redact p).endpoint role).options.keys = (p.endpoint role).options.keys ∧
        ∀ key, r.isSensitive role (p.endpoint role).kind key = false →
          ((r.redact p).endpoint role).options.get? key = (p.endpoint role).options.get? key := by
  refine ⟨fun p q h => ⟨redact_congr h, by rw [redact_congr h], by rw [redact_congr h], ?_⟩, ?_⟩
  · intro htext htypes role schema policy e hschema
    refine schema.validate_congr (htext role schema hschema) (h.keys role)
      (fun key v w hv hw => ?_) e
    have hsensitive : r.isSensitive role (p.endpoint role).kind key = schema.isSensitive key := by
      simp [isSensitive, hschema]
    cases hsecret : schema.isSensitive key with
    | true =>
        have htype := htypes role key (hsensitive.trans hsecret)
        rw [hv, hw] at htype
        exact .inr ⟨hsecret, Option.some.inj htype⟩
    | false =>
        have hvalue := h.values role key (hsensitive.trans hsecret)
        rw [hv, hw] at hvalue
        exact .inl (Option.some.inj hvalue)
  · refine fun p => ⟨rfl, fun role => ?_⟩
    rw [endpoint_redact]
    refine ⟨rfl, keys_redactOptions r role _, fun key hopen => ?_⟩
    rw [get?_redactOptions, if_neg (by simp [hopen])]

/-- The options of a source that asks for a password. -/
def passwordSchema : OptionSchema :=
  (((OptionSchema.new "db").required "password" .string "").sensitive).withAlias "pwd"

/-- The registry of that source alone. -/
def passwordRegistry : Registry Unit Unit :=
  Registry.empty.addSource "db" ⟨passwordSchema, fun _ _ => .ok ()⟩

/-- A plan with a password, which is written under its other key. -/
def passwordPlan (password : OptionValue) : Plan :=
  ⟨⟨"db", KeyMap.empty.insert "pwd" password⟩, ⟨"log", .empty⟩, none⟩

theorem passwordPlan_agree (v w : OptionValue) :
    passwordRegistry.AgreeOutsideSecrets (passwordPlan v) (passwordPlan w) where
  kind role := by cases role <;> rfl
  keys role := by cases role <;> rfl
  resultTable := rfl
  values role key hopen := by
    cases role with
    | sink => rfl
    | source =>
        have hkey : key ≠ "pwd" := by
          rintro rfl
          exact Bool.noConfusion (show true = false from hopen)
        simp [passwordPlan, Plan.endpoint, hkey]

/-- Two lists of texts in the place of a password are not told apart: they are redacted alike, and
rejected with the same error. -/
theorem hides_secrets_rejectedPassword :
    let v : OptionValue := .strings ["a"]
    let w : OptionValue := .strings ["b", "c"]
    let e : OptionsError := .invalidType "db" "pwd" "string" "list"
    passwordRegistry.redact (passwordPlan v) = passwordRegistry.redact (passwordPlan w) ∧
      passwordSchema.validate (passwordPlan v).source.options .reject = .error e ∧
      passwordSchema.validate (passwordPlan w).source.options .reject = .error e := by
  obtain ⟨hagree, -⟩ := hides_secrets passwordRegistry
  obtain ⟨hredact, -, -, hvalidate⟩ :=
    hagree _ _ (passwordPlan_agree (.strings ["a"]) (.strings ["b", "c"]))
  have htext : ∀ role schema,
      passwordRegistry.schema? role ((passwordPlan (.strings ["a"])).endpoint role).kind =
        some schema → schema.HasTextSecrets := by
    rintro (_ | _) schema hschema
    · cases hschema
      simp [OptionSchema.HasTextSecrets, passwordSchema, OptionSchema.withAlias,
        OptionSchema.sensitive, OptionSchema.changeLast, OptionSchema.required,
        OptionSchema.declare, OptionSchema.new]
    · cases hschema
  have htypes : ∀ role key, passwordRegistry.isSensitive role
      ((passwordPlan (.strings ["a"])).endpoint role).kind key = true →
        (((passwordPlan (.strings ["a"])).endpoint role).options.get? key).map
            OptionValue.typeName =
          (((passwordPlan (.strings ["b", "c"])).endpoint role).options.get? key).map
            OptionValue.typeName := by
    rintro (_ | _) key -
    · simp only [passwordPlan, Plan.endpoint, KeyMap.get?_insert]
      split <;> rfl
    · rfl
  have hrejected : passwordSchema.validate (passwordPlan (.strings ["a"])).source.options .reject =
      .error (.invalidType "db" "pwd" "string" "list") := rfl
  exact ⟨hredact, hrejected, (hvalidate htext htypes .source _ _ _ rfl).mp hrejected⟩

end Registry

end BatchTransfer
