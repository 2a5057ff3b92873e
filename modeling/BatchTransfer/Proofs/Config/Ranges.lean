import BatchTransfer.Config.Reader
import Mathlib

/-!
# Settings within their ranges

A configuration that is read has passed the checks of its settings. `Config.inRange_of_read` says
what this is worth: every whole number lies in its range, and so does every fraction that is a
number. The checks compare with the ends of a range, and no comparison holds of what is no number
(`isOutside_eq_false_iff`), so that `.nan` passes for a fraction in every range
(`Config.not_inRange_of_read`).
-/

namespace BatchTransfer

/-! ### Comparing numbers -/

section Comparison

open Float.Model (UnpackedFloat)

/-- Numbers of the same sign are compared by their exponents and then by their significands, in
either order of the two. -/
theorem swap_compare_magnitudes (e e' : Int) (m m' : Nat) :
    ((compare e e').then (compare m m')).swap = (compare e' e).then (compare m' m) := by
  rw [Ordering.swap_then, ← Std.OrientedCmp.eq_swap, ← Std.OrientedCmp.eq_swap]

/-- Two numbers compare, and the other way round they compare the other way round. -/
theorem exists_compare_eq {x y : UnpackedFloat} (hx : x.isNaN = false) (hy : y.isNaN = false) :
    ∃ o : Ordering, x.compare y = some o ∧ y.compare x = some o.swap := by
  cases x with
  | notANumber => cases hx
  | infinity s =>
      cases y with
      | notANumber => cases hy
      | infinity t => cases s <;> cases t <;> exact ⟨_, rfl, rfl⟩
      | _ => cases s <;> exact ⟨_, rfl, rfl⟩
  | zero s =>
      cases y with
      | notANumber => cases hy
      | zero t => exact ⟨_, rfl, rfl⟩
      | infinity t | finite t => cases t <;> exact ⟨_, rfl, rfl⟩
  | finite s m e hm =>
      cases y with
      | notANumber => cases hy
      | infinity t => cases t <;> exact ⟨_, rfl, rfl⟩
      | zero t => cases s <;> exact ⟨_, rfl, rfl⟩
      | finite t m' e' hm' =>
          have hswap := swap_compare_magnitudes e e' m m'
          cases s <;> cases t
          · exact ⟨_, rfl, congrArg (fun o : Ordering => some o.swap) hswap.symm⟩
          · exact ⟨_, rfl, rfl⟩
          · exact ⟨_, rfl, rfl⟩
          · exact ⟨_, rfl, congrArg some hswap.symm⟩

/-- What is no number does not compare. -/
theorem compare_eq_none {x y : UnpackedFloat} (h : x.isNaN = true ∨ y.isNaN = true) :
    x.compare y = none := by
  rcases h with h | h
  · cases x with
    | notANumber => rfl
    | _ => cases h
  · cases y with
    | notANumber => cases x <;> rfl
    | _ => cases h

variable {x y : Float}

theorem lt_iff_compare :
    x < y ↔ x.toModel.unpack.compare y.toModel.unpack = some .lt := by
  change decide ((x.toModel.unpack.compare y.toModel.unpack == some Ordering.lt) = true) = true ↔ _
  simp

theorem le_iff_compare :
    x ≤ y ↔ (x.toModel.unpack.compare y.toModel.unpack).any (·.isLE) = true := by
  change decide ((x.toModel.unpack.compare y.toModel.unpack).any (·.isLE) = true) = true ↔ _
  simp

/-- Of two numbers the first is not less than the second if and only if the second is at most the
first. -/
theorem not_lt_iff_le (hx : x.isNaN = false) (hy : y.isNaN = false) : ¬ x < y ↔ y ≤ x := by
  obtain ⟨o, ho, hswap⟩ := exists_compare_eq hx hy
  rw [lt_iff_compare, le_iff_compare, ho, hswap]
  cases o <;> decide

theorem not_lt_of_isNaN (h : x.isNaN = true ∨ y.isNaN = true) : ¬ x < y := by
  rw [lt_iff_compare, compare_eq_none h]
  exact nofun

theorem not_le_of_isNaN (h : x.isNaN = true ∨ y.isNaN = true) : ¬ x ≤ y := by
  rw [le_iff_compare, compare_eq_none h]
  exact nofun

end Comparison

/-! ### Ranges -/

/-- Whether a number lies between two others or is one of them. -/
def LiesIn (low high x : Float) : Prop := low ≤ x ∧ x ≤ high

section Ranges

variable {low high x : Float}

theorem isNaN_of_liesIn (h : LiesIn low high x) : x.isNaN = false :=
  eq_false_of_ne_true fun hnan => not_le_of_isNaN (.inr hnan) h.1

/-- Outside a range lies neither what is in it nor what is no number. -/
theorem isOutside_eq_false_iff (hlow : low.isNaN = false) (hhigh : high.isNaN = false) :
    isOutside low high x = false ↔ x.isNaN = true ∨ LiesIn low high x := by
  rw [isOutside, Bool.or_eq_false_iff, decide_eq_false_iff_not, decide_eq_false_iff_not]
  cases hx : x.isNaN with
  | true =>
      have hbelow : ¬ x < low := not_lt_of_isNaN (.inl hx)
      have habove : ¬ high < x := not_lt_of_isNaN (.inr hx)
      simp [hbelow, habove]
  | false => rw [not_lt_iff_le hx hlow, not_lt_iff_le hhigh hx, LiesIn]; simp

/-- A share that lies between zero and one is kept, and any other number is brought there. -/
theorem liesIn_clampShare (h : x.isNaN = false) :
    LiesIn 0.0 1.0 (FloatRetryPolicy.clampShare x) := by
  unfold FloatRetryPolicy.clampShare
  split
  · exact ⟨by decide, by decide⟩
  · rename_i hlow
    split
    · exact ⟨by decide, by decide⟩
    · rename_i hhigh
      exact ⟨(not_lt_iff_le h (by decide)).mp hlow, (not_lt_iff_le (by decide) h).mp hhigh⟩

end Ranges

namespace Config

open BatchTransfer.Text BatchTransfer.Yaml

/-- Whether the whole numbers among the settings are in the ranges that are declared for them, and
delays do not begin above their bound. -/
structure HasWholesInRange (c : Config) : Prop where
  capacity : 1 ≤ c.executor.capacity ∧ c.executor.capacity ≤ 4096
  openLimit : 1 ≤ c.executor.openLimit
  writeLimit : 1 ≤ c.executor.writeLimit
  commitLimit : 1 ≤ c.executor.commitLimit
  maxRetries : c.retry.maxRetries ≤ 100
  delays : c.retry.initialDelay ≤ c.retry.maxDelay

/-- Whether all settings are in the ranges that are declared for them, and so are those of the
policy by which jobs are run. -/
structure IsInRange (c : Config) : Prop extends c.HasWholesInRange where
  multiplier : LiesIn 1.0 10.0 c.retry.multiplier
  jitter : LiesIn 0.0 1.0 c.retry.jitter
  policyMultiplier : LiesIn 1.0 10.0 c.retry.policy.multiplier
  policyJitter : LiesIn 0.0 1.0 c.retry.policy.jitter

variable {c : Config} {env : Environment} {text : String}

/-- No setting is listed if and only if the whole numbers are in their ranges and the fractions do
not lie outside of theirs. -/
theorem settingsOutOfRange_eq_nil_iff : c.settingsOutOfRange = [] ↔
    (1 ≤ c.executor.capacity ∧ c.executor.capacity ≤ 4096) ∧ 1 ≤ c.executor.openLimit ∧
      1 ≤ c.executor.writeLimit ∧ 1 ≤ c.executor.commitLimit ∧ c.retry.maxRetries ≤ 100 ∧
      isOutside 1.0 10.0 c.retry.multiplier = false ∧ isOutside 0.0 1.0 c.retry.jitter = false := by
  simp [settingsOutOfRange, List.filterMap_eq_nil_iff]

/-- A configuration is read only if its settings pass their checks. -/
theorem fault?_of_read (h : read env text = .ok c) : c.fault? = none := by
  unfold read check at h
  split at h
  · cases h
  · split at h
    · cases h
    · cases h
      assumption

/-- A configuration that is read has all whole numbers in their ranges, and a fraction out of its
range only where that is no number. The same holds of the policy by which jobs are run. -/
theorem inRange_of_read (h : read env text = .ok c) :
    c.HasWholesInRange ∧
      (c.retry.multiplier.isNaN = true ∨ LiesIn 1.0 10.0 c.retry.multiplier ∧
        LiesIn 1.0 10.0 c.retry.policy.multiplier) ∧
      (c.retry.jitter.isNaN = true ∨ LiesIn 0.0 1.0 c.retry.jitter ∧
        LiesIn 0.0 1.0 c.retry.policy.jitter) := by
  have hfault := fault?_of_read h
  unfold fault? at hfault
  split at hfault
  · cases hfault
  · rename_i hsettings
    obtain ⟨hcapacity, hopen, hwrite, hcommit, hretries, hmultiplier, hjitter⟩ :=
      settingsOutOfRange_eq_nil_iff.mp hsettings
    have hdelays : c.retry.initialDelay ≤ c.retry.maxDelay := by
      split at hfault
      · cases hfault
      · exact Nat.le_of_not_lt ‹_›
    refine ⟨⟨hcapacity, hopen, hwrite, hcommit, hretries, hdelays⟩, ?_, ?_⟩
    · exact ((isOutside_eq_false_iff (by decide) (by decide)).mp hmultiplier).imp id
        fun hin => ⟨hin, hin⟩
    · exact ((isOutside_eq_false_iff (by decide) (by decide)).mp hjitter).imp id
        fun hin => ⟨hin, liesIn_clampShare (isNaN_of_liesIn hin)⟩

/-! ### A jitter that is given -/

/-- What is written in a document that gives the jitter only. -/
def jitterNode (number : String) : Node :=
  .mapping [(.scalar none .plain "retry",
    .mapping [(.scalar none .plain "jitter", .scalar none .plain number)])]

/-- A jitter that is given is read, and every other setting has its default. -/
theorem ofNode?_jitterNode {number : String} {x : Float} (h : readFraction? number = some x) :
    ofNode? (jitterNode number) = some { retry := { jitter := x } } := by
  simp [ofNode?, jitterNode, entries?, Node.text?, setting?, retry?, fraction?, Node.plainText?, h]

/-- A document that is read and whose settings pass their checks makes a configuration. -/
theorem read_of_document {node : Node} (hblank : (trim (expand env text)).isEmpty = false)
    (hdocument : documents? (expand env text) = some [node]) (hnode : ofNode? node = some c)
    (hfault : c.fault? = none) : read env text = .ok c := by
  simp [read, check, ofText?, hblank, hdocument, hnode, hfault]

/-- A jitter of a half that the environment supplies. -/
theorem inRange_of_read_half :
    ∃ c : Config, read [("JITTER", "0.5")] "retry:\n  jitter: $\x7bJITTER\x7d\n" = .ok c ∧
      c.HasWholesInRange ∧
      (c.retry.multiplier.isNaN = true ∨ LiesIn 1.0 10.0 c.retry.multiplier ∧
        LiesIn 1.0 10.0 c.retry.policy.multiplier) ∧
      (c.retry.jitter.isNaN = true ∨ LiesIn 0.0 1.0 c.retry.jitter ∧
        LiesIn 0.0 1.0 c.retry.policy.jitter) := by
  have hexpand : expand [("JITTER", "0.5")] "retry:\n  jitter: $\x7bJITTER\x7d\n" =
      "retry:\n  jitter: 0.5\n" := by cbv
  have hdocument : documents? "retry:\n  jitter: 0.5\n" = some [jitterNode "0.5"] := by cbv
  have hnumber : readFraction? "0.5" = some 0.5 := by decide +kernel
  have hread : read [("JITTER", "0.5")] "retry:\n  jitter: $\x7bJITTER\x7d\n" =
      .ok { retry := { jitter := 0.5 } } :=
    read_of_document (by rw [hexpand]; cbv) (by rw [hexpand]; exact hdocument)
      (ofNode?_jitterNode hnumber) (by decide)
  exact ⟨_, hread, inRange_of_read hread⟩

/-- What is no number is read as a jitter, which then lies in no range. -/
theorem not_inRange_of_read :
    ¬ ∀ (env : Environment) (text : String) (c : Config), read env text = .ok c → c.IsInRange := by
  have hexpand : expand [] "retry:\n  jitter: .nan\n" = "retry:\n  jitter: .nan\n" := by cbv
  have hdocument : documents? "retry:\n  jitter: .nan\n" = some [jitterNode ".nan"] := by cbv
  have hnumber : readFraction? ".nan" = some (0.0 / 0.0) := by decide +kernel
  have hread : read [] "retry:\n  jitter: .nan\n" = .ok { retry := { jitter := 0.0 / 0.0 } } :=
    read_of_document (by rw [hexpand]; cbv) (by rw [hexpand]; exact hdocument)
      (ofNode?_jitterNode hnumber) (by decide)
  intro hall
  exact absurd (isNaN_of_liesIn (hall _ _ _ hread).jitter) (by decide)

end Config

end BatchTransfer
