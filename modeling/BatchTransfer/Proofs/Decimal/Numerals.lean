import BatchTransfer.Decimal.Layout
import Mathlib.Algebra.Group.Nat.Defs
import Mathlib.Data.List.TakeWhile

/-!
# Numerals as they are written

Whole numbers are read back from their digits (`ofDigits_digits`, `readInteger?_integerChars`). The
shortest decimal of a double other than zero has a digit that is not zero, because the search for it
starts at a power of ten that the value reaches (`Neighbourhood.reaches_decimalExponent`), so a
double whose digits are all written out has digits on both sides of its point
(`pointNumeral_chars`).
-/

namespace BatchTransfer.Decimal

open BatchTransfer.Text

/-! ### Digits of whole numbers -/

theorem isDigit_of_mem_digits {n : Nat} {c : Char} (h : c ∈ digits n) : isDigit c = true :=
  Nat.isDigit_of_mem_toDigits (by decide) (by decide) h

theorem digits_ne_nil (n : Nat) : digits n ≠ [] := Nat.toDigits_ne_nil

theorem ofDigits_eq (cs : List Char) : ofDigits cs = Nat.ofDigitChars 10 cs 0 :=
  Nat.ofDigitChars_eq_foldl.symm

/-- A number is the one that its digits spell. -/
@[simp]
theorem ofDigits_digits (n : Nat) : ofDigits (digits n) = n := by
  rw [ofDigits_eq]
  exact Nat.ofDigitChars_ten_toDigits

/-- Zeros in front do not change the number that digits spell. -/
@[simp]
theorem ofDigits_padded (width n : Nat) : ofDigits (padded width n) = n := by
  rw [padded, ofDigits_eq, Nat.ofDigitChars_append, Nat.ofDigitChars_replicate_zero, Nat.mul_zero,
    ← ofDigits_eq, ofDigits_digits]

theorem ofDigits_eq_zero {cs : List Char} (h : ∀ c ∈ cs, c = '0') : ofDigits cs = 0 := by
  rw [List.eq_replicate_of_mem h, ofDigits_eq, Nat.ofDigitChars_replicate_zero, Nat.mul_zero]

theorem readDigits?_digits (n : Nat) : readDigits? (digits n) = some n := by
  have hall : (digits n).all isDigit = true := List.all_eq_true.mpr fun _ => isDigit_of_mem_digits
  simp [readDigits?, digits_ne_nil, hall]

/-- A numeral without a sign is all digits. -/
theorem splitSign_of_isDigit {c : Char} {cs : List Char} (h : isDigit c = true) :
    splitSign (c :: cs) = (false, c :: cs) := by
  unfold splitSign
  split
  · rename_i heq
    cases heq
    cases h
  · rename_i heq
    cases heq
    cases h
  · rfl

theorem splitSign_digits (n : Nat) : splitSign (digits n) = (false, digits n) := by
  obtain ⟨c, cs, hcs⟩ := List.exists_cons_of_ne_nil (digits_ne_nil n)
  rw [hcs]
  exact splitSign_of_isDigit (isDigit_of_mem_digits (hcs ▸ List.mem_cons_self))

/-- A whole number in a range is read back from its text. -/
theorem readInteger?_integerChars {range : Range} {i : Int} (h : range.contains i = true) :
    readInteger? range (integerChars i) = some i := by
  cases i with
  | ofNat n =>
      rw [Int.ofNat_eq_natCast] at h
      simp [readInteger?, integerChars, splitSign_digits, readDigits?_digits, h]
  | negSucc n =>
      have hvalue : -((n + 1 : Nat) : Int) = .negSucc n := rfl
      simp only [readInteger?, integerChars, splitSign, readDigits?_digits, Option.bind_eq_bind,
        Option.bind_some, if_true, hvalue, h]

/-! ### The first digit of a shortest decimal -/

namespace Neighbourhood

variable {n : Neighbourhood} {tie : Tie} {k : Int}

/-- Whether the value is `10^k` or more. -/
def Reaches (n : Neighbourhood) (k : Int) : Prop :=
  n.unit * 10 ^ k.toNat ≤ n.value * 10 ^ (-k).toNat

theorem Reaches.pred (h : n.Reaches k) : n.Reaches (k - 1) := by
  unfold Reaches at h ⊢
  -- One of the two exponents is zero; which one depends on the sign.
  by_cases hk : 0 < k
  · rw [show (-(k - 1)).toNat = 0 by omega]
    rw [show (-k).toNat = 0 by omega] at h
    have hpow : 10 ^ (k - 1).toNat ≤ 10 ^ k.toNat := Nat.pow_le_pow_right (by decide) (by omega)
    exact Nat.le_trans (Nat.mul_le_mul_left _ hpow) h
  · rw [show (k - 1).toNat = 0 by omega]
    rw [show k.toNat = 0 by omega] at h
    have hpow : 10 ^ (-k).toNat ≤ 10 ^ (-(k - 1)).toNat :=
      Nat.pow_le_pow_right (by decide) (by omega)
    exact Nat.le_trans h (Nat.mul_le_mul_left _ hpow)

theorem Reaches.floorAt_pos (h : n.Reaches k) (hunit : 0 < n.unit) : 0 < n.floorAt k :=
  Nat.div_pos h (Nat.mul_pos hunit (Nat.pow_pos (by decide)))

theorem Reaches.pointAt?_pos (h : n.Reaches k) (hunit : 0 < n.unit) {c : Nat}
    (hc : n.pointAt? tie k = some c) : 0 < c := by
  have hfloor := h.floorAt_pos hunit
  simp only [pointAt?] at hc
  split at hc
  · rw [Option.some.injEq] at hc
    split at hc <;> omega
  · rw [Option.some.injEq] at hc
    omega
  · rw [Option.some.injEq] at hc
    omega
  · cases hc

/-- A search that starts where the value reaches ends at a point that is not zero. -/
theorem Reaches.firstPoint_pos (h : n.Reaches k) (hunit : 0 < n.unit) (more : Nat) :
    0 < (n.firstPoint tie more k).1 := by
  induction more generalizing k with
  | zero => exact h.floorAt_pos hunit
  | succ more ih =>
      rw [firstPoint]
      split
      · rename_i c hc
        exact h.pointAt?_pos hunit hc
      · exact ih h.pred

/-- A number other than zero is at least the power of ten of its first digit. -/
theorem pow_le_of_pos {m : Nat} (h : 0 < m) : 10 ^ ((digits m).length - 1) ≤ m := by
  by_cases hlength : 1 < (digits m).length
  · rw [← Nat.not_lt, ← Nat.length_toDigits_le_iff (by decide) (by omega), ← digits]
    omega
  · rw [show (digits m).length - 1 = 0 by omega]
    exact h

theorem lt_pow (m : Nat) : m < 10 ^ (digits m).length :=
  (Nat.length_toDigits_le_iff (by decide) Nat.length_toDigits_pos).mp (Nat.le_refl _)

/-- The value reaches the power of ten at which the search for its shortest decimal starts. -/
theorem reaches_decimalExponent (hvalue : 0 < n.value) : n.Reaches n.decimalExponent := by
  simp only [decimalExponent]
  split
  · assumption
  · have hlow := pow_le_of_pos hvalue
    have hhigh := lt_pow n.unit
    have hdigits : 0 < (digits n.value).length := Nat.length_toDigits_pos
    -- The estimate is the difference of the numbers of digits, less one.
    generalize (digits n.value).length = v at *
    generalize (digits n.unit).length = u at *
    unfold Reaches
    have hexponents : u + ((v : Int) - u - 1).toNat = v - 1 + (-((v : Int) - u - 1)).toNat := by
      omega
    calc n.unit * 10 ^ ((v : Int) - u - 1).toNat
        ≤ 10 ^ u * 10 ^ ((v : Int) - u - 1).toNat := Nat.mul_le_mul_right _ (Nat.le_of_lt hhigh)
      _ = 10 ^ (v - 1) * 10 ^ (-((v : Int) - u - 1)).toNat := by
        rw [← Nat.pow_add, ← Nat.pow_add, hexponents]
      _ ≤ n.value * 10 ^ (-((v : Int) - u - 1)).toNat := Nat.mul_le_mul_right _ hlow

end Neighbourhood

/-- The characters without those at the end are some of the characters. -/
theorem mem_of_mem_dropEndWhile {p : Char → Bool} {cs : List Char} {c : Char}
    (h : c ∈ dropEndWhile p cs) : c ∈ cs := by
  rw [dropEndWhile, List.mem_reverse] at h
  exact List.mem_reverse.mp ((List.dropWhile_suffix p).subset h)

/-- Digits that are not all zero are not all dropped. -/
theorem dropEndWhile_digits_ne_nil {n : Nat} (h : 0 < n) :
    dropEndWhile (· == '0') (digits n) ≠ [] := by
  intro hnil
  have hzeros : ∀ c ∈ digits n, c = '0' := by
    rw [dropEndWhile, List.reverse_eq_nil_iff, List.dropWhile_eq_nil_iff] at hnil
    intro c hc
    simpa using hnil c (List.mem_reverse.mpr hc)
  have hzero := ofDigits_eq_zero hzeros
  rw [ofDigits_digits] at hzero
  omega

namespace Shortest

theorem isDigit_of_mem {tie : Tie} {m : Nat} {q : Int} {c : Char}
    (h : c ∈ (ofParts tie m q).digits) : isDigit c = true := by
  simp only [ofParts] at h
  split at h
  · rw [List.mem_singleton.mp h]
    decide
  · exact isDigit_of_mem_digits (mem_of_mem_dropEndWhile h)

theorem digits_ne_nil (tie : Tie) (m : Nat) (q : Int) : (ofParts tie m q).digits ≠ [] := by
  simp only [ofParts]
  split
  · exact List.cons_ne_nil _ _
  · rename_i hm
    have hvalue : 0 < (Neighbourhood.ofParts m q).value :=
      Nat.mul_pos (by omega) (Nat.pow_pos (by decide))
    have hunit : 0 < (Neighbourhood.ofParts m q).unit := Nat.pow_pos (by decide)
    exact dropEndWhile_digits_ne_nil
      ((Neighbourhood.reaches_decimalExponent hvalue).firstPoint_pos hunit 17)

end Shortest

/-! ### Texts of doubles -/

/-- The characters beside digits in texts of doubles. -/
def floatSigns : List Char := ['+', '-', '.', 'e', 'N', 'a', 'i', 'n', 'f']

/-- Digits, a point, and digits, with a minus sign in front or not. -/
inductive PointNumeral : List Char → Prop where
  | numeral {sign whole fraction : List Char} (hsign : sign = [] ∨ sign = ['-'])
      (hwhole : whole ≠ []) (hwholeDigits : ∀ c ∈ whole, isDigit c = true)
      (hfraction : fraction ≠ []) (hfractionDigits : ∀ c ∈ fraction, isDigit c = true) :
      PointNumeral (sign ++ (whole ++ '.' :: fraction))

section Texts

variable {d : Shortest} {l : Layout} {x : Float} {c : Char}

theorem isDigit_of_mem_replicate {n : Nat} (h : c ∈ List.replicate n '0') : isDigit c = true := by
  rw [List.eq_of_mem_replicate h]
  decide

/-- The digits of a number that is written out, with a point among them or behind. -/
theorem exists_positionalChars (hne : d.digits ≠ []) (hdigits : ∀ c ∈ d.digits, isDigit c = true) :
    (∃ whole fraction, positionalChars d = whole ++ '.' :: fraction ∧ whole ≠ [] ∧
      fraction ≠ [] ∧ (∀ c ∈ whole, isDigit c = true) ∧ ∀ c ∈ fraction, isDigit c = true) ∨
    positionalChars d ≠ [] ∧ ∀ c ∈ positionalChars d, isDigit c = true := by
  simp only [positionalChars]
  split
  · refine .inl ⟨['0'], _, rfl, List.cons_ne_nil _ _, ?_, ?_, ?_⟩
    · exact List.append_ne_nil_of_right_ne_nil _ hne
    · intro c hc
      rw [List.mem_singleton.mp hc]
      decide
    · intro c hc
      rw [List.mem_append] at hc
      exact hc.elim isDigit_of_mem_replicate (hdigits c)
  · split
    · refine .inr ⟨List.append_ne_nil_of_left_ne_nil hne _, ?_⟩
      intro c hc
      rw [List.mem_append] at hc
      exact hc.elim (hdigits c) isDigit_of_mem_replicate
    · rename_i hlength
      refine .inl ⟨_, _, rfl, ?_, ?_, ?_, ?_⟩
      · simp [hne]
      · simp only [ne_eq, List.drop_eq_nil_iff]
        omega
      · exact fun c hc => hdigits c (List.mem_of_mem_take hc)
      · exact fun c hc => hdigits c (List.mem_of_mem_drop hc)

/-- A positive decimal that keeps its fraction has digits on both sides of a point. -/
theorem exists_magnitudeChars (hne : d.digits ≠ []) (hdigits : ∀ c ∈ d.digits, isDigit c = true) :
    ∃ whole fraction, optionLayout.magnitudeChars d = whole ++ '.' :: fraction ∧ whole ≠ [] ∧
      fraction ≠ [] ∧ (∀ c ∈ whole, isDigit c = true) ∧ ∀ c ∈ fraction, isDigit c = true := by
  simp only [Layout.magnitudeChars, optionLayout, if_true]
  rcases exists_positionalChars hne hdigits with ⟨whole, fraction, heq, hparts⟩ | ⟨hpos, hall⟩
  · refine ⟨whole, fraction, ?_, hparts⟩
    simp [heq]
  · have hpoint : '.' ∉ positionalChars d := fun hmem => by
      have := hall _ hmem
      revert this
      decide
    refine ⟨positionalChars d, ['0'], by simp [hpoint], hpos, List.cons_ne_nil _ _, hall, ?_⟩
    intro c hc
    rw [List.mem_singleton.mp hc]
    decide

/-- The text of an option value that is read as a number has digits on both sides of a point. -/
theorem pointNumeral_chars (h : (readFloat? (optionLayout.chars x)).isSome = true) :
    PointNumeral (optionLayout.chars x) := by
  unfold Layout.chars at h ⊢
  split at h
  · cases h
  · rename_i negative _
    cases negative <;> cases h
  · rename_i negative m q _
    obtain ⟨whole, fraction, heq, hwhole, hfraction, hwholeDigits, hfractionDigits⟩ :=
      exists_magnitudeChars (Shortest.digits_ne_nil optionLayout.tie m q)
        fun _ => Shortest.isDigit_of_mem
    simp only [heq]
    refine .numeral ?_ hwhole hwholeDigits hfraction hfractionDigits
    cases negative
    · exact .inl rfl
    · exact .inr rfl

theorem isDigit_or_mem_of_mem_positionalChars (hne : d.digits ≠ [])
    (hdigits : ∀ c ∈ d.digits, isDigit c = true) (h : c ∈ positionalChars d) :
    isDigit c = true ∨ c ∈ floatSigns := by
  rcases exists_positionalChars hne hdigits with
    ⟨whole, fraction, heq, -, -, hwhole, hfraction⟩ | hall
  · rw [heq, List.mem_append, List.mem_cons] at h
    rcases h with h | rfl | h
    · exact .inl (hwhole c h)
    · exact .inr (by decide)
    · exact .inl (hfraction c h)
  · exact .inl (hall.2 c h)

theorem isDigit_or_mem_of_mem_scientificChars (hdigits : ∀ c ∈ d.digits, isDigit c = true)
    (h : c ∈ scientificChars d) : isDigit c = true ∨ c ∈ floatSigns := by
  simp only [scientificChars, List.append_assoc, List.mem_append, List.mem_cons] at h
  rcases h with h | h | rfl | h | h
  · exact .inl (hdigits c (List.mem_of_mem_take h))
  · split at h
    · cases h
    · rcases List.mem_cons.mp h with rfl | h
      · exact .inr (by decide)
      · exact .inl (hdigits c (List.mem_of_mem_drop h))
  · exact .inr (by decide)
  · split at h
    · exact .inr (h ▸ by decide)
    · exact .inr (h ▸ by decide)
  · exact .inl (isDigit_of_mem_digits h)

theorem isDigit_or_mem_of_mem_magnitudeChars (hne : d.digits ≠ [])
    (hdigits : ∀ c ∈ d.digits, isDigit c = true) (h : c ∈ l.magnitudeChars d) :
    isDigit c = true ∨ c ∈ floatSigns := by
  have hwritten : c ∈ (if (l.keepsFraction && !(positionalChars d).contains '.') = true then
      positionalChars d ++ ['.', '0'] else positionalChars d) →
      isDigit c = true ∨ c ∈ floatSigns := by
    intro hc
    split at hc
    · rcases List.mem_append.mp hc with hc | hc
      · exact isDigit_or_mem_of_mem_positionalChars hne hdigits hc
      · rcases List.mem_cons.mp hc with rfl | hc
        · exact .inr (by decide)
        · exact .inl (List.mem_singleton.mp hc ▸ by decide)
    · exact isDigit_or_mem_of_mem_positionalChars hne hdigits hc
  simp only [Layout.magnitudeChars] at h
  cases hpositional : l.positional with
  | none =>
      rw [hpositional] at h
      exact hwritten h
  | some range =>
      rw [hpositional] at h
      dsimp only at h
      split at h
      · exact hwritten h
      · exact isDigit_or_mem_of_mem_scientificChars hdigits h

/-- The text of a double is made of digits, signs and a few letters. -/
theorem isDigit_or_mem_of_mem_chars (h : c ∈ l.chars x) : isDigit c = true ∨ c ∈ floatSigns := by
  have hsign : ∀ negative, c ∈ (if negative = true then ['-'] else []) → c ∈ floatSigns := by
    intro negative hc
    cases negative with
    | false => cases hc
    | true => exact List.mem_singleton.mp hc ▸ by decide
  unfold Layout.chars at h
  split at h
  · have hletters : ['N', 'a', 'N'] ⊆ floatSigns := by decide
    exact .inr (hletters h)
  · rcases List.mem_append.mp h with h | h
    · exact .inr (hsign _ h)
    · have hletters : ['i', 'n', 'f'] ⊆ floatSigns := by decide
      exact .inr (hletters h)
  · rcases List.mem_append.mp h with h | h
    · exact .inr (hsign _ h)
    · exact isDigit_or_mem_of_mem_magnitudeChars (Shortest.digits_ne_nil _ _ _)
        (fun _ => Shortest.isDigit_of_mem) h

end Texts

end BatchTransfer.Decimal
