import BatchTransfer.Proofs.Decimal.Order
import BatchTransfer.Proofs.Text.Blanks
import Mathlib.Data.Nat.Digits.Defs

/-!
# Numerals with a sign

A whole number may be spelled with a sign, and with zeros in front. What is read as a whole number
of a range is exactly a spelling of one that lies in the range (`readInteger?_eq_some_iff`); there
is no bound on the length of the text.
-/

namespace BatchTransfer.Decimal

open BatchTransfer.Text

/-- One or more decimal digits. -/
structure IsDigits (ds : List Char) : Prop where
  ne_nil : ds ≠ []
  isDigit : ∀ d ∈ ds, isDigit d = true

/-- The sum of the digits, each at the power of ten of its place. -/
def placeValue (ds : List Char) : Nat := Nat.ofDigits 10 (ds.reverse.map digitValue)

/-- The texts that spell a whole number: its digits, with a sign in front or not. -/
inductive SignedNumeral : List Char → Int → Prop where
  | bare {ds : List Char} (h : IsDigits ds) : SignedNumeral ds (placeValue ds)
  | plus {ds : List Char} (h : IsDigits ds) : SignedNumeral ('+' :: ds) (placeValue ds)
  | minus {ds : List Char} (h : IsDigits ds) : SignedNumeral ('-' :: ds) (-placeValue ds)

variable {cs ds : List Char} {i : Int} {n : Nat} {range : Range}

theorem ofDigits_eq_placeValue (ds : List Char) : ofDigits ds = placeValue ds := by
  induction ds with
  | nil => rfl
  | cons d ds ih =>
      rw [ofDigits_cons, ih, placeValue, placeValue, List.reverse_cons, List.map_append,
        Nat.ofDigits_append, List.map_singleton, Nat.ofDigits_singleton, List.length_map,
        List.length_reverse, Nat.add_comm]

theorem isDigits_iff : IsDigits cs ↔ cs ≠ [] ∧ ∀ c ∈ cs, isDigit c = true := by
  constructor
  · intro h
    exact ⟨h.ne_nil, h.isDigit⟩
  · intro h
    exact ⟨h.1, h.2⟩

theorem readDigits?_eq_some_iff : readDigits? cs = some n ↔ IsDigits cs ∧ n = placeValue cs := by
  have hrefused : (cs.isEmpty || !cs.all isDigit) = false ↔ IsDigits cs := by
    rw [isDigits_iff, Bool.or_eq_false_iff, List.isEmpty_eq_false_iff, Bool.not_eq_false',
      List.all_eq_true]
  rw [readDigits?, ← ofDigits_eq_placeValue, ← hrefused]
  cases cs.isEmpty || !cs.all isDigit with
  | true => simp
  | false => simp [eq_comm]

theorem IsDigits.splitSign_eq (h : IsDigits ds) : splitSign ds = (false, ds) := by
  obtain ⟨d, ds, rfl⟩ := List.exists_cons_of_ne_nil h.ne_nil
  exact splitSign_of_isDigit (h.isDigit d List.mem_cons_self)

/-- A text is read as a whole number of a range exactly if it spells one that lies in the range. -/
theorem readInteger?_eq_some_iff :
    readInteger? range cs = some i ↔ SignedNumeral cs i ∧ range.contains i = true := by
  simp only [readInteger?, Option.bind_eq_bind, Option.bind_eq_some_iff,
    Option.ite_none_right_eq_some, Option.some.injEq, readDigits?_eq_some_iff]
  constructor
  · rintro ⟨n, ⟨hdigits, rfl⟩, hrange, rfl⟩
    refine ⟨?_, hrange⟩
    clear hrange
    unfold splitSign at hdigits ⊢
    split at hdigits
    · exact .minus hdigits
    · exact .plus hdigits
    · exact .bare hdigits
  · rintro ⟨hspells, hrange⟩
    cases hspells with
    | bare h =>
        rw [h.splitSign_eq]
        exact ⟨_, ⟨h, rfl⟩, hrange, rfl⟩
    | plus h => exact ⟨_, ⟨h, rfl⟩, hrange, rfl⟩
    | minus h => exact ⟨_, ⟨h, rfl⟩, hrange, rfl⟩

/-- A whole number is spelled by its text. -/
theorem signedNumeral_integerChars (i : Int) : SignedNumeral (integerChars i) i := by
  have hself : Range.contains ⟨i, i⟩ i = true := by simp [Range.contains]
  exact (readInteger?_eq_some_iff.mp (readInteger?_integerChars hself)).1

/-- No character of a spelling is blank. -/
theorem SignedNumeral.isBlank_eq_false (h : SignedNumeral cs i) {c : Char} (hc : c ∈ cs) :
    isBlank c = false := by
  cases h with
  | bare h => exact isBlank_of_isDigit (h.isDigit c hc)
  | plus h =>
      rcases List.mem_cons.mp hc with rfl | hc
      · decide
      · exact isBlank_of_isDigit (h.isDigit c hc)
  | minus h =>
      rcases List.mem_cons.mp hc with rfl | hc
      · decide
      · exact isBlank_of_isDigit (h.isDigit c hc)

end BatchTransfer.Decimal
