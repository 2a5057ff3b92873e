import BatchTransfer.Proofs.Decimal.Numerals
import Mathlib.Data.String.Basic

/-!
# The order of numerals

Digits of one length have the order of the numbers that they spell (`lt_of_ofDigits_lt`), so numbers
that are padded to a width have their own order as long as they fit it (`padded_lt_padded`).
-/

namespace BatchTransfer

open BatchTransfer.Text

namespace Text

/-- Texts that begin in the same way have the order of what follows. -/
theorem append_lt_append_iff {before cs ds : List Char} :
    before ++ cs < before ++ ds ↔ cs < ds := by
  induction before with
  | nil => exact Iff.rfl
  | cons c before ih => simp [ih]

/-- The order of texts of one length stays, whatever follows them. -/
theorem append_lt_append {cs ds : List Char} (h : cs < ds) (hlength : cs.length = ds.length)
    (xs ys : List Char) : cs ++ xs < ds ++ ys := by
  induction cs generalizing ds with
  | nil =>
      rw [List.length_eq_zero_iff.mp hlength.symm] at h
      exact absurd h (List.not_lt_nil [])
  | cons c cs ih =>
      cases ds with
      | nil => cases hlength
      | cons d ds =>
          rw [List.cons_append, List.cons_append, List.cons_lt_cons_iff]
          rcases List.cons_lt_cons_iff.mp h with hlt | ⟨heq, hlt⟩
          · exact .inl hlt
          · exact .inr ⟨heq, ih hlt (Nat.succ.inj hlength)⟩

end Text

namespace Decimal

theorem ofDigits_cons (c : Char) (cs : List Char) :
    ofDigits (c :: cs) = 10 ^ cs.length * digitValue c + ofDigits cs := by
  rw [ofDigits_eq, ofDigits_eq, Nat.ofDigitChars_cons, Nat.ofDigitChars_eq_ofDigitChars_zero]
  rw [Nat.mul_zero, Nat.zero_add, digitValue]

theorem digitValue_lt {c : Char} (h : isDigit c = true) : digitValue c < 10 := by
  rw [isDigit, Bool.and_eq_true, decide_eq_true_eq, decide_eq_true_eq] at h
  have hnine : c.toNat ≤ '9'.toNat := h.2
  show c.toNat - '0'.toNat < 10
  have : '9'.toNat = 57 := rfl
  have : '0'.toNat = 48 := rfl
  omega

theorem digitValue_lt_digitValue {c d : Char} (hd : isDigit d = true) (h : d < c) :
    digitValue d < digitValue c := by
  rw [isDigit, Bool.and_eq_true, decide_eq_true_eq, decide_eq_true_eq] at hd
  have hzero : '0'.toNat ≤ d.toNat := hd.1
  have hlt : d.toNat < c.toNat := h
  show d.toNat - '0'.toNat < c.toNat - '0'.toNat
  omega

theorem ofDigits_lt {cs : List Char} (h : ∀ c ∈ cs, isDigit c = true) :
    ofDigits cs < 10 ^ cs.length := by
  induction cs with
  | nil => decide
  | cons c cs ih =>
      rw [List.forall_mem_cons] at h
      have hfirst : 10 ^ cs.length * digitValue c ≤ 10 ^ cs.length * 9 :=
        Nat.mul_le_mul_left _ (by have := digitValue_lt h.1; omega)
      have hrest := ih h.2
      rw [ofDigits_cons, List.length_cons, Nat.pow_succ]
      omega

/-- Of two numerals of one length, that of the smaller number comes first. -/
theorem lt_of_ofDigits_lt {cs ds : List Char} (hcs : ∀ c ∈ cs, isDigit c = true)
    (hds : ∀ d ∈ ds, isDigit d = true) (hlength : cs.length = ds.length)
    (h : ofDigits cs < ofDigits ds) : cs < ds := by
  induction cs generalizing ds with
  | nil =>
      rw [List.length_eq_zero_iff.mp hlength.symm] at h
      exact absurd h (lt_irrefl _)
  | cons c cs ih =>
      cases ds with
      | nil => cases hlength
      | cons d ds =>
          rw [List.forall_mem_cons] at hcs hds
          have hrest : cs.length = ds.length := Nat.succ.inj hlength
          rw [List.cons_lt_cons_iff]
          rw [ofDigits_cons, ofDigits_cons, hrest] at h
          rcases lt_trichotomy c d with hlt | rfl | hlt
          · exact .inl hlt
          · exact .inr ⟨rfl, ih hcs.2 hds.2 hrest (by omega)⟩
          · -- A greater first digit outweighs all that follow.
            have hfirst := Nat.mul_le_mul_left (10 ^ ds.length)
              (digitValue_lt_digitValue hds.1 hlt)
            have hfollow := ofDigits_lt hds.2
            rw [Nat.succ_eq_add_one, Nat.mul_add] at hfirst
            omega

theorem isDigit_of_mem_padded {width n : Nat} {c : Char} (h : c ∈ padded width n) :
    isDigit c = true := by
  rw [padded, List.mem_append] at h
  rcases h with h | h
  · exact isDigit_of_mem_replicate h
  · exact isDigit_of_mem_digits h

theorem not_mem_padded {width n : Nat} {c : Char} (h : isDigit c = false) :
    c ∉ padded width n := by
  intro hmem
  rw [isDigit_of_mem_padded hmem] at h
  cases h

/-- A number is known from its padded numeral. -/
theorem padded_inj {width i j : Nat} (h : padded width i = padded width j) : i = j := by
  rw [← ofDigits_padded width i, h, ofDigits_padded]

/-- A number that fits the width is padded to it. -/
theorem length_padded {width n : Nat} (hwidth : 0 < width) (h : n < 10 ^ width) :
    (padded width n).length = width := by
  have hlength : (digits n).length ≤ width :=
    (Nat.length_toDigits_le_iff (by decide) hwidth).mpr h
  rw [padded, List.length_append, List.length_replicate]
  omega

/-- Numbers that fit the width have the order of their padded numerals. -/
theorem padded_lt_padded {width i j : Nat} (h : i < j) (hj : j < 10 ^ width) :
    padded width i < padded width j := by
  have hwidth : 0 < width := by
    by_contra hzero
    rw [Nat.eq_zero_of_not_pos hzero] at hj
    omega
  refine lt_of_ofDigits_lt (fun _ => isDigit_of_mem_padded) (fun _ => isDigit_of_mem_padded) ?_ ?_
  · rw [length_padded hwidth (h.trans hj), length_padded hwidth hj]
  · rwa [ofDigits_padded, ofDigits_padded]

end Decimal

end BatchTransfer
