import BatchTransfer.Text.Blank
import BatchTransfer.Text.Caseless
import Mathlib.Data.List.DropRight

/-!
# Blanks around texts

`trimChars_eq_iff` says what is left of a text without the blanks at its ends: the part between
blanks whose first and last character are not blank.
-/

namespace BatchTransfer.Text

/-! ### Characters by their codes -/

theorem isDigit_iff {c : Char} : isDigit c = true ↔ 48 ≤ c.toNat ∧ c.toNat ≤ 57 := by
  simp [isDigit, Char.le_def, UInt32.le_iff_toNat_le]

theorem isBlank_eq_false {c : Char} (hlow : 33 ≤ c.toNat) (hhigh : c.toNat ≤ 126) :
    isBlank c = false := by
  simp [isBlank]
  omega

theorem isBlank_of_isDigit {c : Char} (h : isDigit c = true) : isBlank c = false := by
  rw [isDigit_iff] at h
  exact isBlank_eq_false (by omega) (by omega)

theorem toNat_toLower (c : Char) :
    c.toLower.toNat = if 65 ≤ c.toNat ∧ c.toNat ≤ 90 then c.toNat + 32 else c.toNat := by
  have hvals : 'A'.val.toNat = 65 ∧ 'Z'.val.toNat = 90 ∧ ('a'.val - 'A'.val).toNat = 32 := by
    decide
  obtain ⟨hfirst, hlast, hshift⟩ := hvals
  have hupper : c.val ≥ 'A'.val ∧ c.val ≤ 'Z'.val ↔ 65 ≤ c.toNat ∧ c.toNat ≤ 90 := by
    rw [ge_iff_le, UInt32.le_iff_toNat_le, UInt32.le_iff_toNat_le, hfirst, hlast]
    rfl
  unfold Char.toLower
  split
  · rename_i h
    have hrange := hupper.mp h
    rw [if_pos hrange]
    show (c.val + ('a'.val - 'A'.val)).toNat = c.toNat + 32
    rw [UInt32.toNat_add, hshift]
    show (c.toNat + 32) % 2 ^ 32 = c.toNat + 32
    omega
  · rename_i h
    rw [if_neg fun hrange => h (hupper.mpr hrange)]

theorem isBlank_toLower (c : Char) : isBlank c = isBlank c.toLower := by
  rw [Bool.eq_iff_iff]
  simp only [isBlank, toNat_toLower, Bool.or_eq_true, Bool.and_eq_true, decide_eq_true_eq,
    beq_iff_eq]
  split <;> omega

/-! ### Characters up to one that stops them -/

theorem takeWhile_append_stop {p : Char → Bool} {cs rest : List Char} (hcs : ∀ c ∈ cs, p c = true)
    (hrest : ∀ c ∈ rest.head?, p c = false) :
    (cs ++ rest).takeWhile p = cs ∧ (cs ++ rest).dropWhile p = rest := by
  rw [List.takeWhile_append_of_pos hcs, List.dropWhile_append_of_pos hcs]
  cases rest with
  | nil => exact ⟨List.append_nil cs, rfl⟩
  | cons c rest => simp [hrest c rfl]

/-! ### Texts between blanks -/

/-- A text that is `middle` up to blanks before and behind it. -/
inductive Surrounds (middle : List Char) : List Char → Prop where
  | blanks {before after : List Char} (hbefore : ∀ c ∈ before, isBlank c = true)
      (hafter : ∀ c ∈ after, isBlank c = true) : Surrounds middle (before ++ middle ++ after)

variable {cs middle after : List Char}

/-- Whether a text neither begins nor ends with a blank. -/
structure HasBareEnds (cs : List Char) : Prop where
  head : ∀ c ∈ cs.head?, isBlank c = false
  last : ∀ c ∈ cs.getLast?, isBlank c = false

/-- A text without any blank has none at its ends. -/
theorem HasBareEnds.of_forall (h : ∀ c ∈ cs, isBlank c = false) : HasBareEnds cs where
  head c hc := h c (List.mem_of_head? hc)
  last c hc := h c (List.mem_of_getLast? hc)

/-- The first character of a text stays if it is not blank, and all that follows with it. -/
theorem HasBareEnds.dropWhile_append (h : HasBareEnds cs) (hne : cs ≠ []) (after : List Char) :
    (cs ++ after).dropWhile isBlank = cs ++ after := by
  obtain ⟨c, cs, rfl⟩ := List.exists_cons_of_ne_nil hne
  rw [List.cons_append, List.dropWhile_cons_of_neg]
  rw [h.head c rfl]
  exact Bool.false_ne_true

/-- Blanks behind a text are dropped up to its last character if that is not blank. -/
theorem HasBareEnds.dropEndWhile_append (h : HasBareEnds cs)
    (hafter : ∀ c ∈ after, isBlank c = true) : dropEndWhile isBlank (cs ++ after) = cs := by
  have hreverse : ∀ c ∈ after.reverse, isBlank c = true := fun c hc =>
    hafter c (List.mem_reverse.mp hc)
  rw [dropEndWhile, List.reverse_append, List.dropWhile_append_of_pos hreverse]
  refine List.rdropWhile_eq_self_iff.mpr fun hne => ?_
  rw [h.last _ (List.getLast?_eq_some_getLast hne)]
  exact Bool.false_ne_true

/-- What is left of a text has no blanks at its ends. -/
theorem hasBareEnds_trimChars (cs : List Char) : HasBareEnds (trimChars cs) where
  head c hc := by
    obtain ⟨after, hafter⟩ : trimChars cs <+: cs.dropWhile isBlank :=
      List.rdropWhile_prefix isBlank (cs.dropWhile isBlank)
    have hbare := List.head?_dropWhile_not isBlank cs
    rw [← hafter, List.head?_append, hc] at hbare
    exact hbare
  last c hc := by
    have hne : trimChars cs ≠ [] := by
      rintro hnil
      rw [hnil] at hc
      cases hc
    have hbare := List.rdropWhile_last_not (p := isBlank) (l := cs.dropWhile isBlank) hne
    rw [List.getLast?_eq_some_getLast hne, Option.mem_some_iff] at hc
    rw [← hc]
    exact Bool.eq_false_iff.mpr hbare

/-- A text is what is left of it, up to blanks. -/
theorem surrounds_trimChars (cs : List Char) : Surrounds (trimChars cs) cs := by
  have hsplit : cs = cs.takeWhile isBlank ++ trimChars cs ++
      (cs.dropWhile isBlank).rtakeWhile isBlank := by
    rw [List.append_assoc]
    exact (List.takeWhile_append_dropWhile ..).symm.trans
      (congrArg _ List.rdropWhile_append_rtakeWhile.symm)
  have hblanks : Surrounds (trimChars cs) (cs.takeWhile isBlank ++ trimChars cs ++
      (cs.dropWhile isBlank).rtakeWhile isBlank) :=
    .blanks (fun _ hc => List.mem_takeWhile_imp hc) fun _ hc => List.mem_rtakeWhile_imp hc
  rwa [← hsplit] at hblanks

/-- What is left of a text is its part between blanks that has none at its ends. -/
theorem trimChars_eq_iff : trimChars cs = middle ↔ HasBareEnds middle ∧ Surrounds middle cs := by
  constructor
  · rintro rfl
    exact ⟨hasBareEnds_trimChars cs, surrounds_trimChars cs⟩
  · rintro ⟨hbare, ⟨hbefore, hafter⟩⟩
    rw [trimChars, List.append_assoc, List.dropWhile_append_of_pos hbefore]
    by_cases hnil : middle = []
    · rw [hnil, List.nil_append, List.dropWhile_eq_nil_iff.mpr hafter]
      rfl
    · rw [hbare.dropWhile_append hnil, hbare.dropEndWhile_append hafter]

end BatchTransfer.Text
