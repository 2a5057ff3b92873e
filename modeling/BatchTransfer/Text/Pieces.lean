/-!
# Pieces of a text

A text is cut at every separator. `intercalate_splitPieces` says that the pieces with the separator
between them are the text again.
-/

namespace BatchTransfer.Text

/-- The pieces of a text between separators; there is one more than there are separators. -/
def splitPieces (isSeparator : Char → Bool) : List Char → List (List Char)
  | [] => [[]]
  | c :: cs =>
      if isSeparator c then [] :: splitPieces isSeparator cs
      else
        match splitPieces isSeparator cs with
        | [] => [[c]]
        | piece :: rest => (c :: piece) :: rest

theorem splitPieces_ne_nil (p : Char → Bool) (cs : List Char) : splitPieces p cs ≠ [] := by
  fun_induction splitPieces p cs <;> simp_all

/-- The pieces with the separator between them are the text again. -/
theorem intercalate_splitPieces (separator : Char) (cs : List Char) :
    [separator].intercalate (splitPieces (· == separator) cs) = cs := by
  induction cs with
  | nil => rfl
  | cons c cs ih =>
    have ne := splitPieces_ne_nil (· == separator) cs
    by_cases h : c = separator
    · cases hs : splitPieces (· == separator) cs with
      | nil => exact absurd hs ne
      | cons piece rest =>
        rw [hs] at ih
        simp [splitPieces, h, hs, List.intercalate] at ih ⊢
        exact ih
    · cases hs : splitPieces (· == separator) cs with
      | nil => exact absurd hs ne
      | cons piece rest =>
        rw [hs] at ih
        cases rest <;> simp_all [splitPieces, List.intercalate, List.intersperse]

/-- No separator stands in a piece. -/
theorem eq_false_of_mem_splitPieces {p : Char → Bool} {cs piece : List Char}
    (h : piece ∈ splitPieces p cs) : ∀ c ∈ piece, p c = false := by
  induction cs generalizing piece with
  | nil =>
    rw [splitPieces, List.mem_singleton] at h
    simp [h]
  | cons c cs ih =>
    rw [splitPieces] at h
    by_cases hc : p c = true
    · rw [if_pos hc, List.mem_cons] at h
      rcases h with rfl | h
      · simp
      · exact ih h
    · rw [if_neg hc] at h
      have hclear : p c = false := eq_false_of_ne_true hc
      split at h
      · rw [List.mem_singleton] at h
        simp [h, hclear]
      · rename_i first rest hsplit
        rcases List.mem_cons.mp h with rfl | h
        · simpa [hclear] using ih (hsplit ▸ List.mem_cons_self)
        · exact ih (hsplit ▸ List.mem_cons_of_mem _ h)

/-- A text without separators is one piece. -/
theorem splitPieces_of_forall {p : Char → Bool} {piece : List Char}
    (h : ∀ c ∈ piece, p c = false) : splitPieces p piece = [piece] := by
  induction piece with
  | nil => rfl
  | cons c piece ih =>
    rw [List.forall_mem_cons] at h
    simp [splitPieces, h.1, ih h.2]

/-- The first piece ends at the first separator. -/
theorem splitPieces_append_cons {p : Char → Bool} {piece rest : List Char} {separator : Char}
    (h : ∀ c ∈ piece, p c = false) (hseparator : p separator = true) :
    splitPieces p (piece ++ separator :: rest) = piece :: splitPieces p rest := by
  induction piece with
  | nil => simp [splitPieces, hseparator]
  | cons c piece ih =>
    rw [List.forall_mem_cons] at h
    simp [splitPieces, h.1, ih h.2]

/-- Texts without separators are the pieces of the text in which the separator stands between
them. -/
theorem splitPieces_intercalate {separator : Char} {pieces : List (List Char)} (hne : pieces ≠ [])
    (h : ∀ piece ∈ pieces, separator ∉ piece) :
    splitPieces (· == separator) ([separator].intercalate pieces) = pieces := by
  induction pieces with
  | nil => exact absurd rfl hne
  | cons piece pieces ih =>
    rw [List.forall_mem_cons] at h
    have hclear : ∀ c ∈ piece, (c == separator) = false := fun c hc =>
      beq_eq_false_iff_ne.mpr fun heq => h.1 (heq ▸ hc)
    cases pieces with
    | nil => simpa [List.intercalate] using splitPieces_of_forall hclear
    | cons next pieces =>
      rw [List.intercalate_cons_of_ne_nil (by simp), List.append_assoc, List.singleton_append,
        splitPieces_append_cons hclear (beq_self_eq_true _), ih (by simp) h.2]

end BatchTransfer.Text
