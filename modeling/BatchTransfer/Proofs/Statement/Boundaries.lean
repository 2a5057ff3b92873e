import BatchTransfer.Proofs.Statement.Chunks

/-!
# Where scanning stops

Scanners go from one character to the next, so that every byte offset they give lies between two
characters or at an end of the text. `Cursor.GoesTo` says this for the places that they reach, and
`Cursor.HasBoundary` for the offsets of their errors; `scanFrom_ending` and `scanFrom_token_offset`
say it for a whole text.
-/

namespace BatchTransfer.Statement

open BatchTransfer.Text

/-- The cursor `d` stands behind characters that `c` stands before. -/
def Cursor.GoesTo (c d : Cursor) : Prop :=
  ∃ passed, c.rest = passed ++ d.rest ∧ d.offset = c.offset + byteLength passed

/-- One of the characters from the cursor on begins at the byte offset, or the last one ends there. -/
def Cursor.HasBoundary (c : Cursor) (offset : Nat) : Prop :=
  ∃ rest, c.GoesTo ⟨offset, rest⟩

namespace Cursor

variable {c d e : Cursor} {offset : Nat}

theorem GoesTo.refl (c : Cursor) : c.GoesTo c := ⟨[], rfl, rfl⟩

theorem GoesTo.trans (h : c.GoesTo d) (hnext : d.GoesTo e) : c.GoesTo e := by
  obtain ⟨passed, hrest, hoffset⟩ := h
  obtain ⟨more, hmore, hoffset'⟩ := hnext
  refine ⟨passed ++ more, by rw [hrest, hmore, List.append_assoc], ?_⟩
  rw [hoffset', hoffset, byteLength_append, Nat.add_assoc]

/-- One character further. -/
theorem goesTo_cons (offset : Nat) (c : Char) (cs : List Char) :
    GoesTo ⟨offset, c :: cs⟩ ⟨offset + c.utf8Size, cs⟩ :=
  ⟨[c], rfl, rfl⟩

/-- One character of a single byte further. -/
theorem goesTo_byte {c : Char} (h : c.utf8Size = 1) (offset : Nat) (cs : List Char) :
    GoesTo ⟨offset, c :: cs⟩ ⟨offset + 1, cs⟩ :=
  h ▸ goesTo_cons offset c cs

theorem goesTo_span (c : Cursor) (p : Char → Bool) : c.GoesTo (c.span p).2 :=
  ⟨c.rest.takeWhile p, List.takeWhile_append_dropWhile.symm, rfl⟩

theorem HasBoundary.here (c : Cursor) : c.HasBoundary c.offset := ⟨c.rest, .refl c⟩

theorem GoesTo.hasBoundary (h : c.GoesTo d) : c.HasBoundary d.offset := ⟨d.rest, h⟩

theorem GoesTo.hasBoundary_of (h : c.GoesTo d) (hd : d.HasBoundary offset) :
    c.HasBoundary offset := by
  obtain ⟨rest, hrest⟩ := hd
  exact ⟨rest, h.trans hrest⟩

mutual

theorem goesTo_skipBlanks (offset : Nat) (cs : List Char) :
    GoesTo ⟨offset, cs⟩ (skipBlanks offset cs) := by
  match cs with
  | [] => exact .refl _
  | [c] =>
      rw [skipBlanks]
      split
      · exact goesTo_cons offset c []
      · exact .refl _
  | c :: d :: cs =>
      rw [skipBlanks]
      split
      · exact (goesTo_cons offset c _).trans (goesTo_skipBlanks _ (d :: cs))
      · split
        · have hcomment := goesTo_skipComment (offset + c.utf8Size + d.utf8Size) cs
          exact (goesTo_cons offset c _).trans ((goesTo_cons _ d cs).trans hcomment)
        · exact .refl _

theorem goesTo_skipComment (offset : Nat) (cs : List Char) :
    GoesTo ⟨offset, cs⟩ (skipComment offset cs) := by
  match cs with
  | [] => exact .refl _
  | c :: cs =>
      rw [skipComment]
      split
      · exact (goesTo_cons offset c cs).trans (goesTo_skipBlanks _ cs)
      · exact (goesTo_cons offset c cs).trans (goesTo_skipComment _ cs)

end

theorem goesTo_skip (c : Cursor) : c.GoesTo c.skip := goesTo_skipBlanks c.offset c.rest

end Cursor

/-! ### The scanners of one token -/

section Scanners

variable {c next : Cursor} {start offset : Nat} {e : LexicalError}

/-- What a scanner reads from its own characters leads behind them. -/
theorem Takes.goesTo {α : Type} {scanner : Cursor → Except LexicalError (α × Cursor)} {value : α}
    {chunk : List Char} (h : scanner c = .ok (value, next)) (hrest : c.rest = chunk ++ next.rest)
    (htakes : Takes scanner chunk next.rest value) : c.GoesTo next := by
  have hnext := htakes c.offset next.rest (.refl _)
  rw [← hrest, show (⟨c.offset, c.rest⟩ : Cursor) = c from rfl, h] at hnext
  have hoffset : next = ⟨c.offset + byteLength chunk, next.rest⟩ :=
    (Prod.mk.inj (Except.ok.inj hnext)).2
  exact ⟨chunk, hrest, congrArg Cursor.offset hoffset⟩

/-- A quoted text is refused at its opening quote, or at an escape in it. -/
theorem scanText_error {quote : Char} {read cs : List Char}
    (h : scanText start quote offset read cs = .error e) :
    e.offset = start ∨ Cursor.HasBoundary ⟨offset, cs⟩ e.offset := by
  fun_induction scanText start quote offset read cs with
  | case1 =>
      cases h
      exact .inl rfl
  | case2 => cases h
  | case3 =>
      cases h
      exact .inl rfl
  | case4 => cases h
  | case5 offset read d cs _ _ _ ih =>
      have hgoes := (Cursor.goesTo_cons offset '\\' (d :: cs)).trans (Cursor.goesTo_cons _ d cs)
      exact (ih h).imp_right hgoes.hasBoundary_of
  | case6 =>
      cases h
      exact .inr (.here _)
  | case7 offset read c d cs _ _ ih =>
      exact (ih h).imp_right (Cursor.goesTo_cons offset c (d :: cs)).hasBoundary_of

theorem scanFraction_error (h : scanFraction c = .error e) : c.HasBoundary e.offset := by
  obtain ⟨offset, cs⟩ := c
  unfold scanFraction at h
  split at h
  · rename_i rest hrest
    cases hrest
    simp only at h
    split at h
    · cases h
      have hpoint := Cursor.goesTo_byte (c := '.') rfl offset rest
      exact (hpoint.trans (Cursor.goesTo_span _ isDigit)).hasBoundary
    · cases h
  · cases h

theorem goesTo_scanExponentSign (c : Cursor) : c.GoesTo (scanExponentSign c).2 := by
  obtain ⟨offset, cs⟩ := c
  unfold scanExponentSign
  split
  · rename_i hrest
    cases hrest
    exact Cursor.goesTo_byte rfl offset _
  · rename_i hrest
    cases hrest
    exact Cursor.goesTo_byte rfl offset _
  · exact .refl _

theorem scanExponent_error (h : scanExponent c = .error e) : c.HasBoundary e.offset := by
  obtain ⟨offset, cs⟩ := c
  unfold scanExponent at h
  split at h
  · rename_i mark rest hrest
    cases hrest
    split at h
    · rename_i hmark
      simp only at h
      split at h
      · cases h
        have hsize : mark.utf8Size = 1 := by
          rw [Bool.or_eq_true, beq_iff_eq, beq_iff_eq] at hmark
          cases hmark with
          | inl hlower => rw [hlower]; rfl
          | inr hupper => rw [hupper]; rfl
        have hgoes := (Cursor.goesTo_byte hsize offset rest).trans (goesTo_scanExponentSign _)
        exact (hgoes.trans (Cursor.goesTo_span _ isDigit)).hasBoundary
      · cases h
    · cases h
  · cases h

theorem numberLexeme_error {literal : List Char} {isWhole : Bool}
    (h : numberLexeme start literal isWhole = .error e) : e.offset = start := by
  unfold numberLexeme at h
  split at h
  · cases h
  · split at h
    · cases h
    · cases h
      rfl

/-- A number is refused where it begins, or behind a point or an exponent mark in it. -/
theorem scanNumber_error {sign : List Char} (h : scanNumber start sign c = .error e) :
    e.offset = start ∨ c.HasBoundary e.offset := by
  have hwhole := c.goesTo_span isDigit
  unfold scanNumber at h
  simp only at h
  split at h
  · rename_i hfraction
    cases h
    exact .inr (hwhole.hasBoundary_of (scanFraction_error hfraction))
  · rename_i fraction afterFraction hfraction
    obtain ⟨hrest, htakes⟩ := takes_scanFraction hfraction
    have hgoes := hwhole.trans (htakes.goesTo hfraction hrest)
    split at h
    · rename_i hexponent
      cases h
      exact .inr (hgoes.hasBoundary_of (scanExponent_error hexponent))
    · split at h
      · rename_i hlexeme
        cases h
        exact .inl (numberLexeme_error hlexeme)
      · cases h

theorem scanObject_error (h : scanObject c = .error e) : e.offset = c.offset := by
  unfold scanObject at h
  split at h
  · cases h
    rfl
  · split at h
    · cases h
    · cases h
      rfl

/-- A token is refused at its first character or at a later one. -/
theorem scanLexeme_error {first : Char} {cs : List Char}
    (h : scanLexeme offset first cs = .error e) :
    Cursor.HasBoundary ⟨offset, first :: cs⟩ e.offset := by
  have hhere : Cursor.HasBoundary ⟨offset, first :: cs⟩ offset := .here _
  have hnext := Cursor.goesTo_cons offset first cs
  unfold scanLexeme at h
  split at h
  · cases h
  split at h
  · cases htext : scanText offset first (offset + first.utf8Size) [] cs with
    | ok read =>
        rw [htext] at h
        cases h
    | error e' =>
        rw [htext] at h
        cases h
        rcases scanText_error htext with hstart | hlater
        · exact hstart ▸ hhere
        · exact hnext.hasBoundary_of hlater
  split at h
  · exact scanObject_error h ▸ hhere
  split at h
  · rcases scanNumber_error h with hstart | hlater
    · exact hstart ▸ hhere
    · exact hlater
  split at h
  · rcases scanNumber_error h with hstart | hlater
    · exact hstart ▸ hhere
    · exact hnext.hasBoundary_of hlater
  split at h
  · cases h
  · cases h
    exact hhere

theorem goesTo_scanLexeme {first : Char} {cs : List Char} {lexeme : Lexeme}
    (h : scanLexeme offset first cs = .ok (lexeme, next)) :
    Cursor.GoesTo ⟨offset, first :: cs⟩ next := by
  obtain ⟨chunk, rfl, hchunk⟩ := exists_chunk h
  have hnext := Except.ok.inj (h.symm.trans (hchunk offset next.rest (.refl _)))
  exact ⟨first :: chunk, rfl, congrArg Cursor.offset (Prod.mk.inj hnext).2⟩

end Scanners

/-! ### Whole texts -/

/-- Tokens begin between two characters. -/
theorem scanFrom_token_offset {c : Cursor} {token : Token} (h : token ∈ (scanFrom c).1) :
    c.HasBoundary token.offset := by
  obtain ⟨before, first, chunk, rest, hrest, -, hoffset, -⟩ := exists_chunk_of_mem h
  exact ⟨_, before, hrest, hoffset⟩

/-- Where scanning ends from a cursor on: at the end of the text, or at an error. -/
def Cursor.EndsWith (c : Cursor) : Ending → Prop
  | .ok stop => c.GoesTo ⟨stop, []⟩
  | .error e => c.HasBoundary e.offset

theorem Cursor.GoesTo.endsWith {c d : Cursor} {ending : Ending} (h : c.GoesTo d)
    (hd : d.EndsWith ending) : c.EndsWith ending := by
  cases ending with
  | ok stop => exact h.trans hd
  | error e => exact h.hasBoundary_of hd

theorem scanFrom_endsWith (c : Cursor) : c.EndsWith (scanFrom c).2 := by
  generalize hlength : c.rest.length = n
  induction n using Nat.strong_induction_on generalizing c with
  | _ n ih =>
      obtain ⟨passed, hpassed, -⟩ := c.goesTo_skip
      cases hrest : c.skip.rest with
      | nil =>
          have hend : c.skip = ⟨c.skip.offset, []⟩ := by rw [← hrest]
          rw [scanFrom_end hrest]
          exact hend ▸ c.goesTo_skip
      | cons first rest =>
          have hfirst : c.skip = ⟨c.skip.offset, first :: rest⟩ := by rw [← hrest]
          have hskip : c.GoesTo ⟨c.skip.offset, first :: rest⟩ := hfirst ▸ c.goesTo_skip
          cases hscan : scanLexeme c.skip.offset first rest with
          | error e =>
              rw [scanFrom_error hrest hscan]
              exact hskip.hasBoundary_of (scanLexeme_error hscan)
          | ok scanned =>
              obtain ⟨lexeme, next⟩ := scanned
              rw [scanFrom_token hrest hscan]
              refine (hskip.trans (goesTo_scanLexeme hscan)).endsWith (ih next.rest.length ?_ next rfl)
              have hshorter := length_le_of_scanLexeme hscan
              rw [hpassed, hrest, List.length_append, List.length_cons] at hlength
              omega

end BatchTransfer.Statement
