import BatchTransfer.Proofs.Json.Printed
import BatchTransfer.Proofs.Text.Blanks
import BatchTransfer.Statement.Lexer
import BatchTransfer.Options.Value

/-!
# Canonical texts and their tokens

`Spells cs ls` says that the characters `cs` are scanned to their end as tokens with the lexemes
`ls`, wherever they stand. There is one rule for blanks and one for each kind of lexeme in its
canonical text, given that what follows does not go on with the lexeme (`Stops`).
-/

namespace BatchTransfer.Statement

open BatchTransfer.Text BatchTransfer.Decimal

/-- The characters are scanned to their end as tokens with the lexemes `ls`. -/
def Spells (cs : List Char) (ls : List Lexeme) : Prop :=
  ∀ offset, (scanFrom ⟨offset, cs⟩).1.map Token.lexeme = ls ∧
    ∃ stop, (scanFrom ⟨offset, cs⟩).2 = .ok stop

/-- The characters do not go on with a word or a number. -/
def Stops (cs : List Char) : Prop := ∀ c ∈ cs.head?, isWordChar c = false

/-! ### Characters -/

theorem isWordStart_iff {c : Char} : isWordStart c = true ↔
    (97 ≤ c.toNat ∧ c.toNat ≤ 122 ∨ 65 ≤ c.toNat ∧ c.toNat ≤ 90) ∨ c.toNat = 95 := by
  have hunderscore : c = '_' ↔ c.toNat = 95 := (Char.toNat_inj (d := '_')).symm
  simp [isWordStart, isLetter, Char.le_def, UInt32.le_iff_toNat_le, hunderscore]

/-- The characters that are lexemes by themselves. -/
def signs : List Char := ['(', ')', '[', ']', ',', '=', ';']

theorem signOf?_eq_none {c : Char} (h : c ∉ signs) : signOf? c = none := by
  simp only [signs, List.mem_cons, List.not_mem_nil, or_false, not_or] at h
  simp [signOf?, h]

theorem mem_signs_of_signOf? {c : Char} {lexeme : Lexeme} (h : signOf? c = some lexeme) :
    c ∈ signs := by
  refine Decidable.byContradiction fun hc => ?_
  rw [signOf?_eq_none hc] at h
  cases h

/-- A character that satisfies `p` is none of those that do not. -/
theorem not_mem_of_any {p : Char → Bool} {c : Char} {ds : List Char} (h : p c = true)
    (hds : ds.any p = false) : c ∉ ds :=
  fun hc => List.any_eq_false.mp hds c hc h

theorem isWordChar_of_isWordStart {c : Char} (h : isWordStart c = true) : isWordChar c = true := by
  simp only [isWordStart, Bool.or_eq_true] at h
  simp only [isWordChar, Bool.or_eq_true]
  exact h.elim (fun hletter => .inl (.inl (.inl hletter))) fun hscore => .inl (.inr hscore)

theorem Stops.isDigit {rest : List Char} (h : Stops rest) :
    ∀ c ∈ rest.head?, isDigit c = false := by
  intro c hc
  have hword := h c hc
  simp only [isWordChar, Bool.or_eq_false_iff] at hword
  exact hword.1.1.2

theorem Stops.ne {c d : Char} {rest : List Char} (h : Stops (c :: rest))
    (hd : isWordChar d = true) : c ≠ d := by
  rintro rfl
  rw [h c rfl] at hd
  cases hd

/-- A span of characters that satisfy `p` ends where one does not. -/
theorem Cursor.span_append {p : Char → Bool} {cs rest : List Char} (offset : Nat)
    (hcs : ∀ c ∈ cs, p c = true) (hrest : ∀ c ∈ rest.head?, p c = false) :
    Cursor.span ⟨offset, cs ++ rest⟩ p = (cs, ⟨offset + byteLength cs, rest⟩) := by
  obtain ⟨htake, hdrop⟩ := takeWhile_append_stop hcs hrest
  simp only [Cursor.span, htake, hdrop]

/-! ### Blanks -/

theorem Cursor.skipBlanks_blank {c : Char} (h : isBlank c = true) (offset : Nat) (cs : List Char) :
    Cursor.skipBlanks offset (c :: cs) = Cursor.skipBlanks (offset + c.utf8Size) cs := by
  cases cs with
  | nil => simp [Cursor.skipBlanks, h]
  | cons d ds => simp [Cursor.skipBlanks, h]

/-- A character that is not blank and begins no comment is not passed over. -/
theorem Cursor.skipBlanks_token {c : Char} {cs : List Char} (hblank : isBlank c = false)
    (hdash : c = '-' → cs.head? ≠ some '-') (offset : Nat) :
    Cursor.skipBlanks offset (c :: cs) = ⟨offset, c :: cs⟩ := by
  cases cs with
  | nil => simp [Cursor.skipBlanks, hblank]
  | cons d ds =>
      have hcomment : ¬(c = '-' ∧ d = '-') := fun ⟨hc, hd⟩ => hdash hc (by simp [hd])
      simp [Cursor.skipBlanks, hblank, hcomment]

/-! ### The first token -/

section ScanFrom

variable {c d next : Cursor} {first : Char} {rest : List Char} {lexeme : Lexeme}

theorem scanFrom_end (hrest : c.skip.rest = []) : scanFrom c = ([], .ok c.skip.offset) := by
  rw [scanFrom]
  split
  · rfl
  · rename_i h
    rw [hrest] at h
    cases h

theorem scanFrom_error {e : LexicalError} (hrest : c.skip.rest = first :: rest)
    (hscan : scanLexeme c.skip.offset first rest = .error e) : scanFrom c = ([], .error e) := by
  rw [scanFrom]
  split
  · rename_i h
    rw [hrest] at h
    cases h
  · rename_i h
    cases hrest.symm.trans h
    split
    · rename_i hs
      cases hscan.symm.trans hs
      rfl
    · rename_i hs
      cases hscan.symm.trans hs

theorem scanFrom_token (hrest : c.skip.rest = first :: rest)
    (hscan : scanLexeme c.skip.offset first rest = .ok (lexeme, next)) :
    scanFrom c =
      (⟨lexeme, c.skip.offset, next.offset⟩ :: (scanFrom next).1, (scanFrom next).2) := by
  rw [scanFrom]
  split
  · rename_i h
    rw [hrest] at h
    cases h
  · rename_i h
    cases hrest.symm.trans h
    split
    · rename_i hs
      cases hscan.symm.trans hs
    · rename_i hs
      cases hscan.symm.trans hs
      rfl

/-- Scanning from a place on is scanning from the place of the next token on. -/
theorem scanFrom_congr (h : c.skip = d.skip) : scanFrom c = scanFrom d := by
  cases hrest : d.skip.rest with
  | nil => rw [scanFrom_end hrest, scanFrom_end (h ▸ hrest), h]
  | cons first rest =>
      cases hscan : scanLexeme d.skip.offset first rest with
      | error e => rw [scanFrom_error hrest hscan, scanFrom_error (h ▸ hrest) (h ▸ hscan)]
      | ok scanned =>
          obtain ⟨lexeme, next⟩ := scanned
          rw [scanFrom_token hrest hscan, scanFrom_token (h ▸ hrest) (h ▸ hscan), h]

end ScanFrom

namespace Spells

variable {c : Char} {cs rest : List Char} {lexeme : Lexeme} {ls : List Lexeme}

theorem nil : Spells [] [] := by
  intro offset
  rw [scanFrom_end rfl]
  exact ⟨rfl, _, rfl⟩

theorem blank (hc : isBlank c = true) (h : Spells cs ls) : Spells (c :: cs) ls := by
  intro offset
  have hskip : Cursor.skip ⟨offset, c :: cs⟩ = Cursor.skip ⟨offset + c.utf8Size, cs⟩ :=
    Cursor.skipBlanks_blank hc offset cs
  rw [scanFrom_congr hskip]
  exact h _

/-- A lexeme that is scanned from the first character on is in front of what follows. -/
theorem token (hblank : isBlank c = false) (hdash : c = '-' → cs.head? ≠ some '-')
    (hscan : ∀ offset, ∃ stop, scanLexeme offset c cs = .ok (lexeme, ⟨stop, rest⟩))
    (h : Spells rest ls) : Spells (c :: cs) (lexeme :: ls) := by
  intro offset
  have hskip : Cursor.skip ⟨offset, c :: cs⟩ = ⟨offset, c :: cs⟩ :=
    Cursor.skipBlanks_token hblank hdash offset
  obtain ⟨stop, hstop⟩ := hscan offset
  have htoken := scanFrom_token (c := ⟨offset, c :: cs⟩) (by rw [hskip])
    (by rw [hskip]; exact hstop)
  rw [htoken]
  obtain ⟨hlexemes, hending⟩ := h stop
  exact ⟨by simp [hlexemes], hending⟩

/-- A sign stands for itself. -/
theorem sign (hsign : signOf? c = some lexeme) (h : Spells cs ls) :
    Spells (c :: cs) (lexeme :: ls) := by
  have hc := mem_signs_of_signOf? hsign
  have hsigns : ∀ d ∈ signs, isBlank d = false ∧ d ≠ '-' :=
    List.all_iff_forall_prop.mp (by decide)
  refine .token (hsigns c hc).1 (fun hdash => absurd hdash (hsigns c hc).2) ?_ h
  intro offset
  exact ⟨_, by rw [scanLexeme, hsign]⟩

/-- A word is scanned up to the first character that is not of it. -/
theorem word (c : Char) (cs : List Char) (hc : isWordStart c = true)
    (hcs : cs.all isWordChar = true) (hrest : Stops rest) (h : Spells rest ls) :
    Spells (c :: (cs ++ rest)) (.word (String.ofList (c :: cs)) :: ls) := by
  have hcode := isWordStart_iff.mp hc
  have hsigns : c ∉ signs := not_mem_of_any hc (by decide)
  have hmarks : c ∉ ['"', '\'', '{', '-'] := not_mem_of_any hc (by decide)
  simp only [List.mem_cons, List.not_mem_nil, or_false, not_or] at hmarks
  have hdigit : isDigit c = false := by
    rw [← Bool.not_eq_true, isDigit_iff]
    omega
  have hword : ∀ d ∈ c :: cs, isWordChar d = true := by
    intro d hd
    rcases List.mem_cons.mp hd with rfl | hd
    · exact isWordChar_of_isWordStart hc
    · exact List.all_eq_true.mp hcs d hd
  refine .token (isBlank_eq_false (by omega) (by omega)) (fun hdash => absurd hdash hmarks.2.2.2)
    ?_ h
  intro offset
  have hspan := Cursor.span_append offset hword hrest
  rw [List.cons_append] at hspan
  refine ⟨offset + byteLength (c :: cs), ?_⟩
  simp [scanLexeme, signOf?_eq_none hsigns, hmarks, hdigit, hc, hspan]

end Spells

/-! ### Quoted texts -/

/-- A character of a quoted text is read back from what stands for it. -/
theorem scanText_escapeChar (c : Char) (start offset : Nat) (read : List Char) {more : List Char}
    (hmore : more ≠ []) :
    ∃ next, scanText start '"' offset read (OptionValue.escapeChar c ++ more) =
      scanText start '"' next (c :: read) more := by
  obtain ⟨d, ds, rfl⟩ := List.exists_cons_of_ne_nil hmore
  unfold OptionValue.escapeChar
  split
  · rename_i hc
    rw [eq_of_beq hc]
    exact ⟨_, rfl⟩
  · rename_i hquote
    split
    · rename_i hc
      rw [eq_of_beq hc]
      exact ⟨_, rfl⟩
    · rename_i hbackslash
      repeat' split
      iterate 3
        · rename_i hc
          rw [eq_of_beq hc]
          exact ⟨_, rfl⟩
      · rw [beq_iff_eq] at hquote hbackslash
        exact ⟨offset + c.utf8Size, by simp [scanText, hquote, hbackslash]⟩

/-- A text is read back from its quoted form. -/
theorem scanText_flatMap (cs rest : List Char) (start offset : Nat) (read : List Char) :
    ∃ stop, scanText start '"' offset read (cs.flatMap OptionValue.escapeChar ++ '"' :: rest) =
      .ok (String.ofList (read.reverse ++ cs), ⟨stop, rest⟩) := by
  induction cs generalizing offset read with
  | nil =>
      cases rest with
      | nil => exact ⟨offset + '"'.utf8Size, by simp [scanText]⟩
      | cons d ds => exact ⟨offset + '"'.utf8Size, by simp [scanText]⟩
  | cons c cs ih =>
      rw [List.flatMap_cons, List.append_assoc]
      have hmore : cs.flatMap OptionValue.escapeChar ++ '"' :: rest ≠ [] := by simp
      obtain ⟨next, hnext⟩ := scanText_escapeChar c start offset read hmore
      obtain ⟨stop, hstop⟩ := ih next (c :: read)
      refine ⟨stop, ?_⟩
      rw [hnext, hstop]
      simp

theorem Spells.quoted {rest : List Char} {ls : List Lexeme} (s : String) (h : Spells rest ls) :
    Spells (OptionValue.quotedChars s ++ rest) (.quoted s :: ls) := by
  rw [OptionValue.quotedChars, List.cons_append, List.append_assoc, List.singleton_append]
  refine .token (by decide) (fun hdash => absurd hdash (by decide)) ?_ h
  intro offset
  obtain ⟨stop, hstop⟩ := scanText_flatMap s.toList rest offset (offset + '"'.utf8Size) []
  refine ⟨stop, ?_⟩
  have hsign : signOf? '"' = none := by decide
  simp [scanLexeme, hsign, hstop, Except.map]

/-! ### Numbers -/

section Numbers

variable {start offset : Nat} {sign whole fraction rest : List Char} {lexeme : Lexeme}

theorem scanFraction_of_stops (h : Stops rest) (offset : Nat) :
    scanFraction ⟨offset, rest⟩ = .ok (none, ⟨offset, rest⟩) := by
  unfold scanFraction
  split
  · rename_i heq
    cases heq
    exact absurd rfl (h.ne (d := '.') (by decide))
  · rfl

theorem scanExponent_of_stops (h : Stops rest) (offset : Nat) :
    scanExponent ⟨offset, rest⟩ = .ok (none, ⟨offset, rest⟩) := by
  cases rest with
  | nil => rfl
  | cons e rest =>
      have hlower : e ≠ 'e' := h.ne (by decide)
      have hupper : e ≠ 'E' := h.ne (by decide)
      simp [scanExponent, hlower, hupper]

/-- Digits up to a character that stops them are scanned as a whole number. -/
theorem scanNumber_whole (hwhole : ∀ c ∈ whole, isDigit c = true) (hrest : Stops rest)
    (hvalue : numberLexeme start (sign ++ whole) true = .ok lexeme) :
    ∃ stop, scanNumber start sign ⟨offset, whole ++ rest⟩ = .ok (lexeme, ⟨stop, rest⟩) := by
  refine ⟨offset + byteLength whole, ?_⟩
  simp [scanNumber, Cursor.span_append offset hwhole hrest.isDigit, scanFraction_of_stops hrest,
    scanExponent_of_stops hrest, hvalue]

/-- Digits, a point and digits up to a character that stops them are scanned as one number. -/
theorem scanNumber_fraction (hwhole : ∀ c ∈ whole, isDigit c = true) (hfraction : fraction ≠ [])
    (hfractionDigits : ∀ c ∈ fraction, isDigit c = true) (hrest : Stops rest)
    (hvalue : numberLexeme start (sign ++ (whole ++ '.' :: fraction)) false = .ok lexeme) :
    ∃ stop, scanNumber start sign ⟨offset, whole ++ '.' :: (fraction ++ rest)⟩ =
      .ok (lexeme, ⟨stop, rest⟩) := by
  have hpoint : ∀ c ∈ ('.' :: (fraction ++ rest)).head?, isDigit c = false := by
    rintro _ ⟨⟩
    decide
  refine ⟨offset + byteLength whole + 1 + byteLength fraction, ?_⟩
  simp [scanNumber, Cursor.span_append offset hwhole hpoint, scanFraction,
    Cursor.span_append _ hfractionDigits hrest.isDigit, hfraction, scanExponent_of_stops hrest,
    hvalue]

end Numbers

namespace Spells

variable {rest : List Char} {ls : List Lexeme} {lexeme : Lexeme}

/-- A number begins with a digit, or with a minus sign and a digit. -/
theorem number {sign cs : List Char} (hsign : sign = [] ∨ sign = ['-'])
    (hcs : ∃ c ds, cs = c :: ds ∧ isDigit c = true)
    (hscan : ∀ start offset, ∃ stop,
      scanNumber start sign ⟨offset, cs⟩ = .ok (lexeme, ⟨stop, rest⟩))
    (h : Spells rest ls) : Spells (sign ++ cs) (lexeme :: ls) := by
  obtain ⟨c, ds, rfl, hc⟩ := hcs
  have hcode := isDigit_iff.mp hc
  have hmarks : c ∉ '"' :: '\'' :: '{' :: '-' :: signs := not_mem_of_any hc (by decide)
  simp only [List.mem_cons, not_or] at hmarks
  obtain ⟨hquote, happostrophe, hbrace, hdash, hsigns⟩ := hmarks
  rcases hsign with rfl | rfl
  · refine .token (isBlank_eq_false (by omega) (by omega)) (fun heq => absurd heq hdash) ?_ h
    intro offset
    obtain ⟨stop, hstop⟩ := hscan offset offset
    refine ⟨stop, ?_⟩
    simp [scanLexeme, signOf?_eq_none hsigns, hquote, happostrophe, hbrace, hc, hstop]
  · refine .token (by decide) (fun _ => by simp [hdash]) ?_ h
    intro offset
    obtain ⟨stop, hstop⟩ := hscan offset (offset + '-'.utf8Size)
    refine ⟨stop, ?_⟩
    have hminus : signOf? '-' = none ∧ isDigit '-' = false := by decide
    simp [scanLexeme, hminus, startsWithDigit, hc, hstop]

theorem integer {i : Int} (hi : signed64.contains i = true) (hrest : Stops rest)
    (h : Spells rest ls) : Spells (integerChars i ++ rest) (.integer i :: ls) := by
  have hread := readInteger?_integerChars hi
  have hnumber (n : Nat) (sign : List Char) (hsign : sign = [] ∨ sign = ['-'])
      (hi : integerChars i = sign ++ digits n) :
      Spells (integerChars i ++ rest) (.integer i :: ls) := by
    rw [hi, List.append_assoc]
    refine .number hsign ?_ ?_ h
    · obtain ⟨c, cs, hcs⟩ := List.exists_cons_of_ne_nil (digits_ne_nil n)
      exact ⟨c, cs ++ rest, by rw [hcs]; rfl, isDigit_of_mem_digits (hcs ▸ List.mem_cons_self)⟩
    · intro start offset
      refine scanNumber_whole (fun _ => isDigit_of_mem_digits) hrest ?_
      simp [numberLexeme, ← hi, hread]
  cases i with
  | ofNat n => exact hnumber n [] (.inl rfl) rfl
  | negSucc n => exact hnumber (n + 1) ['-'] (.inr rfl) rfl

theorem float {x : Float} (hx : readFloat? (optionLayout.chars x) = some x) (hrest : Stops rest)
    (h : Spells rest ls) : Spells (optionLayout.chars x ++ rest) (.float x :: ls) := by
  have hpoint := pointNumeral_chars (x := x) (by rw [hx]; rfl)
  generalize optionLayout.chars x = cs at hx hpoint
  cases hpoint with
  | numeral hsign hwhole hwholeDigits hfraction hfractionDigits =>
      rename_i sign whole fraction
      rw [List.append_assoc, List.append_assoc, List.cons_append]
      refine .number hsign ?_ ?_ h
      · obtain ⟨c, cs, rfl⟩ := List.exists_cons_of_ne_nil hwhole
        exact ⟨c, _, rfl, hwholeDigits c List.mem_cons_self⟩
      · intro start offset
        refine scanNumber_fraction hwholeDigits hfraction hfractionDigits hrest ?_
        simp [numberLexeme, hx]

end Spells

/-! ### Objects -/

/-- The search for the end of an object goes over the characters without finding it. -/
def Passes (mode next : BraceMode) (depth depthNext : Nat) (cs : List Char) : Prop :=
  ∀ offset read rest, ∃ stop, scanBraces mode depth offset read (cs ++ rest) =
    scanBraces next depthNext stop (cs.reverse ++ read) rest

namespace Passes

variable {mode next last : BraceMode} {depth depthNext depthLast : Nat} {c : Char}
  {cs ds : List Char}

theorem nil : Passes mode mode depth depth [] := fun offset _ _ => ⟨offset, rfl⟩

theorem append (hcs : Passes mode next depth depthNext cs)
    (hds : Passes next last depthNext depthLast ds) :
    Passes mode last depth depthLast (cs ++ ds) := by
  intro offset read rest
  obtain ⟨middle, hmiddle⟩ := hcs offset read (ds ++ rest)
  obtain ⟨stop, hstop⟩ := hds middle (cs.reverse ++ read) rest
  refine ⟨stop, ?_⟩
  rw [List.append_assoc, hmiddle, hstop, List.reverse_append, List.append_assoc]

theorem cons (hc : ¬(mode = .outside ∧ (c = '}' ∨ c = ']') ∧ depthAfter mode depth c = 0))
    (hnext : mode.next c = next) (hdepth : depthAfter mode depth c = depthNext)
    (hcs : Passes next last depthNext depthLast cs) :
    Passes mode last depth depthLast (c :: cs) := by
  intro offset read rest
  obtain ⟨stop, hstop⟩ := hcs (offset + c.utf8Size) (c :: read) rest
  refine ⟨stop, ?_⟩
  rw [List.cons_append, scanBraces, if_neg hc, hnext, hdepth, hstop, List.reverse_cons,
    List.append_assoc, List.singleton_append]

/-- The body of a string is passed over inside the string. -/
theorem of_stringBody (h : Json.StringBody cs) : Passes .inString .inString depth depth cs := by
  induction h with
  | nil => exact .nil
  | char hquote hbackslash _ _ ih =>
      exact .cons (by simp) (by simp [BraceMode.next, hquote, hbackslash]) rfl ih
  | @escape c cs _ _ ih =>
      have hescaped : Passes .afterBackslash .inString depth depth (c :: cs) :=
        .cons (by simp) rfl rfl ih
      exact .cons (by simp) rfl rfl hescaped

/-- Balanced characters inside a bracket or brace are passed over. -/
theorem of_balanced (h : Json.Balanced cs) (depth : Nat) :
    Passes .outside .outside (depth + 1) (depth + 1) cs := by
  induction h generalizing depth with
  | nil => exact .nil
  | plain hc _ ih =>
      simp only [Json.IsPlain, List.mem_cons, List.not_mem_nil, or_false, not_or] at hc
      exact .cons (by simp [hc]) (by simp [BraceMode.next, hc]) (by simp [depthAfter, hc])
        (ih depth)
  | string hbody _ ih =>
      exact .cons (by simp) rfl rfl
        ((of_stringBody hbody).append (.cons (by simp) rfl rfl (ih depth)))
  | brackets _ _ ih ih' =>
      exact .cons (by simp) rfl rfl
        ((ih (depth + 1)).append (.cons (by simp [depthAfter]) rfl rfl (ih' depth)))
  | braces _ _ ih ih' =>
      exact .cons (by simp) rfl rfl
        ((ih (depth + 1)).append (.cons (by simp [depthAfter]) rfl rfl (ih' depth)))

end Passes

/-- The end of an object is found behind its text. -/
theorem scanBraces_object (r : Record) (offset : Nat) (rest : List Char) :
    ∃ stop, scanBraces .outside 0 offset [] (Json.chars r.toJson ++ rest) =
      some (Json.chars r.toJson, ⟨stop, rest⟩) := by
  obtain ⟨inner, hchars, hinner⟩ := Json.exists_objectChars r.fields
  have hopening : Passes .outside .outside 0 1 ('{' :: inner) :=
    .cons (by simp) rfl rfl (.of_balanced hinner 0)
  obtain ⟨stop, hstop⟩ := hopening offset [] ('}' :: rest)
  refine ⟨stop + '}'.utf8Size, ?_⟩
  have htext : Json.chars r.toJson ++ rest = ('{' :: inner) ++ '}' :: rest := by
    rw [Record.toJson, hchars]
    simp
  rw [htext, hstop, scanBraces, if_pos (by simp [depthAfter]), Record.toJson, hchars]
  simp

theorem Spells.object {r : Record} {rest : List Char} {ls : List Lexeme} (hr : r.ReadsBack)
    (h : Spells rest ls) : Spells (Json.chars r.toJson ++ rest) (.object r :: ls) := by
  obtain ⟨inner, hchars, -⟩ := Json.exists_objectChars r.fields
  have hbraces := scanBraces_object r
  have hread := hr.readChars?
  rw [Record.toJson, hchars] at hbraces hread ⊢
  refine .token (by decide) (fun hdash => absurd hdash (by decide)) ?_ h
  intro offset
  obtain ⟨stop, hstop⟩ := hbraces offset rest
  refine ⟨stop, ?_⟩
  have hobject : scanObject ⟨offset, '{' :: (inner ++ ['}']) ++ rest⟩ =
      .ok (.object r, ⟨stop, rest⟩) := by
    simp only [scanObject, hstop, hread]
  exact hobject

end BatchTransfer.Statement
