import BatchTransfer.Proofs.Statement.Scanning
import BatchTransfer.Text.Caseless

/-!
# Tokens are read from their own characters

A token is the same wherever its characters stand, and whatever comes behind it, as long as that does
not go on with it. `Chunk` says so of the characters of one token and `Gap` of what is passed over in
front of one; `exists_chunk` gives the first and `exists_gap` the second. Together they take a text
apart at its first token, `exists_first`, and put it together again with something else behind it,
`scanFrom_chunk`.
-/

namespace BatchTransfer.Statement

open BatchTransfer.Text BatchTransfer.Decimal

/-! ### What may come behind a token -/

/-- Two texts behind a token that do not make a difference to it: the second goes on with no word or
number, or begins as the first does, up to letter case. -/
def Alike (rest rest' : List Char) : Prop :=
  Stops rest' ∨ rest'.head?.map Char.toLower = rest.head?.map Char.toLower

namespace Alike

variable {rest rest' : List Char} {p : Char → Bool}

theorem refl (rest : List Char) : Alike rest rest := .inr rfl

theorem append (cs : List Char) (h : Alike rest rest') : Alike (cs ++ rest) (cs ++ rest') := by
  cases cs with
  | nil => exact h
  | cons c cs => exact .inr rfl

/-- A character that cannot go on with a word or number, and is the same in both letter cases, stops
in front of the one text if it stops in front of the other. -/
theorem stops (h : Alike rest rest') (hword : ∀ c, p c = true → isWordChar c = true)
    (hlower : ∀ c, p c = p c.toLower) (hrest : ∀ c ∈ rest.head?, p c = false) :
    ∀ c ∈ rest'.head?, p c = false := by
  intro c hc
  cases h with
  | inl hstops =>
      cases hp : p c with
      | false => rfl
      | true =>
          have hstop := hstops c hc
          rw [hword c hp] at hstop
          cases hstop
  | inr hsame =>
      rw [hc, Option.map_some] at hsame
      obtain ⟨d, hd, hcase⟩ := Option.map_eq_some_iff.mp hsame.symm
      rw [hlower c, ← hcase, ← hlower d]
      exact hrest d hd

end Alike

/-! ### Letter case -/

theorem isWordChar_iff {c : Char} : isWordChar c = true ↔
    (97 ≤ c.toNat ∧ c.toNat ≤ 122 ∨ 65 ≤ c.toNat ∧ c.toNat ≤ 90) ∨
      (48 ≤ c.toNat ∧ c.toNat ≤ 57) ∨ c.toNat = 95 ∨ c.toNat = 46 := by
  have hunderscore : c = '_' ↔ c.toNat = 95 := (Char.toNat_inj (d := '_')).symm
  have hpoint : c = '.' ↔ c.toNat = 46 := (Char.toNat_inj (d := '.')).symm
  simp [isWordChar, isLetter, isDigit, Char.le_def, UInt32.le_iff_toNat_le, hunderscore, hpoint,
    or_assoc]

theorem isDigit_toLower (c : Char) : isDigit c = isDigit c.toLower := by
  rw [Bool.eq_iff_iff, isDigit_iff, isDigit_iff, toNat_toLower]
  split <;> omega

theorem isWordStart_toLower (c : Char) : isWordStart c = isWordStart c.toLower := by
  rw [Bool.eq_iff_iff, isWordStart_iff, isWordStart_iff, toNat_toLower]
  split <;> omega

theorem isWordChar_toLower (c : Char) : isWordChar c = isWordChar c.toLower := by
  rw [Bool.eq_iff_iff, isWordChar_iff, isWordChar_iff, toNat_toLower]
  split <;> omega

theorem isWordChar_of_isDigit {c : Char} (h : isDigit c = true) : isWordChar c = true := by
  rw [isWordChar_iff]
  rw [isDigit_iff] at h
  omega

/-- What stops digits in front of a text stops them in front of one like it. -/
theorem Alike.isDigit {rest rest' : List Char} (h : Alike rest rest')
    (hrest : ∀ c ∈ rest.head?, isDigit c = false) : ∀ c ∈ rest'.head?, isDigit c = false :=
  h.stops (fun _ => isWordChar_of_isDigit) isDigit_toLower hrest

/-- A point, which is the same in both letter cases. -/
theorem isPoint_toLower (c : Char) : (c == '.') = (c.toLower == '.') := by
  have hpoint (c : Char) : c = '.' ↔ c.toNat = 46 := (Char.toNat_inj (d := '.')).symm
  rw [Bool.eq_iff_iff, beq_iff_eq, beq_iff_eq, hpoint, hpoint, toNat_toLower]
  split <;> omega

/-- The character that begins an exponent. -/
def isExponentMark (c : Char) : Bool := c == 'e' || c == 'E'

theorem isExponentMark_iff {c : Char} :
    isExponentMark c = true ↔ c.toNat = 101 ∨ c.toNat = 69 := by
  have hlower : c = 'e' ↔ c.toNat = 101 := (Char.toNat_inj (d := 'e')).symm
  have hupper : c = 'E' ↔ c.toNat = 69 := (Char.toNat_inj (d := 'E')).symm
  simp [isExponentMark, hlower, hupper]

theorem isExponentMark_toLower (c : Char) : isExponentMark c = isExponentMark c.toLower := by
  rw [Bool.eq_iff_iff, isExponentMark_iff, isExponentMark_iff, toNat_toLower]
  split <;> omega

/-! ### Chunks of the scanners -/

/-- A scanner reads a value from the characters, wherever they stand and whatever comes behind them
that is like `rest`. -/
def Takes {α : Type} (scanner : Cursor → Except LexicalError (α × Cursor)) (chunk rest : List Char)
    (value : α) : Prop :=
  ∀ offset rest', Alike rest rest' →
    scanner ⟨offset, chunk ++ rest'⟩ = .ok (value, ⟨offset + byteLength chunk, rest'⟩)

section Scanners

variable {c next : Cursor} {start offset : Nat}

/-- A text falls into the characters at its beginning that satisfy `p` and what is behind them. -/
theorem exists_span (p : Char → Bool) (cs : List Char) :
    ∃ read rest, cs = read ++ rest ∧ (∀ c ∈ read, p c = true) ∧ ∀ c ∈ rest.head?, p c = false := by
  refine ⟨cs.takeWhile p, cs.dropWhile p, List.takeWhile_append_dropWhile.symm,
    fun c hc => List.mem_takeWhile_imp hc, fun c hc => ?_⟩
  have hstop := List.head?_dropWhile_not p cs
  rw [hc] at hstop
  exact hstop

/-- Without a point there is no fraction. -/
theorem scanFraction_none {cs : List Char} (h : ∀ c ∈ cs.head?, (c == '.') = false) (offset : Nat) :
    scanFraction ⟨offset, cs⟩ = .ok (none, ⟨offset, cs⟩) := by
  unfold scanFraction
  split
  · rename_i heq
    cases heq
    cases h _ rfl
  · rfl

/-- Without an exponent mark there is no exponent. -/
theorem scanExponent_none {cs : List Char} (h : ∀ c ∈ cs.head?, isExponentMark c = false)
    (offset : Nat) : scanExponent ⟨offset, cs⟩ = .ok (none, ⟨offset, cs⟩) := by
  cases cs with
  | nil => rfl
  | cons e rest =>
      have hmark : (e == 'e' || e == 'E') = false := h e rfl
      simp [scanExponent, hmark]

/-- A fraction, or that there is none, is read from its own characters. -/
theorem takes_scanFraction {fraction : Option (List Char)}
    (h : scanFraction c = .ok (fraction, next)) :
    c.rest = fraction.getD [] ++ next.rest ∧
      Takes scanFraction (fraction.getD []) next.rest fraction := by
  obtain ⟨offset, cs⟩ := c
  by_cases hpoint : ∀ c ∈ cs.head?, (c == '.') = false
  · rw [scanFraction_none hpoint] at h
    cases h
    refine ⟨rfl, fun offset' rest' hrest' => scanFraction_none ?_ offset'⟩
    refine hrest'.stops ?_ isPoint_toLower hpoint
    intro c hc
    rw [eq_of_beq hc]
    decide
  · obtain ⟨rest, rfl⟩ : ∃ rest, cs = '.' :: rest := by
      cases cs with
      | nil => exact absurd nofun hpoint
      | cons c rest =>
          refine ⟨rest, ?_⟩
          simpa using hpoint
    obtain ⟨digits, rest, rfl, hdigits, hrest⟩ := exists_span isDigit rest
    simp only [scanFraction, Cursor.span_append _ hdigits hrest] at h
    split at h
    · cases h
    · rename_i hsome
      cases h
      refine ⟨rfl, fun offset' rest' hrest' => ?_⟩
      have hspan := Cursor.span_append (offset' + 1) hdigits (Alike.isDigit hrest' hrest)
      have hsize : '.'.utf8Size = 1 := rfl
      simp only [Option.getD_some, List.cons_append, scanFraction, hspan, if_neg hsome,
        byteLength_cons, hsize, Nat.add_assoc]

/-- The sign of an exponent is read from its own characters. Where there is none, digits follow. -/
theorem exists_exponentSign (cs : List Char) :
    ∃ sign rest, cs = sign ++ rest ∧ ∀ offset rest', rest' = rest ∨ startsWithDigit rest' = true →
      scanExponentSign ⟨offset, sign ++ rest'⟩ = (sign, ⟨offset + byteLength sign, rest'⟩) := by
  by_cases hplus : cs.head? = some '+'
  · obtain ⟨rest, rfl⟩ := List.head?_eq_some_iff.mp hplus
    exact ⟨['+'], rest, rfl, fun _ _ _ => rfl⟩
  by_cases hminus : cs.head? = some '-'
  · obtain ⟨rest, rfl⟩ := List.head?_eq_some_iff.mp hminus
    exact ⟨['-'], rest, rfl, fun _ _ _ => rfl⟩
  refine ⟨[], cs, rfl, fun offset rest' hrest' => ?_⟩
  have hsigns : rest'.head? ≠ some '+' ∧ rest'.head? ≠ some '-' := by
    cases hrest' with
    | inl hsame => exact hsame ▸ ⟨hplus, hminus⟩
    | inr hdigit =>
        cases rest' with
        | nil => exact ⟨nofun, nofun⟩
        | cons c rest' =>
            have hc : isDigit c = true := hdigit
            constructor
            · rintro ⟨⟩
              exact absurd hc (by decide)
            · rintro ⟨⟩
              exact absurd hc (by decide)
  rw [List.nil_append]
  unfold scanExponentSign
  split
  · rename_i hrest
    cases hrest
    exact absurd rfl hsigns.1
  · rename_i hrest
    cases hrest
    exact absurd rfl hsigns.2
  · rfl

theorem startsWithDigit_append {digits : List Char} (rest : List Char) (hsome : digits ≠ [])
    (hdigits : ∀ c ∈ digits, isDigit c = true) : startsWithDigit (digits ++ rest) = true := by
  cases digits with
  | nil => exact absurd rfl hsome
  | cons c digits => exact hdigits c List.mem_cons_self

/-- An exponent, or that there is none, is read from its own characters. -/
theorem takes_scanExponent {exponent : Option (List Char)}
    (h : scanExponent c = .ok (exponent, next)) :
    c.rest = exponent.getD [] ++ next.rest ∧
      Takes scanExponent (exponent.getD []) next.rest exponent := by
  obtain ⟨offset, cs⟩ := c
  by_cases hmark : ∀ c ∈ cs.head?, isExponentMark c = false
  · rw [scanExponent_none hmark] at h
    cases h
    refine ⟨rfl, fun offset' rest' hrest' => scanExponent_none ?_ offset'⟩
    refine hrest'.stops ?_ isExponentMark_toLower hmark
    intro c hc
    rw [isExponentMark_iff] at hc
    rw [isWordChar_iff]
    omega
  · obtain ⟨e, rest, rfl, he⟩ : ∃ e rest, cs = e :: rest ∧ (e == 'e' || e == 'E') = true := by
      cases cs with
      | nil => exact absurd nofun hmark
      | cons e rest =>
          refine ⟨e, rest, rfl, ?_⟩
          cases he : (e == 'e' || e == 'E') with
          | true => rfl
          | false =>
              refine absurd (fun c hc => ?_) hmark
              cases hc
              exact he
    obtain ⟨sign, behind, rfl, hsign⟩ := exists_exponentSign rest
    obtain ⟨digits, rest, rfl, hdigits, hrest⟩ := exists_span isDigit behind
    simp only [scanExponent, he, if_true, hsign _ _ (.inl rfl),
      Cursor.span_append _ hdigits hrest] at h
    split at h
    · cases h
    · rename_i hsome
      cases h
      refine ⟨by simp, fun offset' rest' hrest' => ?_⟩
      have hsize : e.utf8Size = 1 := by
        rw [Bool.or_eq_true, beq_iff_eq, beq_iff_eq] at he
        cases he with
        | inl hlower => rw [hlower]; rfl
        | inr hupper => rw [hupper]; rfl
      have hstart := startsWithDigit_append rest' (fun hnil => hsome (by rw [hnil]; rfl)) hdigits
      have hspan := Cursor.span_append (offset' + 1 + byteLength sign) hdigits
        (Alike.isDigit hrest' hrest)
      simp only [Option.getD_some, List.cons_append, List.append_assoc, scanExponent, he, if_true,
        hsign _ _ (.inr hstart), hspan, if_neg hsome]
      simp only [byteLength_cons, byteLength_append, hsize, Nat.add_assoc]

/-- The value of a number depends on its literal only. -/
theorem numberLexeme_ok {literal : List Char} {isWhole : Bool} {lexeme : Lexeme}
    (h : numberLexeme start literal isWhole = .ok lexeme) (start' : Nat) :
    numberLexeme start' literal isWhole = .ok lexeme := by
  unfold numberLexeme at h ⊢
  split
  · rename_i hwhole
    rw [hwhole] at h
    exact h
  · rename_i hwhole
    rw [hwhole] at h
    split
    · rename_i hfloat
      simp only [hfloat] at h
      exact h
    · rename_i hfloat
      simp only [hfloat] at h
      cases h

/-- A number is read from its own characters. -/
theorem takes_scanNumber {sign : List Char} {lexeme : Lexeme}
    (h : scanNumber start sign c = .ok (lexeme, next)) :
    ∃ chunk, c.rest = chunk ++ next.rest ∧
      ∀ start', Takes (scanNumber start' sign) chunk next.rest lexeme := by
  obtain ⟨offset, cs⟩ := c
  obtain ⟨whole, behind, rfl, hwhole, hstop⟩ := exists_span isDigit cs
  simp only [scanNumber, Cursor.span_append _ hwhole hstop] at h
  split at h
  · cases h
  rename_i fraction afterFraction hfraction
  split at h
  · cases h
  rename_i exponent afterExponent hexponent
  split at h
  · cases h
  rename_i value hvalue
  cases h
  obtain ⟨hbehind, hfractionTakes⟩ := takes_scanFraction hfraction
  obtain ⟨hafter, hexponentTakes⟩ := takes_scanExponent hexponent
  have hbehind : behind = fraction.getD [] ++ (exponent.getD [] ++ next.rest) := by
    rw [← hafter]
    exact hbehind
  refine ⟨whole ++ (fraction.getD [] ++ exponent.getD []), by simp [hbehind], ?_⟩
  intro start' offset' rest' hrest'
  -- Each part is followed by the next one, so only the last is followed by something new.
  have hnew : Alike afterFraction.rest (exponent.getD [] ++ rest') := hafter ▸ hrest'.append _
  have hnew' : Alike behind (fraction.getD [] ++ (exponent.getD [] ++ rest')) := by
    rw [show behind = fraction.getD [] ++ afterFraction.rest from hbehind.trans (by rw [hafter])]
    exact hnew.append _
  have hlexeme := numberLexeme_ok hvalue start'
  simp only [List.append_assoc] at hlexeme
  simp only [scanNumber, List.append_assoc, Cursor.span_append _ hwhole (hnew'.isDigit hstop),
    hfractionTakes _ _ hnew, hexponentTakes _ _ hrest', hlexeme]
  simp only [byteLength_append, Nat.add_assoc]

/-- The quote that a text began with ends it. -/
theorem scanText_quote (start offset : Nat) (quote : Char) (read rest : List Char) :
    scanText start quote offset read (quote :: rest) =
      .ok (String.ofList read.reverse, ⟨offset + quote.utf8Size, rest⟩) := by
  cases rest with
  | nil => simp [scanText]
  | cons d ds => simp [scanText]

/-- A quoted text is read from its own characters, whatever comes behind them. -/
theorem takes_scanText {quote : Char} {read cs : List Char} {value : String}
    (h : scanText start quote offset read cs = .ok (value, next)) :
    ∃ chunk, cs = chunk ++ next.rest ∧ ∀ start' offset' rest',
      scanText start' quote offset' read (chunk ++ rest') =
        .ok (value, ⟨offset' + byteLength chunk, rest'⟩) := by
  fun_induction scanText start quote offset read cs with
  | case1 | case3 | case6 => cases h
  | case2 | case4 =>
      cases h
      exact ⟨[_], rfl, fun start' offset' rest' => scanText_quote start' offset' _ _ rest'⟩
  | case5 offset read d cs e hescaped hquote ih =>
      obtain ⟨chunk, rfl, htakes⟩ := ih h
      refine ⟨'\\' :: d :: chunk, rfl, fun start' offset' rest' => ?_⟩
      simp only [List.cons_append, scanText, if_neg hquote, if_true, hescaped, htakes,
        byteLength_cons, Nat.add_assoc]
  | case7 offset read c d cs hquote hbackslash ih =>
      obtain ⟨chunk, hchunk, htakes⟩ := ih h
      refine ⟨c :: chunk, by rw [hchunk]; rfl, fun start' offset' rest' => ?_⟩
      -- The rest of the text is not empty, since it holds the quote that ends it.
      cases chunk with
      | nil => cases htakes start' offset' []
      | cons d' chunk =>
          have hnext := htakes start' (offset' + c.utf8Size) rest'
          rw [List.cons_append] at hnext
          simp only [List.cons_append, scanText, if_neg hquote, if_neg hbackslash, hnext]
          simp only [byteLength_cons, Nat.add_assoc]

/-- The end of an object is found from its own characters, whatever comes behind them. -/
theorem takes_scanBraces {mode : BraceMode} {depth : Nat} {read cs slice : List Char}
    (h : scanBraces mode depth offset read cs = some (slice, next)) :
    ∃ chunk, cs = chunk ++ next.rest ∧ ∀ offset' rest',
      scanBraces mode depth offset' read (chunk ++ rest') =
        some (slice, ⟨offset' + byteLength chunk, rest'⟩) := by
  fun_induction scanBraces mode depth offset read cs with
  | case1 => cases h
  | case2 mode depth offset read c cs hend =>
      cases h
      refine ⟨[c], rfl, fun offset' rest' => ?_⟩
      rw [List.singleton_append, scanBraces, if_pos hend]
      rfl
  | case3 mode depth offset read c cs hgoes ih =>
      obtain ⟨chunk, rfl, htakes⟩ := ih h
      refine ⟨c :: chunk, rfl, fun offset' rest' => ?_⟩
      rw [List.cons_append, scanBraces, if_neg hgoes, htakes, byteLength_cons, Nat.add_assoc]

/-- Characters that leave no more than what stands behind the first begin with it. -/
theorem exists_cons_chunk {first : Char} {cs chunk rest : List Char}
    (hchunk : first :: cs = chunk ++ rest) (hlength : rest.length ≤ cs.length) :
    ∃ more, chunk = first :: more ∧ cs = more ++ rest := by
  cases chunk with
  | nil =>
      rw [List.nil_append] at hchunk
      rw [← hchunk, List.length_cons] at hlength
      omega
  | cons c more =>
      obtain ⟨rfl, rfl⟩ := List.cons.inj hchunk
      exact ⟨more, rfl, rfl⟩

/-- An object is read from its own characters, whatever comes behind them. -/
theorem takes_scanObject {lexeme : Lexeme} (h : scanObject c = .ok (lexeme, next)) :
    ∃ chunk, c.rest = chunk ++ next.rest ∧ ∀ offset' rest',
      scanObject ⟨offset', chunk ++ rest'⟩ = .ok (lexeme, ⟨offset' + byteLength chunk, rest'⟩) := by
  unfold scanObject at h
  split at h
  · cases h
  rename_i slice after hbraces
  split at h
  · rename_i record hrecord
    cases h
    obtain ⟨chunk, hchunk, htakes⟩ := takes_scanBraces hbraces
    refine ⟨chunk, hchunk, fun offset' rest' => ?_⟩
    simp only [scanObject, htakes, hrecord]
  · cases h

end Scanners

/-! ### One token -/

/-- The character and those of `chunk` are the characters of a token, in front of any text like
`rest`. -/
def Chunk (c : Char) (chunk rest : List Char) (lexeme : Lexeme) : Prop :=
  ∀ offset rest', Alike rest rest' →
    scanLexeme offset c (chunk ++ rest') = .ok (lexeme, ⟨offset + byteLength (c :: chunk), rest'⟩)

/-- The characters of a word, in front of what does not go on with it. -/
theorem Chunk.word {c : Char} {chunk rest : List Char} (hstart : isWordStart c = true)
    (hchars : ∀ d ∈ c :: chunk, isWordChar d = true)
    (hstop : ∀ d ∈ rest.head?, isWordChar d = false) :
    Chunk c chunk rest (.word (String.ofList (c :: chunk))) := by
  intro offset rest' hrest'
  have hspan := Cursor.span_append offset hchars
    (hrest'.stops (fun _ => id) isWordChar_toLower hstop)
  rw [List.cons_append] at hspan
  have hsigns : c ∉ signs := not_mem_of_any hstart (by decide)
  have hmarks : c ∉ ['"', '\'', '{', '-'] := not_mem_of_any hstart (by decide)
  simp only [List.mem_cons, List.not_mem_nil, or_false, not_or] at hmarks
  have hcode := isWordStart_iff.mp hstart
  have hdigit : isDigit c = false := by
    rw [← Bool.not_eq_true, isDigit_iff]
    omega
  simp [scanLexeme, signOf?_eq_none hsigns, hmarks, hdigit, hstart, hspan]

/-- A token is read from its own characters. -/
theorem exists_chunk {offset : Nat} {c : Char} {cs : List Char} {lexeme : Lexeme} {next : Cursor}
    (h : scanLexeme offset c cs = .ok (lexeme, next)) :
    ∃ chunk, cs = chunk ++ next.rest ∧ Chunk c chunk next.rest lexeme := by
  have hlength := length_le_of_scanLexeme h
  unfold scanLexeme at h
  split at h
  · rename_i sign hsign
    cases h
    exact ⟨[], rfl, fun offset' rest' _ => by simp [scanLexeme, hsign]⟩
  rename_i hsign
  split at h
  · rename_i hquote
    cases htext : scanText offset c (offset + c.utf8Size) [] cs with
    | error e =>
        rw [htext] at h
        cases h
    | ok scanned =>
        rw [htext] at h
        cases h
        obtain ⟨chunk, hchunk, htakes⟩ := takes_scanText htext
        refine ⟨chunk, hchunk, fun offset' rest' _ => ?_⟩
        simp only [scanLexeme, hsign, if_pos hquote, htakes]
        simp only [Except.map, byteLength_cons, Nat.add_assoc]
  rename_i hquote
  split at h
  · rename_i hbrace
    subst hbrace
    obtain ⟨chunk, hchunk, htakes⟩ := takes_scanObject h
    obtain ⟨more, rfl, rfl⟩ := exists_cons_chunk hchunk hlength
    refine ⟨more, rfl, fun offset' rest' _ => ?_⟩
    have hobject := htakes offset' rest'
    rw [List.cons_append] at hobject
    simp only [scanLexeme, hsign, if_neg hquote, if_true, hobject]
  rename_i hbrace
  split at h
  · rename_i hdigit
    obtain ⟨chunk, hchunk, htakes⟩ := takes_scanNumber h
    obtain ⟨more, rfl, rfl⟩ := exists_cons_chunk hchunk hlength
    refine ⟨more, rfl, fun offset' rest' hrest' => ?_⟩
    have hnumber := htakes offset' offset' rest' hrest'
    rw [List.cons_append] at hnumber
    simp only [scanLexeme, hsign, if_neg hquote, if_neg hbrace, if_pos hdigit, hnumber]
  rename_i hdigit
  split at h
  · rename_i hminus
    obtain ⟨chunk, hchunk, htakes⟩ := takes_scanNumber h
    have hshorter := length_le_of_scanNumber h
    obtain ⟨d, ds, rfl, hd⟩ : ∃ d ds, cs = d :: ds ∧ isDigit d = true := by
      cases cs with
      | nil => cases hminus.2
      | cons d ds => exact ⟨d, ds, rfl, hminus.2⟩
    simp only [List.dropWhile_cons_of_pos hd] at hshorter
    obtain ⟨more, rfl, rfl⟩ := exists_cons_chunk hchunk
      (hshorter.trans (List.dropWhile_suffix isDigit).length_le)
    refine ⟨d :: more, rfl, fun offset' rest' hrest' => ?_⟩
    have hnumber := htakes offset' (offset' + c.utf8Size) rest' hrest'
    have hstart : c = '-' ∧ startsWithDigit (d :: more ++ rest') = true := ⟨hminus.1, hd⟩
    simp only [scanLexeme, hsign, if_neg hquote, if_neg hbrace, if_neg hdigit, if_pos hstart,
      hnumber]
    simp only [byteLength_cons, Nat.add_assoc]
  rename_i hminus
  split at h
  · rename_i hword
    obtain ⟨word, rest, hcs, hchars, hstop⟩ := exists_span isWordChar (c :: cs)
    rw [hcs] at h
    simp only [Cursor.span_append _ hchars hstop] at h
    cases h
    obtain ⟨more, rfl, rfl⟩ := exists_cons_chunk hcs hlength
    exact ⟨more, rfl, .word hword hchars hstop⟩
  · cases h

/-- Whether a lexeme is a value that is written out: a text, a number or an object. -/
def Lexeme.isLiteral : Lexeme → Bool
  | .quoted _ | .integer _ | .float _ | .object _ => true
  | _ => false

theorem isLiteral_of_scanNumber {start : Nat} {sign : List Char} {c next : Cursor}
    {lexeme : Lexeme} (h : scanNumber start sign c = .ok (lexeme, next)) :
    lexeme.isLiteral = true := by
  simp only [scanNumber] at h
  split at h
  · cases h
  split at h
  · cases h
  split at h
  · cases h
  rename_i hlexeme
  cases h
  unfold numberLexeme at hlexeme
  split at hlexeme
  · cases hlexeme
    rfl
  · split at hlexeme <;> cases hlexeme
    rfl

/-- A token is a sign, a literal, or a word, which goes as far as it can. -/
theorem scanLexeme_cases {offset : Nat} {c : Char} {cs : List Char} {lexeme : Lexeme}
    {next : Cursor} (h : scanLexeme offset c cs = .ok (lexeme, next)) :
    signOf? c = some lexeme ∨ lexeme.isLiteral = true ∨
      isWordStart c = true ∧ ∃ word, lexeme = .word (String.ofList word) ∧
        c :: cs = word ++ next.rest ∧ (∀ d ∈ word, isWordChar d = true) ∧ Stops next.rest := by
  unfold scanLexeme at h
  split at h
  · rename_i sign hsign
    cases h
    exact .inl hsign
  refine .inr ?_
  split at h
  · cases htext : scanText offset c (offset + c.utf8Size) [] cs with
    | error e =>
        rw [htext] at h
        cases h
    | ok scanned =>
        rw [htext] at h
        cases h
        exact .inl rfl
  split at h
  · unfold scanObject at h
    split at h
    · cases h
    · split at h <;> cases h
      exact .inl rfl
  split at h
  · exact .inl (isLiteral_of_scanNumber h)
  split at h
  · exact .inl (isLiteral_of_scanNumber h)
  split at h
  · rename_i hword
    obtain ⟨word, rest, hcs, hchars, hstop⟩ := exists_span isWordChar (c :: cs)
    rw [hcs] at h
    simp only [Cursor.span_append _ hchars hstop] at h
    cases h
    exact .inr ⟨hword, word, rfl, hcs, hchars, hstop⟩
  · cases h

/-- What begins a token is not blank and begins no comment. -/
theorem skipBlanks_of_scanLexeme {offset : Nat} {c : Char} {cs : List Char}
    {scanned : Lexeme × Cursor} (h : scanLexeme offset c cs = .ok scanned) (offset' : Nat) :
    Cursor.skipBlanks offset' (c :: cs) = ⟨offset', c :: cs⟩ := by
  refine Cursor.skipBlanks_token ?_ ?_ offset'
  · cases hblank : isBlank c with
    | false => rfl
    | true =>
        have hmarks : c ∉ '"' :: '\'' :: '{' :: '-' :: signs := not_mem_of_any hblank (by decide)
        simp only [List.mem_cons, not_or] at hmarks
        obtain ⟨hquote, happostrophe, hbrace, hdash, hsigns⟩ := hmarks
        have hdigit : ¬isDigit c = true := by
          rw [isDigit_iff]
          simp [isBlank] at hblank
          omega
        have hword : ¬isWordStart c = true := by
          rw [isWordStart_iff]
          simp [isBlank] at hblank
          omega
        simp [scanLexeme, signOf?_eq_none hsigns, hquote, happostrophe, hbrace, hdash, hdigit,
          hword] at h
  · rintro rfl hhead
    obtain ⟨rest, rfl⟩ := List.head?_eq_some_iff.mp hhead
    have hstart : ¬startsWithDigit ('-' :: rest) = true := by
      show ¬isDigit '-' = true
      decide
    have hdash : signOf? '-' = none ∧ isDigit '-' = false ∧ isWordStart '-' = false := by decide
    simp [scanLexeme, hdash, hstart] at h

/-! ### What is passed over -/

/-- The characters are passed over in front of a token, wherever they stand. -/
def Gap (gap : List Char) : Prop :=
  ∀ offset rest, Cursor.skipBlanks offset (gap ++ rest) =
    Cursor.skipBlanks (offset + byteLength gap) rest

theorem skipComment_append {body : List Char} (h : '\n' ∉ body) (offset : Nat) (rest : List Char) :
    Cursor.skipComment offset (body ++ '\n' :: rest) =
      Cursor.skipBlanks (offset + byteLength (body ++ ['\n'])) rest := by
  induction body generalizing offset with
  | nil => rw [List.nil_append, Cursor.skipComment, if_pos rfl]; rfl
  | cons c body ih =>
      rw [List.mem_cons, not_or] at h
      rw [List.cons_append, Cursor.skipComment, if_neg (Ne.symm h.1), ih h.2, List.cons_append,
        byteLength_cons, Nat.add_assoc]

namespace Gap

variable {gap more : List Char}

theorem nil : Gap [] := fun _ _ => rfl

theorem append (h : Gap gap) (hmore : Gap more) : Gap (gap ++ more) := by
  intro offset rest
  rw [List.append_assoc, h, hmore, byteLength_append, Nat.add_assoc]

theorem blank {c : Char} (h : isBlank c = true) : Gap [c] := by
  intro offset rest
  rw [List.singleton_append, Cursor.skipBlanks_blank h]
  rfl

theorem comment {body : List Char} (h : '\n' ∉ body) :
    Gap ('-' :: '-' :: (body ++ ['\n'])) := by
  intro offset rest
  have hdash : isBlank '-' = false := by decide
  have hskip : Cursor.skipBlanks offset ('-' :: '-' :: (body ++ '\n' :: rest)) =
      Cursor.skipComment (offset + '-'.utf8Size + '-'.utf8Size) (body ++ '\n' :: rest) := by
    simp [Cursor.skipBlanks, hdash]
  simp only [List.cons_append, List.append_assoc, List.nil_append, hskip, skipComment_append h,
    byteLength_cons, Nat.add_assoc]

/-- What is passed over does not go on with a token. -/
theorem stops (h : Gap gap) (hsome : gap ≠ []) (rest : List Char) : Stops (gap ++ rest) := by
  obtain ⟨c, cs, rfl⟩ := List.exists_cons_of_ne_nil hsome
  intro d hd
  cases hd
  cases hword : isWordChar c with
  | false => rfl
  | true =>
      have hcode := isWordChar_iff.mp hword
      have hdash : c ≠ '-' := by
        rintro rfl
        exact absurd hword (by decide)
      have hskip := h 0 []
      rw [List.append_nil, Cursor.skipBlanks_token (isBlank_eq_false (by omega) (by omega))
        (fun heq => absurd heq hdash)] at hskip
      have hrest : c :: cs = [] := congrArg Cursor.rest hskip
      cases hrest

end Gap

/-- Blanks, and comments with the ends of their lines. -/
inductive Trivia : List Char → Prop where
  | nil : Trivia []
  | blank {c : Char} {cs : List Char} (hc : isBlank c = true) (h : Trivia cs) : Trivia (c :: cs)
  | comment {body cs : List Char} (hbody : '\n' ∉ body) (h : Trivia cs) :
      Trivia ('-' :: '-' :: (body ++ '\n' :: cs))

theorem Trivia.append {cs ds : List Char} (hcs : Trivia cs) (hds : Trivia ds) :
    Trivia (cs ++ ds) := by
  induction hcs with
  | nil => exact hds
  | blank hc _ ih => exact .blank hc ih
  | comment hbody _ ih => simpa using .comment hbody ih

theorem Trivia.gap {cs : List Char} (h : Trivia cs) : Gap cs := by
  induction h with
  | nil => exact .nil
  | blank hc _ ih => exact (Gap.blank hc).append ih
  | comment hbody _ ih => simpa using (Gap.comment hbody).append ih

/-- What is passed over in front of what is left. Where nothing is left, a last comment may lack the
end of its line. -/
def PassedOver (gap left : List Char) : Prop :=
  Trivia gap ∨ left = [] ∧ Trivia (gap ++ ['\n'])

theorem PassedOver.trivia {gap left : List Char} {c : Char} (h : PassedOver gap (c :: left)) :
    Trivia gap :=
  h.resolve_right fun ⟨hnone, _⟩ => List.cons_ne_nil c left hnone

/-- Once its line is ended, all that has been passed over is blanks and whole comments. -/
theorem PassedOver.line {gap left : List Char} (h : PassedOver gap left) :
    Trivia (gap ++ ['\n']) :=
  h.elim (fun htrivia => htrivia.append (.blank (by decide) .nil)) And.right

mutual

/-- Blanks and comments are passed over, and nothing else. -/
theorem exists_passedOver (offset : Nat) (cs : List Char) :
    ∃ gap, cs = gap ++ (Cursor.skipBlanks offset cs).rest ∧
      PassedOver gap (Cursor.skipBlanks offset cs).rest := by
  match cs with
  | [] => exact ⟨[], rfl, .inl .nil⟩
  | [c] =>
      rw [Cursor.skipBlanks]
      split
      · rename_i hblank
        exact ⟨[c], rfl, .inl (.blank hblank .nil)⟩
      · exact ⟨[], rfl, .inl .nil⟩
  | c :: d :: cs =>
      rw [Cursor.skipBlanks]
      split
      · rename_i hblank
        obtain ⟨gap, hcs, hgap⟩ := exists_passedOver (offset + c.utf8Size) (d :: cs)
        exact ⟨c :: gap, congrArg (c :: ·) hcs,
          hgap.imp (.blank hblank) fun ⟨hleft, hline⟩ => ⟨hleft, .blank hblank hline⟩⟩
      · split
        · rename_i hdashes
          obtain ⟨rfl, rfl⟩ := hdashes
          obtain ⟨more, hcs, hmore⟩ :=
            exists_passedOver_comment (offset + '-'.utf8Size + '-'.utf8Size) cs List.not_mem_nil
          exact ⟨'-' :: '-' :: more, congrArg ('-' :: '-' :: ·) hcs, hmore⟩
        · exact ⟨[], rfl, .inl .nil⟩

/-- A comment of which `body` has been passed over goes on to the end of its line. -/
theorem exists_passedOver_comment (offset : Nat) (cs : List Char) {body : List Char}
    (hbody : '\n' ∉ body) :
    ∃ more, cs = more ++ (Cursor.skipComment offset cs).rest ∧
      PassedOver ('-' :: '-' :: (body ++ more)) (Cursor.skipComment offset cs).rest := by
  match cs with
  | [] => exact ⟨[], rfl, .inr ⟨rfl, by simpa using .comment hbody .nil⟩⟩
  | c :: cs =>
      rw [Cursor.skipComment]
      split
      · rename_i hline
        subst hline
        obtain ⟨gap, hcs, hgap⟩ := exists_passedOver (offset + '\n'.utf8Size) cs
        refine ⟨'\n' :: gap, congrArg ('\n' :: ·) hcs, hgap.imp (.comment hbody) ?_⟩
        exact fun ⟨hleft, hline⟩ => ⟨hleft, by simpa using .comment hbody hline⟩
      · rename_i hline
        have hlonger : '\n' ∉ body ++ [c] := by simp [hbody, Ne.symm hline]
        obtain ⟨more, hcs, hmore⟩ :=
          exists_passedOver_comment (offset + c.utf8Size) cs hlonger
        exact ⟨c :: more, congrArg (c :: ·) hcs, by simpa using hmore⟩

end

/-- What is passed over in front of a place is a gap. -/
theorem exists_gap (offset : Nat) (cs : List Char) {place : Nat} {c : Char} {rest : List Char}
    (h : Cursor.skipBlanks offset cs = ⟨place, c :: rest⟩) :
    ∃ gap, Gap gap ∧ cs = gap ++ c :: rest := by
  obtain ⟨gap, hcs, hgap⟩ := exists_passedOver offset cs
  rw [h] at hcs hgap
  exact ⟨gap, hgap.trivia.gap, hcs⟩

mutual

/-- What is left does not depend on where the characters stand. -/
theorem skipBlanks_rest (offset offset' : Nat) (cs : List Char) :
    (Cursor.skipBlanks offset cs).rest = (Cursor.skipBlanks offset' cs).rest := by
  match cs with
  | [] => rfl
  | [c] =>
      rw [Cursor.skipBlanks, Cursor.skipBlanks]
      split <;> rfl
  | c :: d :: cs =>
      rw [Cursor.skipBlanks, Cursor.skipBlanks]
      split
      · exact skipBlanks_rest _ _ (d :: cs)
      · split
        · exact skipComment_rest _ _ cs
        · rfl

theorem skipComment_rest (offset offset' : Nat) (cs : List Char) :
    (Cursor.skipComment offset cs).rest = (Cursor.skipComment offset' cs).rest := by
  match cs with
  | [] => rfl
  | c :: cs =>
      rw [Cursor.skipComment, Cursor.skipComment]
      split
      · exact skipBlanks_rest _ _ cs
      · exact skipComment_rest _ _ cs

end

/-! ### The first token of a text -/

/-- The first token stands behind a gap, and the others are those of what comes behind it. -/
theorem scanFrom_chunk {gap chunk rest rest' : List Char} {c : Char} {lexeme : Lexeme}
    (hgap : Gap gap) (hchunk : Chunk c chunk rest lexeme) (hrest : Alike rest rest')
    (offset : Nat) :
    let place := offset + byteLength gap
    let next : Cursor := ⟨place + byteLength (c :: chunk), rest'⟩
    scanFrom ⟨offset, gap ++ c :: (chunk ++ rest')⟩ =
      (⟨lexeme, place, next.offset⟩ :: (scanFrom next).1, (scanFrom next).2) := by
  intro place next
  have hscan := hchunk place rest' hrest
  have hskip : Cursor.skip ⟨offset, gap ++ c :: (chunk ++ rest')⟩ =
      ⟨place, c :: (chunk ++ rest')⟩ :=
    (hgap offset _).trans (skipBlanks_of_scanLexeme hscan place)
  have htoken := scanFrom_token (c := ⟨offset, gap ++ c :: (chunk ++ rest')⟩) (by rw [hskip])
    (by rw [hskip]; exact hscan)
  rw [htoken, hskip]

/-- A text begins with a gap and the characters of a token, or it has no token and ends, or fails to
make one, wherever it stands. -/
theorem exists_first (cs : List Char) :
    (∃ ended : Bool, ∀ offset, (scanFrom ⟨offset, cs⟩).1 = [] ∧
      (scanFrom ⟨offset, cs⟩).2.isOk = ended) ∨
    ∃ gap c chunk rest lexeme, Gap gap ∧ Chunk c chunk rest lexeme ∧
      cs = gap ++ c :: (chunk ++ rest) := by
  have hleft (offset : Nat) : (Cursor.skip ⟨offset, cs⟩).rest = (Cursor.skipBlanks 0 cs).rest :=
    skipBlanks_rest offset 0 cs
  generalize hskip : Cursor.skipBlanks 0 cs = found at hleft
  obtain ⟨place, left⟩ := found
  cases left with
  | nil =>
      refine .inl ⟨true, fun offset => ?_⟩
      rw [scanFrom_end (hleft offset)]
      exact ⟨rfl, rfl⟩
  | cons c rest =>
      cases hscan : scanLexeme 0 c rest with
      | error e =>
          refine .inl ⟨false, fun offset => ?_⟩
          cases hscan' : scanLexeme (Cursor.skip ⟨offset, cs⟩).offset c rest with
          | error e' =>
              rw [scanFrom_error (hleft offset) hscan']
              exact ⟨rfl, rfl⟩
          | ok scanned =>
              obtain ⟨lexeme, next⟩ := scanned
              obtain ⟨chunk, rfl, hchunk⟩ := exists_chunk hscan'
              have hscan := hscan.symm.trans (hchunk 0 _ (.refl _))
              cases hscan
      | ok scanned =>
          obtain ⟨lexeme, next⟩ := scanned
          obtain ⟨chunk, rfl, hchunk⟩ := exists_chunk hscan
          obtain ⟨gap, hgap, hcs⟩ := exists_gap 0 cs hskip
          exact .inr ⟨gap, c, chunk, _, lexeme, hgap, hchunk, hcs⟩

/-- Induction over the tokens of a text, from the last to the first. -/
theorem scan_induction {motive : List Char → Prop}
    (nothing : ∀ (cs : List Char) (ended : Bool), (∀ offset, (scanFrom ⟨offset, cs⟩).1 = [] ∧
      (scanFrom ⟨offset, cs⟩).2.isOk = ended) → motive cs)
    (token : ∀ (gap : List Char) (c : Char) (chunk rest : List Char) (lexeme : Lexeme), Gap gap →
      Chunk c chunk rest lexeme → motive rest → motive (gap ++ c :: (chunk ++ rest)))
    (cs : List Char) : motive cs := by
  generalize hlength : cs.length = n
  induction n using Nat.strong_induction_on generalizing cs with
  | _ n ih =>
      obtain ⟨ended, hnothing⟩ | ⟨gap, c, chunk, rest, lexeme, hgap, hchunk, rfl⟩ := exists_first cs
      · exact nothing cs ended hnothing
      · refine token gap c chunk rest lexeme hgap hchunk (ih rest.length ?_ rest rfl)
        simp only [List.length_append, List.length_cons] at hlength
        omega

/-- Every token of a text stands at its own characters. -/
theorem exists_chunk_of_mem {cs : List Char} {offset : Nat} {token : Token}
    (h : token ∈ (scanFrom ⟨offset, cs⟩).1) :
    ∃ before c chunk rest, cs = before ++ c :: (chunk ++ rest) ∧
      Chunk c chunk rest token.lexeme ∧ token.offset = offset + byteLength before ∧
      token.stop = token.offset + byteLength (c :: chunk) := by
  induction cs using scan_induction generalizing offset with
  | nothing cs ended hnothing =>
      rw [(hnothing offset).1] at h
      cases h
  | token gap c chunk rest lexeme hgap hchunk ih =>
      rw [scanFrom_chunk hgap hchunk (.refl rest)] at h
      cases h with
      | head => exact ⟨gap, c, chunk, rest, rfl, hchunk, rfl, rfl⟩
      | tail _ hmem =>
          obtain ⟨before, d, chunk', rest', rfl, hchunk', hoffset, hstop⟩ := ih hmem
          refine ⟨gap ++ c :: (chunk ++ before), d, chunk', rest', by simp, hchunk', ?_, hstop⟩
          rw [hoffset]
          simp only [byteLength_append, byteLength_cons]
          omega

/-- What the tokens of a text are, and whether it ends behind them, apart from their places. -/
def outline (c : Cursor) : List Lexeme × Bool :=
  ((scanFrom c).1.map Token.lexeme, (scanFrom c).2.isOk)

/-- A text has the same tokens wherever it stands. -/
theorem outline_offset (offset offset' : Nat) (cs : List Char) :
    outline ⟨offset, cs⟩ = outline ⟨offset', cs⟩ := by
  induction cs using scan_induction generalizing offset offset' with
  | nothing cs ended hnothing =>
      obtain ⟨hnone, hended⟩ := hnothing offset
      obtain ⟨hnone', hended'⟩ := hnothing offset'
      rw [outline, outline, hnone, hnone', hended, hended']
  | token gap c chunk rest lexeme hgap hchunk ih =>
      have hrest := ih (offset + byteLength gap + byteLength (c :: chunk))
        (offset' + byteLength gap + byteLength (c :: chunk))
      obtain ⟨hlexemes, hended⟩ := Prod.mk.inj hrest
      rw [outline, outline, scanFrom_chunk hgap hchunk (.refl rest),
        scanFrom_chunk hgap hchunk (.refl rest), List.map_cons, List.map_cons, hlexemes, hended]

end BatchTransfer.Statement
