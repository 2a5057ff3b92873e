import BatchTransfer.Options.Type
import BatchTransfer.Proofs.Decimal.Signed

/-!
# Values that become texts and come back

A number or a truth value that is brought to a text is brought back from it, also when there are
blanks around the text of a number. Which texts a whole number is taken from is said without the
reader: a spelling of a number of 64 bits, up to blanks around it (`coerce_integer_string_iff`). The
main theorem is `coerces_to_text_and_back`.
-/

namespace BatchTransfer

open BatchTransfer.Decimal BatchTransfer.Text

theorem Decimal.signed64_contains_iff {i : Int} :
    signed64.contains i = true ↔ -2 ^ 63 ≤ i ∧ i < 2 ^ 63 := by
  have hlow : signed64.low = -2 ^ 63 := rfl
  have hhigh : signed64.high = 2 ^ 63 - 1 := rfl
  rw [Range.contains, Bool.and_eq_true, decide_eq_true_eq, decide_eq_true_eq, hlow, hhigh,
    Int.le_sub_one_iff]

/-- No character in the text of a floating-point number is blank. -/
theorem Decimal.Layout.isBlank_eq_false {l : Layout} {x : Float} {c : Char} (h : c ∈ l.chars x) :
    isBlank c = false := by
  rcases isDigit_or_mem_of_mem_chars h with hdigit | hsign
  · exact isBlank_of_isDigit hdigit
  · have hsigns : floatSigns.any isBlank = false := by decide
    exact Bool.eq_false_iff.mpr (List.any_eq_false.mp hsigns c hsign)

namespace OptionType

variable {s : String} {value : OptionValue}

/-- A whole number is taken from a text exactly if the text spells it, up to blanks around it, and
it is a number of 64 bits. -/
theorem coerce_integer_string_iff : integer.coerce (.string s) = some value ↔
    ∃ i numeral, value = .integer i ∧ Surrounds numeral s.toList ∧ SignedNumeral numeral i ∧
      -2 ^ 63 ≤ i ∧ i < 2 ^ 63 := by
  simp only [coerce, Option.map_eq_some_iff, readInteger?_eq_some_iff, signed64_contains_iff]
  constructor
  · rintro ⟨i, ⟨hspells, hrange⟩, rfl⟩
    exact ⟨i, _, rfl, surrounds_trimChars s.toList, hspells, hrange⟩
  · rintro ⟨i, numeral, rfl, hblanks, hspells, hrange⟩
    have hbare : HasBareEnds numeral := .of_forall fun c => hspells.isBlank_eq_false
    rw [trimChars_eq_iff.mpr ⟨hbare, hblanks⟩]
    exact ⟨i, ⟨hspells, hrange⟩, rfl⟩

/-- A floating-point number is read from its text, whatever blanks there are around it. -/
theorem coerce_float_string {x : Float} (hx : readFloat? (optionLayout.chars x) = some x)
    (hs : Surrounds (optionLayout.chars x) s.toList) :
    float.coerce (.string s) = some (.float x) := by
  have hbare : HasBareEnds (optionLayout.chars x) := .of_forall fun c => Layout.isBlank_eq_false
  rw [coerce, trimChars_eq_iff.mpr ⟨hbare, hs⟩, hx]
  rfl

/-- Coercion to a text and back loses nothing. A whole number of 64 bits comes back from its text,
and so does a floating-point number that is read from its printed text, both with any blanks around
the text; a truth value comes back from its text. A text is taken for a whole number exactly if it
is, up to blanks around it, an optional sign and one or more digits, of a value of 64 bits, and then
it is that value. -/
theorem coerces_to_text_and_back :
    (∀ i : Int, -2 ^ 63 ≤ i → i < 2 ^ 63 →
      ∃ text, string.coerce (.integer i) = some (.string text) ∧
        ∀ s : String, Surrounds text.toList s.toList →
          integer.coerce (.string s) = some (.integer i)) ∧
    (∀ b : Bool, ∃ text, string.coerce (.boolean b) = some (.string text) ∧
      boolean.coerce (.string text) = some (.boolean b)) ∧
    (∀ x : Float, readFloat? (optionLayout.chars x) = some x →
      ∃ text, string.coerce (.float x) = some (.string text) ∧
        ∀ s : String, Surrounds text.toList s.toList →
          float.coerce (.string s) = some (.float x)) ∧
    ∀ (s : String) (value : OptionValue), integer.coerce (.string s) = some value ↔
      ∃ i numeral, value = .integer i ∧ Surrounds numeral s.toList ∧ SignedNumeral numeral i ∧
        -2 ^ 63 ≤ i ∧ i < 2 ^ 63 := by
  refine ⟨fun i hlow hhigh => ?_, fun b => ?_, fun x hx => ?_, fun s value => ?_⟩
  · refine ⟨integerText i, rfl, fun s hs => ?_⟩
    rw [integerText, String.toList_ofList] at hs
    exact coerce_integer_string_iff.mpr
      ⟨i, _, rfl, hs, signedNumeral_integerChars i, hlow, hhigh⟩
  · cases b with
    | false => exact ⟨"false", rfl, rfl⟩
    | true => exact ⟨"true", rfl, rfl⟩
  · refine ⟨optionLayout.text x, rfl, fun s hs => ?_⟩
    rw [Layout.text, String.toList_ofList] at hs
    exact coerce_float_string hx hs
  · exact coerce_integer_string_iff

/-- The least number of 64 bits and one and a half come back from between blanks, zeros and a plus
do no harm, and the first number that has more than 64 bits is refused. -/
theorem coerces_to_text_and_back_blanks :
    integer.coerce (.string "\u00a0-9223372036854775808\n") = some (.integer (-2 ^ 63)) ∧
    boolean.coerce (.string "false") = some (.boolean false) ∧
    float.coerce (.string "\t1.5\u3000") = some (.float 1.5) ∧
    integer.coerce (.string " +007") = some (.integer 7) ∧
    integer.coerce (.string "9223372036854775808") = none := by
  obtain ⟨hinteger, hboolean, hfloat, haccepted⟩ := coerces_to_text_and_back
  have hblanks {whole before middle after : String} (hwhole : whole = before ++ middle ++ after)
      (hbefore : before.toList.all isBlank = true) (hafter : after.toList.all isBlank = true) :
      Surrounds middle.toList whole.toList := by
    rw [hwhole, String.toList_append, String.toList_append]
    exact .blanks (List.all_eq_true.mp hbefore) (List.all_eq_true.mp hafter)
  refine ⟨?_, ?_, ?_, ?_, rfl⟩
  · have hleast : integerText (-2 ^ 63) = "-9223372036854775808" := by decide
    have hwhole : "\u00a0-9223372036854775808\n" =
        "\u00a0" ++ "-9223372036854775808" ++ "\n" := by decide
    obtain ⟨text, htext, hback⟩ := hinteger (-2 ^ 63) (by decide) (by decide)
    cases htext
    refine hback _ ?_
    rw [hleast]
    exact hblanks hwhole (by decide) (by decide)
  · obtain ⟨text, htext, hback⟩ := hboolean false
    cases htext
    exact hback
  · have hchars : optionLayout.chars 1.5 = ['1', '.', '5'] := by decide
    have hwhole : "\t1.5\u3000" = "\t" ++ "1.5" ++ "\u3000" := by decide
    obtain ⟨text, htext, hback⟩ := hfloat 1.5 (by rw [hchars]; rfl)
    cases htext
    refine hback _ ?_
    rw [Layout.text, hchars]
    exact hblanks hwhole (by decide) (by decide)
  · have hdigits : IsDigits "007".toList := ⟨by decide, List.all_eq_true.mp (by decide)⟩
    have hseven : SignedNumeral "+007".toList 7 := .plus hdigits
    have hwhole : " +007" = " " ++ "+007" ++ "" := by decide
    exact (haccepted _ _).mpr
      ⟨7, _, rfl, hblanks hwhole (by decide) (by decide), hseven, by decide, by decide⟩

end OptionType

end BatchTransfer
