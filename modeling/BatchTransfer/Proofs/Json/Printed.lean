import BatchTransfer.Json.Printer
import BatchTransfer.Json.Reader
import BatchTransfer.Proofs.Decimal.Numerals
import Mathlib.Data.Bool.AllAny

/-!
# The compact text of a JSON value

In the compact text of a value, brackets and braces outside strings come in pairs, and every string
is closed (`balanced_chars`). The text stands on one line (`newline_not_mem_chars`).
-/

namespace BatchTransfer

/-- The record that the JSON library reads from its own text of a record. -/
def Record.reread? (r : Record) : Option Record := Json.readRecord? (Json.compact r.toJson)

/-- The JSON library reads its own text of the record back as the record. -/
def Record.ReadsBack (r : Record) : Prop := Json.readRecord? (Json.compact r.toJson) = some r

theorem Record.ReadsBack.readChars? {r : Record} (h : r.ReadsBack) :
    (Json.readChars? (Json.chars r.toJson)).bind Record.ofJson? = some r := by
  rw [ReadsBack, Json.readRecord?, Json.read?, Json.compact, String.toList_ofList] at h
  exact h

namespace Json

open BatchTransfer.Decimal BatchTransfer.Text

/-- A character without a meaning of its own in a JSON text: no quote, bracket or brace, and no line
break. -/
def IsPlain (c : Char) : Prop := c ∉ ['"', '{', '}', '[', ']', '\n']

instance (c : Char) : Decidable (IsPlain c) := inferInstanceAs (Decidable (c ∉ _))

theorem isPlain_of_isDigit {c : Char} (h : isDigit c = true) : IsPlain c := by
  intro hmem
  have hnone : ['"', '{', '}', '[', ']', '\n'].any isDigit = false := by decide
  exact List.any_eq_false.mp hnone c hmem h

theorem isPlain_of_mem_integerChars {i : Int} {c : Char} (h : c ∈ integerChars i) : IsPlain c := by
  cases i with
  | ofNat n => exact isPlain_of_isDigit (isDigit_of_mem_digits h)
  | negSucc n =>
      rcases List.mem_cons.mp h with rfl | h
      · decide
      · exact isPlain_of_isDigit (isDigit_of_mem_digits h)

theorem isPlain_of_mem_floatChars {x : Float} {c : Char} (h : c ∈ floatChars x) : IsPlain c := by
  unfold floatChars at h
  split at h
  · rcases isDigit_or_mem_of_mem_chars h with h | h
    · exact isPlain_of_isDigit h
    · have hplain : ∀ d ∈ floatSigns, IsPlain d := List.all_iff_forall_prop.mp (by decide)
      exact hplain c h
  · have hplain : ∀ d ∈ "null".toList, IsPlain d := List.all_iff_forall_prop.mp (by decide)
    exact hplain c h

/-- The body of a JSON string: characters other than quotes, backslashes and line breaks, and
backslashes each with a character that it escapes. -/
inductive StringBody : List Char → Prop where
  | nil : StringBody []
  | char {c : Char} {cs : List Char} (hquote : c ≠ '"') (hbackslash : c ≠ '\\') (hbreak : c ≠ '\n')
      (h : StringBody cs) : StringBody (c :: cs)
  | escape {c : Char} {cs : List Char} (hbreak : c ≠ '\n') (h : StringBody cs) :
      StringBody ('\\' :: c :: cs)

theorem StringBody.append {cs ds : List Char} (hcs : StringBody cs) (hds : StringBody ds) :
    StringBody (cs ++ ds) := by
  induction hcs with
  | nil => exact hds
  | char hquote hbackslash hbreak _ ih => exact .char hquote hbackslash hbreak ih
  | escape hbreak _ ih => exact .escape hbreak ih

/-- Hexadecimal digits are not escaped. -/
theorem stringBody_hexDigit {n : Nat} (h : n < 16) : StringBody [hexDigit n] := by
  have hdigits : ∀ n < 16, hexDigit n ≠ '"' ∧ hexDigit n ≠ '\\' ∧ hexDigit n ≠ '\n' := by decide
  obtain ⟨hquote, hbackslash, hbreak⟩ := hdigits n h
  exact .char hquote hbackslash hbreak .nil

theorem stringBody_escapeChar (c : Char) : StringBody (escapeChar c) := by
  unfold escapeChar
  split
  · exact .escape (by decide) .nil
  · rename_i hquote
    split
    · exact .escape (by decide) .nil
    · rename_i hbackslash
      split
      · exact .escape (by decide) .nil
      · rename_i hbreak
        -- What is left are the short escapes, the control characters and all others.
        repeat' split
        all_goals try exact .escape (by decide) .nil
        · rename_i hcode
          have hhigh := stringBody_hexDigit (n := c.toNat / 16) (by omega)
          have hlow := stringBody_hexDigit (n := c.toNat % 16) (by omega)
          have hzeros : StringBody ['\\', 'u', '0', '0'] :=
            .escape (by decide) (.char (by decide) (by decide) (by decide)
              (.char (by decide) (by decide) (by decide) .nil))
          exact (hzeros.append hhigh).append hlow
        · exact .char (by simpa using hquote) (by simpa using hbackslash)
            (by simpa using hbreak) .nil

theorem stringBody_flatMap (cs : List Char) : StringBody (cs.flatMap escapeChar) := by
  induction cs with
  | nil => exact .nil
  | cons c cs ih =>
      rw [List.flatMap_cons]
      exact (stringBody_escapeChar c).append ih

theorem StringBody.newline_not_mem {cs : List Char} (h : StringBody cs) : '\n' ∉ cs := by
  induction h with
  | nil => exact List.not_mem_nil
  | char _ _ hbreak _ ih => simp [hbreak.symm, ih]
  | escape hbreak _ ih => simp [hbreak.symm, ih]

/-- Characters in which every string is closed, and brackets and braces outside strings come in
pairs. -/
inductive Balanced : List Char → Prop where
  | nil : Balanced []
  | plain {c : Char} {cs : List Char} (hc : IsPlain c) (h : Balanced cs) : Balanced (c :: cs)
  | string {body cs : List Char} (hbody : StringBody body) (h : Balanced cs) :
      Balanced ('"' :: (body ++ '"' :: cs))
  | brackets {inner cs : List Char} (hinner : Balanced inner) (h : Balanced cs) :
      Balanced ('[' :: (inner ++ ']' :: cs))
  | braces {inner cs : List Char} (hinner : Balanced inner) (h : Balanced cs) :
      Balanced ('{' :: (inner ++ '}' :: cs))

namespace Balanced

theorem append {cs ds : List Char} (hcs : Balanced cs) (hds : Balanced ds) :
    Balanced (cs ++ ds) := by
  induction hcs with
  | nil => exact hds
  | plain hc _ ih => exact .plain hc ih
  | string hbody _ ih => simpa using .string hbody ih
  | brackets hinner _ _ ih => simpa using .brackets hinner ih
  | braces hinner _ _ ih => simpa using .braces hinner ih

theorem of_plain {cs : List Char} (h : ∀ c ∈ cs, IsPlain c) : Balanced cs := by
  induction cs with
  | nil => exact .nil
  | cons c cs ih => exact .plain (h c List.mem_cons_self) (ih fun d hd => h d (.tail _ hd))

theorem newline_not_mem {cs : List Char} (h : Balanced cs) : '\n' ∉ cs := by
  induction h with
  | nil => exact List.not_mem_nil
  | plain hc _ ih =>
      intro hmem
      rcases List.mem_cons.mp hmem with rfl | hmem
      · exact hc (by decide)
      · exact ih hmem
  | string hbody _ ih => simp [hbody.newline_not_mem, ih]
  | brackets _ _ ih ih' => simp [ih, ih']
  | braces _ _ ih ih' => simp [ih, ih']

end Balanced

theorem balanced_stringChars (s : String) : Balanced (stringChars s) :=
  .string (stringBody_flatMap s.toList) .nil

mutual

/-- The compact text of a value is balanced. -/
theorem balanced_chars : (j : Json) → Balanced (chars j)
  | null => .of_plain (List.all_iff_forall_prop.mp (by decide))
  | bool true => .of_plain (List.all_iff_forall_prop.mp (by decide))
  | bool false => .of_plain (List.all_iff_forall_prop.mp (by decide))
  | int _ => .of_plain fun _ => isPlain_of_mem_integerChars
  | float _ => .of_plain fun _ => isPlain_of_mem_floatChars
  | string s => balanced_stringChars s
  | array [] => .brackets .nil .nil
  | array (item :: rest) => by
      obtain ⟨inner, hrest, hinner⟩ := balanced_itemsChars rest
      rw [chars, hrest, ← List.append_assoc]
      exact .brackets ((balanced_chars item).append hinner) .nil
  | object [] => .braces .nil .nil
  | object ((name, value) :: rest) => by
      obtain ⟨inner, hrest, hinner⟩ := balanced_fieldsChars rest
      have hvalue : Balanced (':' :: (chars value ++ inner)) :=
        .plain (by decide) ((balanced_chars value).append hinner)
      rw [chars, hrest]
      simpa using Balanced.braces ((balanced_stringChars name).append hvalue) .nil

/-- The items behind the first are balanced up to the closing bracket. -/
theorem balanced_itemsChars : (items : List Json) →
    ∃ inner, itemsChars items = inner ++ [']'] ∧ Balanced inner
  | [] => ⟨[], rfl, .nil⟩
  | item :: rest => by
      obtain ⟨inner, hrest, hinner⟩ := balanced_itemsChars rest
      refine ⟨',' :: (chars item ++ inner), ?_, .plain (by decide) ?_⟩
      · simp [itemsChars, hrest]
      · exact (balanced_chars item).append hinner

/-- The fields behind the first are balanced up to the closing brace. -/
theorem balanced_fieldsChars : (fields : List (String × Json)) →
    ∃ inner, fieldsChars fields = inner ++ ['}'] ∧ Balanced inner
  | [] => ⟨[], rfl, .nil⟩
  | (name, value) :: rest => by
      obtain ⟨inner, hrest, hinner⟩ := balanced_fieldsChars rest
      refine ⟨',' :: (stringChars name ++ ':' :: (chars value ++ inner)), ?_, .plain (by decide) ?_⟩
      · simp [fieldsChars, hrest]
      · exact (balanced_stringChars name).append
          (.plain (by decide) ((balanced_chars value).append hinner))

end

/-- The compact text of an object is balanced between its braces. -/
theorem exists_objectChars (fields : List (String × Json)) :
    ∃ inner, chars (.object fields) = '{' :: (inner ++ ['}']) ∧ Balanced inner := by
  cases fields with
  | nil => exact ⟨[], rfl, .nil⟩
  | cons field rest =>
      obtain ⟨inner, hrest, hinner⟩ := balanced_fieldsChars rest
      refine ⟨stringChars field.1 ++ ':' :: (chars field.2 ++ inner), by simp [chars, hrest], ?_⟩
      exact (balanced_stringChars field.1).append
        (.plain (by decide) ((balanced_chars field.2).append hinner))

/-- The compact text of a value stands on one line. -/
theorem newline_not_mem_chars (j : Json) : '\n' ∉ chars j := (balanced_chars j).newline_not_mem

/-! ### Records that are read back -/

theorem marks?_nil : marks? [] = some [] := by rw [marks?]

/-- A mark at the beginning of a text is the first of its marks. -/
theorem marks?_cons {c : Char} {rest after : List Char} {mark : Mark} (hspace : isSpace c = false)
    (h : Mark.first? (c :: rest) = some (mark, after)) :
    marks? (c :: rest) = (marks? after).map (mark :: ·) := by
  rw [marks?, if_neg (by simp [hspace])]
  split
  · rename_i hnone
    rw [h] at hnone
    cases hnone
  · rename_i hsome
    cases h.symm.trans hsome
    rfl

end Json

namespace Record

theorem empty_readsBack : empty.ReadsBack := by
  have hchars : Json.chars empty.toJson = ['{', '}'] := by decide
  have hmarks : Json.marks? ['{', '}'] = some [.openObject, .closeObject] := by
    rw [Json.marks?_cons (by decide) rfl, Json.marks?_cons (by decide) rfl, Json.marks?_nil]
    rfl
  rw [ReadsBack, Json.readRecord?, Json.read?, Json.compact, hchars, String.toList_ofList,
    Json.readChars?, hmarks]
  rfl

/-- The record with the one field `a`, which is 1. -/
def oneField : Record := ⟨[("a", .int 1)], by decide⟩

theorem oneField_readsBack : oneField.ReadsBack := by
  have hchars : Json.chars oneField.toJson = ['{', '"', 'a', '"', ':', '1', '}'] := by decide
  have hmarks : Json.marks? ['{', '"', 'a', '"', ':', '1', '}'] =
      some [.openObject, .string "a", .colon, .scalar (.int 1), .closeObject] := by
    rw [Json.marks?_cons (by decide) rfl, Json.marks?_cons (by decide) rfl,
      Json.marks?_cons (by decide) rfl,
      Json.marks?_cons (by decide) (show Json.Mark.first? ['1', '}'] =
        some (.scalar (.int 1), ['}']) from rfl),
      Json.marks?_cons (by decide) rfl, Json.marks?_nil]
    rfl
  rw [ReadsBack, Json.readRecord?, Json.read?, Json.compact, hchars, String.toList_ofList,
    Json.readChars?, hmarks]
  rfl

/-- The record with the one field `x`, which is a small number. -/
def tinyField : Record := ⟨[("x", .float 1e-23)], by decide⟩

/-- A number is not always read back as it was: the quotient of 1 and the rounded power of ten is a
neighbour of the number that has been printed. -/
theorem reread?_tinyField :
    tinyField.reread? = some ⟨[("x", .float 1.0000000000000001e-23)], by decide⟩ := by
  have hchars : Json.chars tinyField.toJson =
      ['{', '"', 'x', '"', ':', '1', 'e', '-', '2', '3', '}'] := by
    decide +kernel
  have hmarks : Json.marks? ['{', '"', 'x', '"', ':', '1', 'e', '-', '2', '3', '}'] =
      some [.openObject, .string "x", .colon, .scalar (.float 1.0000000000000001e-23),
        .closeObject] := by
    rw [Json.marks?_cons (by decide) rfl, Json.marks?_cons (by decide) rfl,
      Json.marks?_cons (by decide) rfl,
      Json.marks?_cons (by decide) (show Json.Mark.first? ['1', 'e', '-', '2', '3', '}'] =
        some (.scalar (.float 1.0000000000000001e-23), ['}']) from rfl),
      Json.marks?_cons (by decide) rfl, Json.marks?_nil]
    rfl
  rw [reread?, Json.readRecord?, Json.read?, Json.compact, hchars, String.toList_ofList,
    Json.readChars?, hmarks]
  rfl

theorem reread?_tinyField_ne : tinyField.reread? ≠ some tinyField := by
  rw [reread?_tinyField]
  nofun

end Record

end BatchTransfer
