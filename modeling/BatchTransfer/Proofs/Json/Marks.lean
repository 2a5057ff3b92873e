import BatchTransfer.Proofs.Json.Printed
import BatchTransfer.Proofs.Text.Blanks

/-!
# The marks of a JSON text

A mark is read from its own characters, whatever comes behind them, unless a number goes on
(`Mark.exists_spelled`): brackets, braces and quotes stand in them only as marks of their own or around
a string. While marks are read, the number of open containers rises with each opening mark and falls
with each closing one, and it comes to nothing only where the value is complete
(`Reading.exists_hasOpen_of_step`).
-/

namespace BatchTransfer.Json

open BatchTransfer.Text BatchTransfer.Decimal

/-! ### Strings -/

theorem ne_of_hexDigitValue? {c d : Char} {n : Nat} (hc : hexDigitValue? c = some n)
    (hd : hexDigitValue? d = none) : c ≠ d := by
  rintro rfl
  rw [hc] at hd
  cases hd

theorem StringBody.hexDigit {c : Char} {cs : List Char} {n : Nat} (hc : hexDigitValue? c = some n)
    (h : StringBody cs) : StringBody (c :: cs) :=
  .char (ne_of_hexDigitValue? hc rfl) (ne_of_hexDigitValue? hc rfl) (ne_of_hexDigitValue? hc rfl) h

/-- Four hexadecimal digits escape one character. -/
theorem StringBody.unit {a b c d : Char} {cs : List Char} {n : Nat}
    (hvalue : hexValue4? a b c d = some n) (h : StringBody cs) :
    StringBody ('\\' :: 'u' :: a :: b :: c :: d :: cs) := by
  unfold hexValue4? at hvalue
  simp only [bind, Option.bind_eq_some_iff] at hvalue
  obtain ⟨_, ha, _, hb, _, hc, _, hd, -⟩ := hvalue
  exact .escape (by decide) (.hexDigit ha (.hexDigit hb (.hexDigit hc (.hexDigit hd h))))

/-- A string is read from its own characters up to its closing quote. -/
theorem exists_stringBody {read cs text rest : List Char}
    (h : readString? read cs = some (text, rest)) :
    ∃ body, cs = body ++ '"' :: rest ∧ StringBody body ∧
      ∀ rest', readString? read (body ++ '"' :: rest') = some (text, rest') := by
  fun_induction readString? read cs with
  | case1 | case3 | case6 | case7 | case9 | case10 => cases h
  | case2 read cs =>
      cases h
      exact ⟨[], rfl, .nil, fun rest' => by simp [readString?]⟩
  | case4 read a b c d cs n hn ch hch ih =>
      obtain ⟨body, rfl, hbody, hread⟩ := ih h
      exact ⟨_, rfl, hbody.unit hn, fun rest' => by simp [readString?, hn, hch, hread]⟩
  | case5 read a b c d n hn hnone e f g k cs ch hch ih =>
      obtain ⟨body, rfl, hbody, hread⟩ := ih h
      obtain ⟨low, hlow, -⟩ := Option.bind_eq_some_iff.mp hch
      refine ⟨_, rfl, (hbody.unit hlow).unit hn, fun rest' => ?_⟩
      simp [readString?, hn, hnone, hch, hread]
  | case8 read c cs hc ch hch ih =>
      obtain ⟨body, rfl, hbody, hread⟩ := ih h
      have hne {d : Char} (hd : simpleEscape? d = none) : c ≠ d := by
        rintro rfl
        rw [hch] at hd
        cases hd
      have hunit : c ≠ 'u' := hne rfl
      exact ⟨_, rfl, hbody.escape (hne rfl), fun rest' => by simp [readString?, hunit, hch, hread]⟩
  | case11 read c cs hquote _ _ hplain ih =>
      obtain ⟨body, rfl, hbody, hread⟩ := ih h
      simp only [Bool.or_eq_true, decide_eq_true_eq, beq_iff_eq, not_or] at hplain
      have hbreak : c ≠ '\n' := by
        rintro rfl
        exact hplain.1 (by decide)
      refine ⟨_, rfl, hbody.char hquote hplain.2 hbreak, fun rest' => ?_⟩
      simp [readString?, hplain, hread]

/-! ### Marks -/

/-- The characters of a mark. Only marks of one character and the quotes of a string are not plain. -/
inductive Mark.Spelled : Mark → List Char → Prop where
  | sign {c : Char} {mark : Mark} (h : Mark.ofChar? c = some mark) : Spelled mark [c]
  | string {body : List Char} (s : String) (h : StringBody body) :
      Spelled (.string s) ('"' :: (body ++ ['"']))
  | scalar {cs : List Char} (value : Json) (hsome : cs ≠ []) (h : ∀ c ∈ cs, IsPlain c) :
      Spelled (.scalar value) cs

theorem Mark.Spelled.ne_nil {mark : Mark} {cs : List Char} (h : mark.Spelled cs) : cs ≠ [] := by
  cases h with
  | sign | string => exact List.cons_ne_nil _ _
  | scalar _ hsome => exact hsome

theorem isPlain_of_isNumberChar {c : Char} (h : isNumberChar c = true) : IsPlain c := by
  intro hmem
  have hnone : ['"', '{', '}', '[', ']', '\n'].any isNumberChar = false := by decide
  exact List.any_eq_false.mp hnone c hmem h

theorem isNumberChar_of_first {c : Char} (h : (c == '-' || isDigit c) = true) :
    isNumberChar c = true := by
  rcases Bool.or_eq_true .. ▸ h with hminus | hdigit
  · rw [eq_of_beq hminus]
    decide
  · simp [isNumberChar, hdigit]

/-- A number is read as far as its characters go. -/
theorem Mark.first?_number {c : Char} (h : (c == '-' || isDigit c) = true) (cs : List Char) :
    Mark.first? (c :: cs) = (readNumber? (c :: cs.takeWhile isNumberChar)).map fun value =>
      (.scalar value, cs.dropWhile isNumberChar) := by
  have hother : c ∉ ['"', 't', 'f', 'n'] := by
    intro hmem
    have hnone : ['"', 't', 'f', 'n'].any (fun c => c == '-' || isDigit c) = false := by decide
    exact List.any_eq_false.mp hnone c hmem h
  simp only [List.mem_cons, List.not_mem_nil, or_false, not_or] at hother
  simp [Mark.first?, hother, h]

/-- The marks of one character. -/
theorem Mark.ofChar?_cases {c : Char} {mark : Mark} (h : Mark.ofChar? c = some mark) :
    c = '{' ∧ mark = .openObject ∨ c = '}' ∧ mark = .closeObject ∨
    c = '[' ∧ mark = .openArray ∨ c = ']' ∧ mark = .closeArray ∨
    c = ',' ∧ mark = .comma ∨ c = ':' ∧ mark = .colon := by
  simp only [Mark.ofChar?, beq_iff_eq] at h
  repeat' split at h
  all_goals cases h
  all_goals simp [*]

/-- A character that is a mark is read by itself. -/
theorem Mark.first?_sign {c : Char} {mark : Mark} (h : Mark.ofChar? c = some mark)
    (cs : List Char) : Mark.first? (c :: cs) = some (mark, cs) := by
  obtain ⟨rfl, rfl⟩ | ⟨rfl, rfl⟩ | ⟨rfl, rfl⟩ | ⟨rfl, rfl⟩ | ⟨rfl, rfl⟩ | ⟨rfl, rfl⟩ :=
    Mark.ofChar?_cases h
  all_goals rfl

/-- A mark is read from its own characters, whatever comes behind them that begins as what came
behind them before. -/
theorem Mark.exists_spelled {cs after : List Char} {mark : Mark}
    (h : Mark.first? cs = some (mark, after)) :
    ∃ chunk, cs = chunk ++ after ∧ mark.Spelled chunk ∧
      ∀ after', after'.head? = after.head? → Mark.first? (chunk ++ after') = some (mark, after') := by
  have hword {value : Json} {word : List Char} (hsome : word ≠ [])
      (hplain : word.all (fun c => IsPlain c) = true) : (Mark.scalar value).Spelled word :=
    .scalar value hsome (by simpa using hplain)
  fun_cases Mark.first? cs with
  | case1 => cases h
  | case2 cs =>
      obtain ⟨⟨text, rest⟩, hread, heq⟩ := Option.map_eq_some_iff.mp h
      cases heq
      obtain ⟨body, rfl, hbody, hagain⟩ := exists_stringBody hread
      refine ⟨'"' :: (body ++ ['"']), by simp, .string _ hbody, fun after' _ => ?_⟩
      simp [Mark.first?, hagain]
  | case3 cs =>
      cases h
      exact ⟨['t', 'r', 'u', 'e'], rfl, hword (List.cons_ne_nil _ _) (by decide), fun _ _ => rfl⟩
  | case4 cs =>
      cases h
      exact ⟨['f', 'a', 'l', 's', 'e'], rfl, hword (List.cons_ne_nil _ _) (by decide), fun _ _ => rfl⟩
  | case5 cs =>
      cases h
      exact ⟨['n', 'u', 'l', 'l'], rfl, hword (List.cons_ne_nil _ _) (by decide), fun _ _ => rfl⟩
  | case6 c cs _ _ _ _ hnumber =>
      rw [Mark.first?_number hnumber] at h
      obtain ⟨value, hvalue, heq⟩ := Option.map_eq_some_iff.mp h
      cases heq
      have hchars : ∀ d ∈ cs.takeWhile isNumberChar, isNumberChar d = true :=
        fun d => List.mem_takeWhile_imp
      refine ⟨c :: cs.takeWhile isNumberChar, by simp, .scalar _ (List.cons_ne_nil _ _) ?_,
        fun after' hhead => ?_⟩
      · rintro d (_ | ⟨_, hd⟩)
        · exact isPlain_of_isNumberChar (isNumberChar_of_first hnumber)
        · exact isPlain_of_isNumberChar (hchars d hd)
      · have hstop : ∀ d ∈ after'.head?, isNumberChar d = false := by
          intro d hd
          have hnot := List.head?_dropWhile_not isNumberChar cs
          rw [← hhead, hd] at hnot
          exact hnot
        obtain ⟨htake, hdrop⟩ := takeWhile_append_stop hchars hstop
        rw [List.cons_append, Mark.first?_number hnumber, htake, hdrop, hvalue]
        rfl
  | case7 c cs _ _ _ _ hnumber =>
      rw [Mark.first?, if_neg hnumber] at h
      obtain ⟨found, hfound, heq⟩ := Option.map_eq_some_iff.mp h
      cases heq
      exact ⟨[c], rfl, .sign hfound, fun after' _ => Mark.first?_sign hfound after'⟩
      all_goals assumption

/-! ### How many containers are open -/

/-- How many containers a mark opens. -/
def Mark.opened : Mark → Nat
  | openObject | openArray => 1
  | _ => 0

/-- How many containers a mark closes. -/
def Mark.closed : Mark → Nat
  | closeObject | closeArray => 1
  | _ => 0

theorem Mark.closed_le_one (mark : Mark) : mark.closed ≤ 1 := by
  cases mark <;> simp [closed]

namespace Reading

/-- How many containers are open. -/
def depth : Reading → Nat
  | beforeValue stack => stack.length
  | firstItem stack | firstName stack | beforeName _ stack | beforeColon _ _ stack
  | afterValue _ stack => stack.length + 1
  | finished _ => 0

/-- As many containers are open as said, and where none is, the value is complete. -/
structure HasOpen (r : Reading) (n : Nat) : Prop where
  depth_eq : r.depth = n
  finished : n = 0 → ∃ value, r = .finished value

variable {r next : Reading} {mark : Mark} {stack : List Frame}

/-- A value leaves the containers around it open. -/
theorem hasOpen_complete (value : Json) (stack : List Frame) :
    (complete value stack).HasOpen stack.length := by
  cases stack with
  | nil => exact ⟨rfl, fun _ => ⟨value, rfl⟩⟩
  | cons frame stack => cases frame <;> exact ⟨rfl, nofun⟩

theorem eq_of_complete {value last : Json} (h : complete value stack = .finished last) :
    value = last := by
  cases stack with
  | nil => exact Reading.finished.inj h
  | cons frame stack => cases frame <;> cases h

/-- A bracket completes nothing but an array. -/
theorem exists_array_of_step {value : Json} (h : r.step? .closeArray = some (.finished value)) :
    ∃ items, value = .array items := by
  cases r with
  | firstItem stack => exact ⟨_, (eq_of_complete (Option.some.inj h)).symm⟩
  | afterValue top stack =>
      cases top with
      | array items => exact ⟨_, (eq_of_complete (Option.some.inj h)).symm⟩
      | object => cases h
  | _ => cases h

theorem hasOpen_of_begin (h : begin? stack mark = some next) :
    next.HasOpen (stack.length + mark.opened) ∧ mark.closed = 0 := by
  unfold begin? at h
  split at h
  · split at h <;> cases h
    exact ⟨⟨rfl, nofun⟩, rfl⟩
  · split at h <;> cases h
    exact ⟨⟨rfl, nofun⟩, rfl⟩
  · cases h
    exact ⟨hasOpen_complete _ stack, rfl⟩
  · cases h
    exact ⟨hasOpen_complete _ stack, rfl⟩
  · cases h

/-- Marks open and close containers one by one. -/
theorem exists_hasOpen_of_step (h : r.step? mark = some next) :
    ∃ n, next.HasOpen n ∧ n + mark.closed = r.depth + mark.opened := by
  revert h
  fun_cases step? r mark with
  | case1 | case3 =>
      intro h
      obtain ⟨hopen, hclosed⟩ := hasOpen_of_begin h
      exact ⟨_, hopen, by rw [hclosed]; rfl⟩
  | case2 | case4 | case9 | case11 =>
      rintro ⟨⟩
      exact ⟨_, hasOpen_complete _ _, rfl⟩
  | case12 => rintro ⟨⟩
  | _ =>
      rintro ⟨⟩
      exact ⟨_, ⟨rfl, nofun⟩, rfl⟩

/-- Nothing is read behind a complete value. -/
theorem eq_nil_of_finished {marks : List Mark} {value : Json}
    (h : marks.foldlM step? (.finished value) = some next) : marks = [] ∧ next = .finished value := by
  cases marks with
  | nil => exact ⟨rfl, (Option.some.inj h).symm⟩
  | cons mark marks => cases h

end Reading

/-- A text without marks is blank. -/
theorem isSpace_of_marks {cs : List Char} (h : marks? cs = some []) :
    ∀ c ∈ cs, isSpace c = true := by
  fun_induction marks? cs with
  | case1 => exact List.forall_mem_nil _
  | case2 c rest hspace ih => exact List.forall_mem_cons.mpr ⟨hspace, ih h⟩
  | case3 => cases h
  | case4 => simp at h

end BatchTransfer.Json
