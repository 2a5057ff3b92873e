import BatchTransfer.Text.Position
import Mathlib.Data.List.Induction
import Mathlib.Data.Prod.Lex

/-!
# Lines and columns

Line and column are counted in one pass over the characters in front of a place
(`Coordinates.after`). Each character that is passed leads to a later line, or to a later column of
the same line (`Coordinates.lt_pass`), so that the later one of two places in a text has the greater
line and column, compared in this order: different places never have the same
(`Position.identifies_place`).
-/

namespace BatchTransfer.Text

/-! ### Characters at their places -/

/-- A character of a text, with the byte offset at which it begins. -/
structure PlacedChar where
  start : Nat
  char : Char

/-- The characters from a byte offset on. -/
def placed (start : Nat) : List Char → List PlacedChar
  | [] => []
  | c :: cs => ⟨start, c⟩ :: placed (start + c.utf8Size) cs

/-- The characters of a text that begin before a byte offset. -/
def placedBefore (text : String) (offset : Nat) : List PlacedChar :=
  (placed 0 text.toList).filter (·.start < offset)

/-- The line feeds among the characters. -/
def lineFeeds (cs : List PlacedChar) : List PlacedChar := cs.filter (·.char == '\n')

/-- The characters that begin behind all line feeds. -/
def lastLine (cs : List PlacedChar) : List PlacedChar :=
  cs.filter fun c => (lineFeeds cs).all (·.start < c.start)

theorem le_start_of_mem_placed {start : Nat} {cs : List Char} {c : PlacedChar}
    (h : c ∈ placed start cs) : start ≤ c.start := by
  induction cs generalizing start with
  | nil => cases h
  | cons d cs ih =>
      rcases List.mem_cons.mp h with rfl | hrest
      · exact Nat.le_refl start
      · exact Nat.le_of_add_right_le (ih hrest)

/-- Characters stand in the order of their places. -/
theorem pairwise_placed (start : Nat) (cs : List Char) :
    (placed start cs).Pairwise (·.start < ·.start) := by
  induction cs generalizing start with
  | nil => exact .nil
  | cons c cs ih =>
      refine List.pairwise_cons.mpr ⟨fun d hd => ?_, ih _⟩
      have hsize := c.utf8Size_pos
      have hstart := le_start_of_mem_placed hd
      show start < d.start
      omega

/-- The characters that begin before a byte offset are the leading ones. -/
theorem startingBefore_eq (start offset : Nat) (cs : List Char) :
    startingBefore cs (offset - start) =
      ((placed start cs).filter (·.start < offset)).map PlacedChar.char := by
  induction cs generalizing start with
  | nil => rfl
  | cons c cs ih =>
      rw [startingBefore, placed, List.filter_cons]
      by_cases hbefore : start < offset
      · rw [if_neg (Nat.sub_ne_zero_of_lt hbefore), if_pos (decide_eq_true hbefore),
          List.map_cons, Nat.sub_sub, ih]
      · have hnone : (placed (start + c.utf8Size) cs).filter (·.start < offset) = [] := by
          refine List.filter_eq_nil_iff.mpr fun d hd => ?_
          have hstart := le_start_of_mem_placed hd
          rw [decide_eq_true_eq]
          omega
        rw [if_pos (Nat.sub_eq_zero_of_le (Nat.not_lt.mp hbefore)),
          if_neg (by simpa using hbefore), hnone, List.map_nil]

theorem startingBefore_toList (text : String) (offset : Nat) :
    startingBefore text.toList offset = (placedBefore text offset).map PlacedChar.char :=
  startingBefore_eq 0 offset text.toList

/-- Up to an offset between two characters, the characters in front of it begin. -/
theorem startingBefore_append (before after : List Char) :
    startingBefore (before ++ after) (byteLength before) = before := by
  induction before with
  | nil => cases after <;> rfl
  | cons c before ih =>
      have hsize := c.utf8Size_pos
      rw [List.cons_append, byteLength_cons, startingBefore, if_neg (by omega),
        Nat.add_sub_cancel_left, ih]

/-! ### Line feeds and the last line -/

theorem length_lineFeeds (cs : List PlacedChar) :
    (lineFeeds cs).length = (cs.map PlacedChar.char).count '\n' := by
  rw [lineFeeds, List.count, List.countP_map, List.countP_eq_length_filter]
  rfl

theorem lastLineLength_append_lineFeed (cs : List Char) : lastLineLength (cs ++ ['\n']) = 0 := by
  rw [lastLineLength, List.reverse_concat]
  rfl

theorem lastLineLength_append_of_ne {c : Char} (h : c ≠ '\n') (cs : List Char) :
    lastLineLength (cs ++ [c]) = lastLineLength cs + 1 := by
  rw [lastLineLength, List.reverse_concat, List.takeWhile_cons, if_pos (bne_iff_ne.mpr h)]
  rfl

section LastLine

variable {cs : List PlacedChar} {c : PlacedChar}

/-- Nothing begins behind a line feed at the end. -/
theorem lastLine_append_lineFeed (hlast : ∀ d ∈ cs, d.start < c.start) (h : c.char = '\n') :
    lastLine (cs ++ [c]) = [] := by
  have hmem : c ∈ lineFeeds (cs ++ [c]) := by
    simp [lineFeeds, h]
  refine List.filter_eq_nil_iff.mpr fun d hd hbehind => ?_
  have hlater : c.start < d.start := of_decide_eq_true (List.all_eq_true.mp hbehind c hmem)
  rcases List.mem_append.mp hd with hd | hd
  · exact Nat.lt_asymm hlater (hlast d hd)
  · rw [List.mem_singleton.mp hd] at hlater
    exact Nat.lt_irrefl _ hlater

theorem lastLine_append_of_ne (hlast : ∀ d ∈ cs, d.start < c.start) (h : c.char ≠ '\n') :
    lastLine (cs ++ [c]) = lastLine cs ++ [c] := by
  have hfeeds : lineFeeds (cs ++ [c]) = lineFeeds cs := by
    simp [lineFeeds, h]
  have hbehind : ∀ d ∈ lineFeeds cs, d.start < c.start := fun d hd =>
    hlast d (List.mem_filter.mp hd).1
  rw [lastLine, hfeeds, List.filter_append, List.filter_cons_of_pos (by simpa using hbehind),
    List.filter_nil, lastLine]

/-- The characters behind all line feeds are those of the last line. -/
theorem length_lastLine (h : cs.Pairwise (·.start < ·.start)) :
    (lastLine cs).length = lastLineLength (cs.map PlacedChar.char) := by
  induction cs using List.reverseRecOn with
  | nil => rfl
  | append_singleton cs c ih =>
      obtain ⟨hcs, -, hbefore⟩ := List.pairwise_append.mp h
      have hlast : ∀ d ∈ cs, d.start < c.start := fun d hd => hbefore d hd c List.mem_cons_self
      rw [List.map_append, List.map_singleton]
      by_cases hfeed : c.char = '\n'
      · rw [lastLine_append_lineFeed hlast hfeed, hfeed, lastLineLength_append_lineFeed]
        rfl
      · rw [lastLine_append_of_ne hlast hfeed, lastLineLength_append_of_ne hfeed, ← ih hcs,
          List.length_append, List.length_singleton]

end LastLine

/-! ### One pass over the characters -/

/-- A line and a column, where the line counts first. -/
abbrev Coordinates := ℕ ×ₗ ℕ

namespace Coordinates

/-- The first column of the first line. -/
def first : Coordinates := toLex (1, 1)

/-- Behind a line feed the next line begins, behind any other character the next column. -/
def pass (p : Coordinates) (c : Char) : Coordinates :=
  if c = '\n' then toLex ((ofLex p).1 + 1, 1) else toLex ((ofLex p).1, (ofLex p).2 + 1)

/-- Passes one character after the other, up to the first that does not begin before the offset. -/
def passUntil (offset : Nat) (p : Coordinates) : List PlacedChar → Coordinates
  | [] => p
  | c :: cs => if offset ≤ c.start then p else passUntil offset (p.pass c.char) cs

/-- The coordinates behind characters at the beginning of a text. -/
def after (cs : List Char) : Coordinates := cs.foldl pass first

/-- Each character that is passed leads further. -/
theorem lt_pass (p : Coordinates) (c : Char) : p < p.pass c := by
  rw [pass]
  split
  · exact Prod.Lex.toLex_lt_toLex.mpr (.inl (Nat.lt_succ_self _))
  · exact Prod.Lex.toLex_lt_toLex.mpr (.inr ⟨rfl, Nat.lt_succ_self _⟩)

theorem le_foldl_pass (p : Coordinates) (cs : List Char) : p ≤ cs.foldl pass p := by
  induction cs generalizing p with
  | nil => exact le_refl p
  | cons c cs ih => exact (lt_pass p c).le.trans (ih (p.pass c))

theorem after_lt_after_append (before : List Char) {more : List Char} (h : more ≠ []) :
    after before < after (before ++ more) := by
  obtain ⟨c, cs, rfl⟩ := List.exists_cons_of_ne_nil h
  rw [after, after, List.foldl_append, List.foldl_cons]
  exact (lt_pass _ c).trans_le (le_foldl_pass _ cs)

/-- The pass counts line feeds, and the characters behind the last of them. -/
theorem after_eq (cs : List Char) :
    after cs = toLex (1 + cs.count '\n', 1 + lastLineLength cs) := by
  induction cs using List.reverseRecOn with
  | nil => rfl
  | append_singleton cs c ih =>
      rw [after, List.foldl_append, List.foldl_cons, List.foldl_nil, ← after, ih, pass]
      by_cases hfeed : c = '\n'
      · rw [if_pos hfeed, hfeed, lastLineLength_append_lineFeed, List.count_append]
        rfl
      · rw [if_neg hfeed, lastLineLength_append_of_ne hfeed, List.count_append,
          List.count_singleton, if_neg (by simpa using hfeed)]
        rfl

/-- Up to an offset exactly the characters are passed that begin before it. -/
theorem passUntil_placed (offset start : Nat) (p : Coordinates) (cs : List Char) :
    passUntil offset p (placed start cs) = (startingBefore cs (offset - start)).foldl pass p := by
  induction cs generalizing start p with
  | nil => rfl
  | cons c cs ih =>
      rw [placed, passUntil, startingBefore]
      simp only [Nat.sub_eq_zero_iff_le]
      split
      · rfl
      · rw [ih, Nat.sub_sub, List.foldl_cons]

end Coordinates

/-! ### Places -/

namespace Position

open Coordinates

/-- The line and the column of a place. -/
def coordinates (p : Position) : Coordinates := toLex (p.line, p.column)

theorem coordinates_locate (text : String) (offset : Nat) :
    (locate text offset).coordinates =
      after (startingBefore text.toList (min offset text.utf8ByteSize)) :=
  (after_eq _).symm

/-- A place between two characters has the coordinates behind those in front of it. -/
theorem exists_coordinates_eq {text : String} {offset : Nat}
    (h : String.Pos.Raw.IsValid text ⟨offset⟩) :
    ∃ before, before <+: text.toList ∧ offset = byteLength before ∧
      (locate text offset).coordinates = after before := by
  obtain ⟨front, back, htext, hoffset⟩ := String.Pos.Raw.isValid_iff_exists_append.mp h
  have hsplit : text.toList = front.toList ++ back.toList := by
    rw [htext, String.toList_append]
  have hlength : offset = byteLength front.toList := by
    rw [← utf8ByteSize_ofList, String.ofList_toList]
    exact congrArg String.Pos.Raw.byteIdx hoffset
  have hwithin : offset ≤ text.utf8ByteSize := h.le_utf8ByteSize
  refine ⟨front.toList, ⟨back.toList, hsplit.symm⟩, hlength, ?_⟩
  rw [coordinates_locate, Nat.min_eq_left hwithin, hlength, hsplit, startingBefore_append]

/-- Between characters, later places have greater coordinates. -/
theorem strictMonoOn_coordinates (text : String) :
    StrictMonoOn (fun offset => (locate text offset).coordinates)
      {offset | String.Pos.Raw.IsValid text ⟨offset⟩} := by
  intro offset hoffset later hlater hlt
  obtain ⟨before, hbefore, hlength, hcoordinates⟩ := exists_coordinates_eq hoffset
  obtain ⟨before', hbefore', hlength', hcoordinates'⟩ := exists_coordinates_eq hlater
  show (locate text offset).coordinates < (locate text later).coordinates
  rw [hcoordinates, hcoordinates']
  rcases List.prefix_or_prefix_of_prefix hbefore hbefore' with ⟨more, rfl⟩ | ⟨more, rfl⟩
  · refine after_lt_after_append before ?_
    rintro rfl
    rw [List.append_nil] at hlength'
    omega
  · rw [byteLength_append] at hlength
    omega

/-- The line of a place is one more than the number of line feeds that begin before it, and the
column is one more than the number of characters that begin before it and behind all these line
feeds. An offset past the end of the text means its end. One pass over the characters counts both.
Places between characters are in the order of their lines and columns, so that these say which
place it is. -/
theorem identifies_place (text : String) :
    (∀ offset,
      let within := min offset text.utf8ByteSize
      locate text offset =
        { offset := within
          line := 1 + (lineFeeds (placedBefore text within)).length
          column := 1 + (lastLine (placedBefore text within)).length } ∧
      (locate text offset).coordinates = passUntil within first (placed 0 text.toList)) ∧
    ∀ p q : text.Pos,
      (p.offset.byteIdx < q.offset.byteIdx ↔
        (locate text p.offset.byteIdx).coordinates <
          (locate text q.offset.byteIdx).coordinates) ∧
      (p.offset.byteIdx = q.offset.byteIdx ↔
        (locate text p.offset.byteIdx).coordinates =
          (locate text q.offset.byteIdx).coordinates) := by
  refine ⟨fun offset => ⟨?_, ?_⟩, fun p q => ⟨?_, ?_⟩⟩
  · have hpairwise : (placedBefore text (min offset text.utf8ByteSize)).Pairwise
        (·.start < ·.start) := (pairwise_placed 0 text.toList).filter _
    rw [locate, startingBefore_toList, length_lastLine hpairwise, length_lineFeeds]
  · rw [coordinates_locate, passUntil_placed, Nat.sub_zero, after]
  · exact ((strictMonoOn_coordinates text).lt_iff_lt p.isValid q.isValid).symm
  · exact ((strictMonoOn_coordinates text).eq_iff_eq p.isValid q.isValid).symm

/-- Both bytes of an accented letter, a carriage return and its line feed, the place behind them,
and an offset past the end. -/
example : [0, 1, 2, 3, 4, 9].map (fun offset => (locate "é\r\nab" offset).display) =
    ["line 1, column 1", "line 1, column 2", "line 1, column 2", "line 1, column 3",
      "line 2, column 1", "line 2, column 3"] := by
  decide +kernel

end Position

end BatchTransfer.Text
