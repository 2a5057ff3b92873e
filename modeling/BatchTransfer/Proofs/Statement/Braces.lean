import BatchTransfer.Proofs.Json.Marks
import BatchTransfer.Proofs.Statement.Chunks

/-!
# The end of an object

The search for the end of a JSON object counts braces and brackets together and passes over strings,
without reading the object. It ends where the object does (`braces_match_objects`): while the marks
of a JSON text are read, as many containers are open as the search has counted
(`Json.Reading.exists_hasOpen_of_step`), and the value is complete where none is open.
-/

namespace BatchTransfer

/-- The characters are the text of one JSON object, from its opening brace to its closing one. -/
structure Json.ObjectText (cs : List Char) (r : Record) : Prop where
  opens : cs.head? = some '{'
  closes : cs.getLast? = some '}'
  reads : (Json.readChars? cs).bind Record.ofJson? = some r

namespace Statement

open BatchTransfer.Text BatchTransfer.Json

/-! ### What the search passes over -/

section Passes

variable {depth next : Nat} {c : Char} {cs : List Char} {mark : Mark}

/-- Characters that are no quotes, braces or brackets change nothing. -/
theorem Passes.other (hc : c ∉ ['"', '{', '}', '[', ']'])
    (hcs : Passes .outside .outside depth next cs) :
    Passes .outside .outside depth next (c :: cs) := by
  simp only [List.mem_cons, List.not_mem_nil, or_false, not_or] at hc
  exact .cons (by simp [hc]) (by simp [BraceMode.next, hc]) (by simp [depthAfter, hc]) hcs

theorem Passes.space (hc : isSpace c = true) (hcs : Passes .outside .outside depth next cs) :
    Passes .outside .outside depth next (c :: cs) :=
  .other (not_mem_of_any hc (by decide)) hcs

/-- The search counts the marks that open and close containers. -/
theorem depthAfter_of_mark (h : Mark.ofChar? c = some mark) (depth : Nat) :
    depthAfter .outside (depth + 1) c + mark.closed = depth + 1 + mark.opened := by
  obtain ⟨rfl, rfl⟩ | ⟨rfl, rfl⟩ | ⟨rfl, rfl⟩ | ⟨rfl, rfl⟩ | ⟨rfl, rfl⟩ | ⟨rfl, rfl⟩ :=
    Mark.ofChar?_cases h
  all_goals rfl

/-- Inside an object, a mark is passed over with its own change to the open containers, unless it
closes the last of them. -/
theorem passes_of_spelled (h : mark.Spelled cs)
    (hdepth : next + 1 + mark.closed = depth + 1 + mark.opened) :
    Passes .outside .outside (depth + 1) (next + 1) cs := by
  cases h with
  | @sign c _ hmark =>
      have hcount := depthAfter_of_mark hmark depth
      have hafter : depthAfter .outside (depth + 1) c = next + 1 := by omega
      have hquote : c ≠ '"' := by
        rintro rfl
        cases hmark
      exact .cons (by simp [hafter]) (by simp [BraceMode.next, hquote]) hafter .nil
  | string s hbody =>
      obtain rfl : next = depth := Nat.succ.inj hdepth
      exact .of_balanced (.string hbody .nil) next
  | scalar value _ hplain =>
      obtain rfl : next = depth := Nat.succ.inj hdepth
      exact .of_balanced (.of_plain hplain) next

end Passes

/-! ### Where the search ends -/

/-- The search finds the end behind these characters, whatever follows them. -/
def Closes (depth : Nat) (cs : List Char) : Prop :=
  ∀ offset read rest, ∃ stop, scanBraces .outside depth offset read (cs ++ rest) =
    some (read.reverse ++ cs, ⟨stop, rest⟩)

namespace Closes

variable {depth next : Nat} {cs ds : List Char}

theorem last {c : Char} (hc : c = '}' ∨ c = ']') : Closes 1 [c] := by
  intro offset read rest
  have hdepth : depthAfter .outside 1 c = 0 := by
    rcases hc with rfl | rfl <;> rfl
  exact ⟨offset + c.utf8Size, by simp [scanBraces, hc, hdepth]⟩

theorem of_passes (hcs : Passes .outside .outside depth next cs) (hds : Closes next ds) :
    Closes depth (cs ++ ds) := by
  intro offset read rest
  obtain ⟨middle, hmiddle⟩ := hcs offset read (ds ++ rest)
  obtain ⟨stop, hstop⟩ := hds middle (cs.reverse ++ read) rest
  refine ⟨stop, ?_⟩
  rw [List.append_assoc, hmiddle, hstop]
  simp

theorem ne_nil (h : Closes depth cs) : cs ≠ [] := by
  rintro rfl
  obtain ⟨stop, hstop⟩ := h 0 [] []
  cases hstop

end Closes

/-- The characters have the marks, which complete the value, and the search finds the end behind them.
If the value is an object, they end with its brace. -/
structure Completes (depth : Nat) (cs : List Char) (marks : List Mark) (value : Json) : Prop where
  reads : marks? cs = some marks
  closes : Closes depth cs
  brace : (∃ fields, value = .object fields) → cs.getLast? = some '}'

namespace Completes

variable {depth next : Nat} {c : Char} {chunk cs : List Char} {mark : Mark} {marks : List Mark}
  {value : Json}

theorem last (hspace : isSpace c = false) (hmark : Mark.ofChar? c = some mark)
    (hend : c = '}' ∨ c = ']') (hbrace : (∃ fields, value = .object fields) → c = '}') :
    Completes 1 [c] [mark] value where
  reads := by
    rw [marks?_cons hspace (Mark.first?_sign hmark []), marks?_nil]
    rfl
  closes := .last hend
  brace hobject := by
    rw [hbrace hobject]
    rfl

theorem cons_space (hspace : isSpace c = true) (h : Completes depth cs marks value) :
    Completes depth (c :: cs) marks value where
  reads := by rw [marks?, if_pos hspace, h.reads]
  closes := by
    have hpasses : Passes .outside .outside depth depth [c] := .space hspace .nil
    exact .of_passes hpasses h.closes
  brace hobject := by
    rw [List.getLast?_cons_of_ne_nil h.closes.ne_nil]
    exact h.brace hobject

theorem cons_mark (hspace : isSpace c = false)
    (hfirst : Mark.first? (c :: (chunk ++ cs)) = some (mark, cs))
    (hpasses : Passes .outside .outside depth next (c :: chunk))
    (h : Completes next cs marks value) :
    Completes depth (c :: (chunk ++ cs)) (mark :: marks) value where
  reads := by
    rw [marks?_cons hspace hfirst, h.reads]
    rfl
  closes := .of_passes hpasses h.closes
  brace hobject := by
    rw [← List.cons_append, List.getLast?_append_of_ne_nil _ h.closes.ne_nil]
    exact h.brace hobject

end Completes

section Marks

variable {r : Reading} {mark : Mark} {marks : List Mark} {value : Json} {cs : List Char}

/-- A value is complete behind its last closing mark. If it is an object, the mark is a brace. -/
theorem closing_of_step (hspelled : mark.Spelled cs) (hclosed : mark.closed = 1)
    (h : r.step? mark = some (.finished value)) :
    ∃ c, cs = [c] ∧ Mark.ofChar? c = some mark ∧ (c = '}' ∨ c = ']') ∧
      ((∃ fields, value = .object fields) → c = '}') := by
  cases hspelled with
  | string | scalar => cases hclosed
  | @sign c _ hmark =>
      refine ⟨c, rfl, hmark, ?_⟩
      obtain ⟨rfl, rfl⟩ | ⟨rfl, rfl⟩ | ⟨rfl, rfl⟩ | ⟨rfl, rfl⟩ | ⟨rfl, rfl⟩ | ⟨rfl, rfl⟩ :=
        Mark.ofChar?_cases hmark
      · cases hclosed
      · simp
      · cases hclosed
      · refine ⟨.inr rfl, ?_⟩
        rintro ⟨fields, rfl⟩
        obtain ⟨items, hitems⟩ := Reading.exists_array_of_step h
        cases hitems
      · cases hclosed
      · cases hclosed

/-- Where the value of a text is complete, and at least one container has been open, the search finds
the end: only blanks are left. -/
theorem exists_completes {depth : Nat} (hmarks : marks? cs = some marks)
    (hrun : marks.foldlM Reading.step? r = some (.finished value)) (hdepth : r.depth = depth + 1) :
    ∃ object space, cs = object ++ space ∧ (∀ c ∈ space, isSpace c = true) ∧
      Completes (depth + 1) object marks value := by
  fun_induction marks? cs generalizing r marks depth with
  | case1 =>
      cases hmarks
      cases hrun
      cases hdepth
  | case2 c rest hspace ih =>
      obtain ⟨object, space, rfl, hblank, hobject⟩ := ih hmarks hrun hdepth
      exact ⟨c :: object, space, rfl, hblank, hobject.cons_space hspace⟩
  | case3 => cases hmarks
  | case4 c rest hspace mark after hfirst ih =>
      rw [Bool.not_eq_true] at hspace
      obtain ⟨more, hmore, rfl⟩ := Option.map_eq_some_iff.mp hmarks
      obtain ⟨next, hstep, hrun⟩ := Option.bind_eq_some_iff.mp hrun
      obtain ⟨n, hopen, hcount⟩ := Reading.exists_hasOpen_of_step hstep
      obtain ⟨chunk, hchunk, hspelled, hagain⟩ := Mark.exists_spelled hfirst
      rw [hdepth] at hcount
      cases n with
      | zero =>
          -- The mark closes the only container that was open, so that no mark is left.
          have hclosed : mark.closed = 1 := by
            have := mark.closed_le_one
            omega
          obtain rfl : depth = 0 := by omega
          obtain ⟨last, rfl⟩ := hopen.finished rfl
          obtain ⟨rfl, hvalue⟩ := Reading.eq_nil_of_finished hrun
          cases hvalue
          obtain ⟨d, rfl, hmark, hend, hbrace⟩ := closing_of_step hspelled hclosed hstep
          obtain ⟨rfl, rfl⟩ := List.cons.inj hchunk
          exact ⟨[c], rest, rfl, isSpace_of_marks hmore, .last hspace hmark hend hbrace⟩
      | succ n =>
          obtain ⟨object, space, rfl, hblank, hobject⟩ := ih hmore hrun hopen.depth_eq
          obtain ⟨d, chunk, rfl⟩ := List.exists_cons_of_ne_nil hspelled.ne_nil
          obtain ⟨rfl, rfl⟩ := List.cons.inj hchunk
          have hfirst : Mark.first? (c :: (chunk ++ object)) = some (mark, object) :=
            hagain object (List.head?_append_of_ne_nil object hobject.closes.ne_nil).symm
          have hpasses := passes_of_spelled hspelled hcount
          exact ⟨c :: (chunk ++ object), space, by simp, hblank, hobject.cons_mark hspace hfirst hpasses⟩

end Marks

/-! ### Objects -/

section Objects

variable {r : Record} {object cs : List Char} {lexeme : Lexeme} {offset : Nat} {next : Cursor}

/-- A text that is read as an object, and begins with it, ends with it but for blanks. -/
theorem exists_objectText (hopens : cs.head? = some '{')
    (hreads : (readChars? cs).bind Record.ofJson? = some r) :
    ∃ object space, cs = object ++ space ∧ (∀ c ∈ space, isSpace c = true) ∧
      ObjectText object r ∧ Closes 0 object := by
  obtain ⟨rest, rfl⟩ := List.head?_eq_some_iff.mp hopens
  obtain ⟨value, hvalue, hrecord⟩ := Option.bind_eq_some_iff.mp hreads
  obtain ⟨marks, hmarks, hrun⟩ := Option.bind_eq_some_iff.mp hvalue
  obtain ⟨last, hrun, hlast⟩ := Option.bind_eq_some_iff.mp hrun
  have hfirst (after : List Char) : Mark.first? ('{' :: after) = some (.openObject, after) :=
    Mark.first?_sign rfl after
  rw [marks?_cons (by decide) (hfirst rest)] at hmarks
  obtain ⟨more, hmore, rfl⟩ := Option.map_eq_some_iff.mp hmarks
  obtain ⟨fields, rfl⟩ : ∃ fields, value = .object fields := by
    cases value with
    | object fields => exact ⟨fields, rfl⟩
    | _ => cases hrecord
  obtain rfl : last = .finished (.object fields) := by
    cases last with
    | finished value => rw [Option.some.inj hlast]
    | _ => cases hlast
  -- The brace opens the object, from where on the other marks are read.
  have hinside : more.foldlM Reading.step? (.firstName []) = some (.finished (.object fields)) := hrun
  obtain ⟨object, space, rfl, hblank, hobject⟩ := exists_completes hmore hinside rfl
  have hopening : Passes .outside .outside 0 1 ['{'] := .cons (by simp) rfl rfl .nil
  have hwhole : Completes 0 ('{' :: object) _ _ := hobject.cons_mark (by decide) (hfirst _) hopening
  refine ⟨'{' :: object, space, rfl, hblank, ⟨rfl, hwhole.brace ⟨fields, rfl⟩, ?_⟩, hwhole.closes⟩
  rw [readChars?, hwhole.reads]
  show ((List.foldlM Reading.step? (.beforeValue []) (.openObject :: more)).bind
    Reading.value?).bind Record.ofJson? = some r
  rw [hrun]
  exact hrecord

/-- The search yields the characters that it has passed, of which the last is a closing one. -/
theorem exists_slice {mode : BraceMode} {depth : Nat} {read slice : List Char}
    (h : scanBraces mode depth offset read cs = some (slice, next)) :
    ∃ chunk, slice = read.reverse ++ chunk ∧ cs = chunk ++ next.rest ∧
      next.offset = offset + byteLength chunk ∧
      ∃ c, chunk.getLast? = some c ∧ (c = '}' ∨ c = ']') := by
  fun_induction scanBraces mode depth offset read cs with
  | case1 => cases h
  | case2 mode depth offset read c cs hend =>
      cases h
      exact ⟨[c], by simp, rfl, rfl, c, rfl, hend.2.1⟩
  | case3 mode depth offset read c cs _ ih =>
      obtain ⟨chunk, rfl, rfl, hoffset, d, hlast, hd⟩ := ih h
      refine ⟨c :: chunk, by simp, rfl, ?_, d, ?_, hd⟩
      · rw [hoffset, byteLength_cons, Nat.add_assoc]
      · simp [List.getLast?_cons, hlast]

/-- A text that is read as an object, without blanks before and behind it, is the text of an object,
and the search ends with it. -/
theorem objectText_of_last {c : Char} (hopens : cs.head? = some '{')
    (hreads : (readChars? cs).bind Record.ofJson? = some r) (hlast : cs.getLast? = some c)
    (hc : isSpace c = false) : ObjectText cs r ∧ Closes 0 cs := by
  obtain ⟨object, space, rfl, hblank, hobject, hcloses⟩ := exists_objectText hopens hreads
  obtain rfl : space = [] := by
    by_contra hsome
    rw [List.getLast?_append_of_ne_nil object hsome] at hlast
    rw [hblank c (List.mem_of_getLast? hlast)] at hc
    cases hc
  rw [List.append_nil]
  exact ⟨hobject, hcloses⟩

/-- The text of an object is read up to its end, whatever follows. -/
theorem scanObject_objectText (h : ObjectText object r) (offset : Nat) (rest : List Char) :
    scanObject ⟨offset, object ++ rest⟩ = .ok (.object r, ⟨offset + byteLength object, rest⟩) := by
  obtain ⟨-, hcloses⟩ := objectText_of_last h.opens h.reads h.closes (by decide)
  obtain ⟨stop, hstop⟩ := hcloses offset [] rest
  obtain ⟨chunk, hchunk, -, hoffset, -⟩ := exists_slice hstop
  obtain rfl : object = chunk := hchunk
  simp only [scanObject, hstop, List.reverse_nil, List.nil_append, h.reads]
  rw [← hoffset]

/-- What the search for the end of an object finds is the text of an object. -/
theorem exists_objectText_of_scanObject (hopens : cs.head? = some '{')
    (h : scanObject ⟨offset, cs⟩ = .ok (lexeme, next)) :
    ∃ object r, cs = object ++ next.rest ∧ next.offset = offset + byteLength object ∧
      lexeme = .object r ∧ ObjectText object r := by
  unfold scanObject at h
  split at h
  · cases h
  rename_i slice stop hbraces
  split at h
  · rename_i r hreads
    cases h
    obtain ⟨object, hslice, rfl, hoffset, c, hlast, hc⟩ := exists_slice hbraces
    obtain rfl : slice = object := hslice
    have hsome : slice ≠ [] := by
      rintro rfl
      cases hlast
    have hspace : isSpace c = false := by
      rcases hc with rfl | rfl <;> rfl
    rw [List.head?_append_of_ne_nil _ hsome] at hopens
    exact ⟨slice, r, rfl, hoffset, rfl, (objectText_of_last hopens hreads hlast hspace).1⟩
  · cases h

/-- Behind the text of an object, scanning goes on. -/
theorem scanFrom_objectText (h : ObjectText object r) (offset : Nat) (rest : List Char) :
    scanFrom ⟨offset, object ++ rest⟩ =
      (⟨.object r, offset, offset + byteLength object⟩ ::
          (scanFrom ⟨offset + byteLength object, rest⟩).1,
        (scanFrom ⟨offset + byteLength object, rest⟩).2) := by
  obtain ⟨more, rfl⟩ := List.head?_eq_some_iff.mp h.opens
  have hskip : Cursor.skip ⟨offset, '{' :: more ++ rest⟩ = ⟨offset, '{' :: more ++ rest⟩ :=
    Cursor.skipBlanks_token (by decide) (fun hdash => absurd hdash (by decide)) offset
  have hscan : scanLexeme offset '{' (more ++ rest) = _ := scanObject_objectText h offset rest
  rw [scanFrom_token (by rw [hskip]; rfl) (by rw [hskip]; exact hscan), hskip]

/-- The search for the end of an object agrees with the reader of JSON. A text that is read as an
object ends with it but for blanks. The text of an object is read as that object up to its end,
whatever follows, and scanning goes on behind it. What is read at a brace is the text of an object. -/
theorem braces_match_objects :
    (∀ cs r, cs.head? = some '{' → (readChars? cs).bind Record.ofJson? = some r →
      ∃ object space, cs = object ++ space ∧ (∀ c ∈ space, isSpace c = true) ∧
        ObjectText object r) ∧
    (∀ object r, ObjectText object r → ∀ offset rest,
      scanObject ⟨offset, object ++ rest⟩ =
        .ok (.object r, ⟨offset + byteLength object, rest⟩) ∧
      scanFrom ⟨offset, object ++ rest⟩ =
        (⟨.object r, offset, offset + byteLength object⟩ ::
            (scanFrom ⟨offset + byteLength object, rest⟩).1,
          (scanFrom ⟨offset + byteLength object, rest⟩).2)) ∧
    (∀ offset cs lexeme next, cs.head? = some '{' →
      scanObject ⟨offset, cs⟩ = .ok (lexeme, next) →
      ∃ object r, cs = object ++ next.rest ∧ next.offset = offset + byteLength object ∧
        lexeme = .object r ∧ ObjectText object r) := by
  refine ⟨fun cs r hopens hreads => ?_, fun object r h offset rest => ?_,
    fun offset cs lexeme next => exists_objectText_of_scanObject⟩
  · obtain ⟨object, space, hcs, hblank, hobject, -⟩ := exists_objectText hopens hreads
    exact ⟨object, space, hcs, hblank, hobject⟩
  · exact ⟨scanObject_objectText h offset rest, scanFrom_objectText h offset rest⟩

/-- An object in a list in an object, under a name with braces, a backslash and a quote. -/
def nestedText : List Char :=
  ['{', '"', '}', '\\', '\\', '\\', '"', '{', '"', ':', '[', '{', '}', ']', '}']

def nestedRecord : Record := ⟨[("\x7d\\\"\x7b", .array [.object []])], by decide⟩

theorem reads_nestedText {space : List Char} (h : marks? space = some []) :
    (readChars? (nestedText ++ space)).bind Record.ofJson? = some nestedRecord := by
  have hmarks : marks? (nestedText ++ space) =
      some [.openObject, .string "\x7d\\\"\x7b", .colon, .openArray, .openObject, .closeObject,
        .closeArray, .closeObject] := by
    simp only [nestedText, List.cons_append, List.nil_append]
    rw [marks?_cons (by decide) rfl, marks?_cons (by decide) rfl, marks?_cons (by decide) rfl,
      marks?_cons (by decide) rfl, marks?_cons (by decide) rfl, marks?_cons (by decide) rfl,
      marks?_cons (by decide) rfl, marks?_cons (by decide) rfl, h]
    rfl
  rw [readChars?, hmarks]
  rfl

/-- The text of the nested object is found with a blank behind it, and is read from a text that goes on
with a brace. -/
theorem braces_match_objects_nested :
    (∃ object space, nestedText ++ [' '] = object ++ space ∧
      (∀ c ∈ space, isSpace c = true) ∧ ObjectText object nestedRecord) ∧
    scanObject ⟨4, nestedText ++ ['}']⟩ = .ok (.object nestedRecord, ⟨19, ['}']⟩) ∧
    ∃ object r, nestedText ++ ['}'] = object ++ ['}'] ∧ 19 = 4 + byteLength object ∧
      Lexeme.object nestedRecord = .object r ∧ ObjectText object r := by
  have hblank : marks? [' '] = some [] := by
    rw [marks?, if_pos (by decide), marks?_nil]
  have hreads := reads_nestedText marks?_nil
  rw [List.append_nil] at hreads
  obtain ⟨hbegins, hscans, hfound⟩ := braces_match_objects
  have hscan := (hscans nestedText nestedRecord ⟨rfl, rfl, hreads⟩ 4 ['}']).1
  exact ⟨hbegins _ _ rfl (reads_nestedText hblank), hscan, hfound _ _ _ _ rfl hscan⟩

end Objects

end Statement

end BatchTransfer
