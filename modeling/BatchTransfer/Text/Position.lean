/-!
# Places in a text

A place is given by its byte offset and, for the reader, by a line and a column that count
characters from one. Only a line feed ends a line.
-/

namespace BatchTransfer.Text

/-- The number of bytes of the characters in UTF-8. -/
def byteLength : List Char → Nat
  | [] => 0
  | c :: cs => c.utf8Size + byteLength cs

@[simp] theorem byteLength_nil : byteLength [] = 0 := rfl

@[simp] theorem byteLength_cons (c : Char) (cs : List Char) :
    byteLength (c :: cs) = c.utf8Size + byteLength cs := rfl

@[simp] theorem byteLength_append (as bs : List Char) :
    byteLength (as ++ bs) = byteLength as + byteLength bs := by
  induction as with
  | nil => simp
  | cons c cs ih => simp [ih, Nat.add_assoc]

theorem byteLength_eq_zero {cs : List Char} : byteLength cs = 0 ↔ cs = [] := by
  cases cs with
  | nil => exact ⟨fun _ => rfl, fun _ => rfl⟩
  | cons c cs =>
      have hsize := c.utf8Size_pos
      rw [byteLength_cons]
      exact ⟨fun h => by omega, nofun⟩

theorem utf8ByteSize_ofList (cs : List Char) :
    (String.ofList cs).utf8ByteSize = byteLength cs := by
  induction cs with
  | nil => rfl
  | cons c cs ih =>
      rw [← List.singleton_append, String.ofList_append, String.utf8ByteSize_append, ih]
      simp

/-- The leading characters whose first byte lies before the byte offset. -/
def startingBefore : List Char → Nat → List Char
  | [], _ => []
  | c :: cs, offset =>
      if offset = 0 then [] else c :: startingBefore cs (offset - c.utf8Size)

/-- The length of the last line of the characters, without its line feed. -/
def lastLineLength (cs : List Char) : Nat :=
  (cs.reverse.takeWhile (· != '\n')).length

/-- A place in a text: its byte offset, and its line and column counted from one. -/
structure Position where
  offset : Nat
  line : Nat
  column : Nat
  deriving DecidableEq, Repr, Inhabited

namespace Position

/-- The place of a byte offset in a text. An offset past the end means the end, and one inside a
character counts that character as passed. -/
def locate (text : String) (offset : Nat) : Position :=
  let offset := min offset text.utf8ByteSize
  let before := startingBefore text.toList offset
  { offset, line := 1 + before.count '\n', column := 1 + lastLineLength before }

/-- The place in words. -/
def display (p : Position) : String :=
  s!"line {p.line}, column {p.column}"

end Position

end BatchTransfer.Text
