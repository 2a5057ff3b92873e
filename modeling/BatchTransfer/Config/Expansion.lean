import BatchTransfer.Text.Caseless

/-!
# References to the environment

A configuration may refer to variables of the environment: `${NAME}` stands for the value of a
variable, and `${NAME:-other}` gives a text for where it is not set. A text is cut into references
and single characters from left to right, and each reference is replaced once, so a value is never
read for references. `flatMap_written_pieces` says that the pieces are the text again.
-/

namespace BatchTransfer

open BatchTransfer.Text

/-- The variables that are set. -/
abbrev Environment := List (String × String)

/-- A reference to a variable, with the text that stands for one that is not set. -/
structure Reference where
  name : List Char
  other : Option (List Char)
  deriving DecidableEq, Repr

/-- A character that may begin the name of a variable. -/
def isNameStart (c : Char) : Bool := isLetter c || c == '_'

/-- A character of the name of a variable. -/
def isNameChar (c : Char) : Bool := isNameStart c || isDigit c

namespace Reference

/-- The reference as it is written. -/
def written (r : Reference) : List Char :=
  '$' :: '\x7b' :: r.name ++ (r.other.elim [] fun other => ':' :: '-' :: other) ++ ['\x7d']

/-- Reads what follows the name in a reference: its end, or another text up to its end. -/
def readOther? (name : List Char) : List Char → Option (Reference × List Char)
  | '\x7d' :: rest => some (⟨name, none⟩, rest)
  | ':' :: '-' :: rest =>
      match rest.dropWhile (· != '\x7d') with
      | _ :: after => some (⟨name, some (rest.takeWhile (· != '\x7d'))⟩, after)
      | [] => none
  | _ => none

/-- Reads the reference at the start of a text. -/
def read? : List Char → Option (Reference × List Char)
  | '$' :: '\x7b' :: c :: cs =>
      if isNameStart c then readOther? (c :: cs.takeWhile isNameChar) (cs.dropWhile isNameChar)
      else none
  | _ => none

/-- What stands for a reference. -/
def value (env : Environment) (r : Reference) : List Char :=
  match env.lookup (String.ofList r.name) with
  | some value => value.toList
  | none => r.other.getD []

/-- A reference and what follows it are the text that it is read from. -/
theorem written_append_of_readOther? {name cs rest : List Char} {r : Reference}
    (h : readOther? name cs = some (r, rest)) :
    r.written ++ rest = '$' :: '\x7b' :: name ++ cs := by
  unfold readOther? at h
  split at h
  · simp only [Option.some.injEq, Prod.mk.injEq] at h
    obtain ⟨rfl, rfl⟩ := h
    simp [written]
  · rename_i tail
    split at h
    · rename_i c after hdrop
      simp only [Option.some.injEq, Prod.mk.injEq] at h
      obtain ⟨rfl, rfl⟩ := h
      have hc : c = '\x7d' := by
        have := List.head?_dropWhile_not (fun c => c != '\x7d') tail
        simp only [hdrop, List.head?_cons] at this
        simpa using this
      have htail := List.takeWhile_append_dropWhile (p := fun c => c != '\x7d') (l := tail)
      rw [hdrop, hc] at htail
      simp [written, htail]
    · simp at h
  · simp at h

/-- A reference and what follows it are the text that it is read from. -/
theorem written_append_of_read? {cs rest : List Char} {r : Reference}
    (h : read? cs = some (r, rest)) : r.written ++ rest = cs := by
  unfold read? at h
  split at h
  · rename_i c tail
    split at h
    · rw [written_append_of_readOther? h]
      simp [List.takeWhile_append_dropWhile]
    · simp at h
  · simp at h

/-- Reading a reference leaves less text. -/
theorem length_lt_of_read? {cs rest : List Char} {r : Reference}
    (h : read? cs = some (r, rest)) : rest.length < cs.length := by
  rw [← written_append_of_read? h]
  simp [written]
  omega

end Reference

/-- A piece of a text with references. -/
inductive Piece where
  | char (c : Char)
  | reference (r : Reference)
  deriving DecidableEq, Repr

namespace Piece

/-- The piece as it is written. -/
def written : Piece → List Char
  | char c => [c]
  | reference r => r.written

/-- What stands for a piece. -/
def value (env : Environment) : Piece → List Char
  | char c => [c]
  | reference r => r.value env

end Piece

/-- The pieces of a text: a reference wherever one starts outside an earlier one, and else single
characters. -/
def pieces (cs : List Char) : List Piece :=
  match cs with
  | [] => []
  | c :: rest =>
      match _h : Reference.read? (c :: rest) with
      | some (r, after) => .reference r :: pieces after
      | none => .char c :: pieces rest
termination_by cs.length
decreasing_by
  · exact Reference.length_lt_of_read? ‹_›
  · simp

/-- The pieces of a text, as they are written, are the text. -/
theorem flatMap_written_pieces (cs : List Char) : (pieces cs).flatMap Piece.written = cs := by
  fun_induction pieces cs with
  | case1 => rfl
  | case2 c rest r after h ih =>
    simp [Piece.written, ih, Reference.written_append_of_read? h]
  | case3 c rest h ih => simp [Piece.written, ih]

/-- The text with every reference replaced. -/
def expand (env : Environment) (text : String) : String :=
  String.ofList ((pieces text.toList).flatMap (Piece.value env))

end BatchTransfer
