/-!
# Folded text

A scalar may run over several lines. Blanks beside a line break do not belong to its text; a single
break stands for a space, and of several breaks the first one is dropped. `Folded` collects such a
text character by character.
-/

namespace BatchTransfer.Yaml

/-- A blank within a line. -/
def isSpace (c : Char) : Bool := c == ' ' || c == '\t'

/-- What has been read since the last character of a text: nothing, blanks with the latest first,
a line break with further ones, or an escaped line break with further ones. -/
inductive Gap where
  | nothing
  | blanks (cs : List Char)
  | breaks (more : Nat)
  | joined (more : Nat)
  deriving DecidableEq, Repr

namespace Gap

/-- What stands for a gap between two characters of a text. -/
def written : Gap → List Char
  | nothing => []
  | blanks cs => cs.reverse
  | breaks 0 => [' ']
  | breaks more => List.replicate more '\n'
  | joined more => List.replicate more '\n'

/-- The gap after one more blank; behind a line break it does not count. -/
def blank (c : Char) : Gap → Gap
  | nothing => blanks [c]
  | blanks cs => blanks (c :: cs)
  | gap => gap

/-- The gap after one more line break; blanks before it do not count. -/
def lineBreak : Gap → Gap
  | nothing => breaks 0
  | blanks _ => breaks 0
  | breaks more => breaks (more + 1)
  | joined more => joined (more + 1)

/-- Whether a line break has been read. -/
def holdsBreak : Gap → Bool
  | nothing => false
  | blanks _ => false
  | breaks _ => true
  | joined _ => true

end Gap

/-- A text with its latest character first, and the gap behind it. -/
structure Folded where
  read : List Char
  gap : Gap
  deriving DecidableEq, Repr

namespace Folded

/-- The text before its first character. -/
def empty : Folded := ⟨[], .nothing⟩

/-- The text in which the gap has become part. -/
def close (f : Folded) : Folded := ⟨f.gap.written.reverse ++ f.read, .nothing⟩

/-- The text and one more character. -/
def push (f : Folded) (c : Char) : Folded := ⟨c :: f.close.read, .nothing⟩

/-- The text and one more blank. -/
def pushBlank (f : Folded) (c : Char) : Folded := { f with gap := f.gap.blank c }

/-- The text and one more line break. -/
def pushBreak (f : Folded) : Folded := { f with gap := f.gap.lineBreak }

/-- The text and an escaped line break, which joins two lines. -/
def join (f : Folded) : Folded := { f.close with gap := .joined 0 }

/-- The text without the gap behind it. -/
def text (f : Folded) : String := String.ofList f.read.reverse

end Folded

end BatchTransfer.Yaml
