/-!
# Contents of files and objects

A file or an object holds bytes. Bytes that are valid UTF-8 are kept as the text that they spell,
so that what is written as text is read back as that text.
-/

namespace BatchTransfer

/-- What a file or an object holds: a text, or bytes that spell none. -/
inductive Content where
  | text (value : String)
  | binary (bytes : List UInt8)
  deriving DecidableEq, Repr, Inhabited

namespace Content

/-- The content that the bytes are. -/
def ofBytes (bytes : List UInt8) : Content :=
  match String.fromUTF8? ⟨bytes.toArray⟩ with
  | some s => .text s
  | none => .binary bytes

/-- The text of a content, if it is one. -/
def text? : Content → Option String
  | text s => some s
  | binary _ => none

/-- The number of bytes. -/
def size : Content → Nat
  | text s => s.utf8ByteSize
  | binary bytes => bytes.length

end Content

end BatchTransfer
