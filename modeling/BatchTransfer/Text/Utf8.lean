/-!
# Characters and their bytes

The bytes of a character are those of UTF-8. Bytes that are no valid UTF-8 can still be shown:
every longest piece that could have begun a character becomes one replacement character.
-/

namespace BatchTransfer.Text

/-- The bytes of the characters in UTF-8. -/
def utf8Bytes (cs : List Char) : List UInt8 :=
  cs.flatMap String.utf8EncodeChar

/-- The replacement character. -/
def replacement : Char := '\uFFFD'

/-- The values that a byte may have at a place inside a character. -/
structure ByteRange where
  low : Nat
  high : Nat
  deriving DecidableEq, Repr

/-- Whether the range holds the byte. -/
def ByteRange.contains (r : ByteRange) (b : UInt8) : Bool :=
  r.low ≤ b.toNat && b.toNat ≤ r.high

/-- The values of a byte that continues a character. -/
def continuation : ByteRange := ⟨0x80, 0xBF⟩

/-- What the first byte of a character says: its share of the character's code, and the values
that each byte after it may have. -/
def leadingByte? (b : UInt8) : Option (Nat × List ByteRange) :=
  let n := b.toNat
  if n < 0x80 then some (n, [])
  else if 0xC2 ≤ n && n ≤ 0xDF then some (n - 0xC0, [continuation])
  else if n == 0xE0 then some (0, [⟨0xA0, 0xBF⟩, continuation])
  else if n == 0xED then some (n - 0xE0, [⟨0x80, 0x9F⟩, continuation])
  else if 0xE1 ≤ n && n ≤ 0xEF then some (n - 0xE0, [continuation, continuation])
  else if n == 0xF0 then some (0, [⟨0x90, 0xBF⟩, continuation, continuation])
  else if 0xF1 ≤ n && n ≤ 0xF3 then
    some (n - 0xF0, [continuation, continuation, continuation])
  else if n == 0xF4 then some (4, [⟨0x80, 0x8F⟩, continuation, continuation])
  else none

/-- Reads the bytes that continue a character, as far as they fit: the character, or the
replacement where one does not fit, and the bytes not read. -/
def continueChar (code : Nat) : List ByteRange → List UInt8 → Char × List UInt8
  | [], bytes => (Char.ofNat code, bytes)
  | range :: ranges, byte :: bytes =>
      if range.contains byte then continueChar (code * 64 + (byte.toNat - 0x80)) ranges bytes
      else (replacement, byte :: bytes)
  | _ :: _, [] => (replacement, [])

theorem length_continueChar (code : Nat) (ranges : List ByteRange) (bytes : List UInt8) :
    (continueChar code ranges bytes).2.length ≤ bytes.length := by
  fun_induction continueChar code ranges bytes <;> simp_all <;> omega

/-- The characters of the bytes, with replacement characters for what is no character. -/
def decodeShown (bytes : List UInt8) : List Char :=
  match bytes with
  | [] => []
  | byte :: rest =>
      match leadingByte? byte with
      | none => replacement :: decodeShown rest
      | some (code, ranges) =>
          (continueChar code ranges rest).1 :: decodeShown (continueChar code ranges rest).2
termination_by bytes.length
decreasing_by
  · simp
  · have := length_continueChar code ranges rest
    simp only [List.length_cons]
    omega

end BatchTransfer.Text
