import BatchTransfer.Text.Caseless
import BatchTransfer.Text.Percent
import BatchTransfer.Text.Pieces

/-!
# Locators

A locator (URL) names a scheme, an optional host and a path. The schemes that use a host of their
own rules and treat a backslash as a slash are called special; `file` is one of them. A text is
read by the rules of the URL Standard as far as scheme, host and path go; user names, ports,
queries and fragments are checked or passed over, but not kept.
-/

namespace BatchTransfer

open BatchTransfer.Text

/-- The parts of a locator. A host without characters counts as none. -/
structure Url where
  scheme : String
  host : Option String
  path : String
  deriving DecidableEq, Repr

namespace Url

/-- How the text behind a scheme is read. -/
inductive Family where
  | file
  | special
  | other
  deriving DecidableEq, Repr

/-- The family of a scheme. -/
def Family.ofScheme (scheme : String) : Family :=
  if scheme == "file" then .file
  else if ["http", "https", "ws", "wss", "ftp"].contains scheme then .special
  else .other

/-- Whether a character separates path segments. -/
def Family.isSlash (family : Family) (c : Char) : Bool :=
  c == '/' || (c == '\\' && family != .other)

/-- A character that ends the path. -/
def endsPath (c : Char) : Bool := c == '?' || c == '#'

/-- A character that may stand in a scheme behind its first letter. -/
def isSchemeChar (c : Char) : Bool :=
  isLetter c || isDigit c || c == '+' || c == '-' || c == '.'

/-- Splits the scheme and its colon off. -/
def splitScheme? (cs : List Char) : Option (String × List Char) :=
  match cs with
  | c :: _ =>
      if isLetter c then
        match cs.dropWhile isSchemeChar with
        | ':' :: rest => some (String.ofList ((cs.takeWhile isSchemeChar).map Char.toLower), rest)
        | _ => none
      else none
  | [] => none

/-- A path segment that stands for the directory itself. -/
def isSingleDot (segment : List Char) : Bool :=
  [".", "%2e"].contains (String.ofList (segment.map Char.toLower))

/-- A path segment that stands for the directory above. -/
def isDoubleDot (segment : List Char) : Bool :=
  ["..", "%2e.", ".%2e", "%2e%2e"].contains (String.ofList (segment.map Char.toLower))

/-- Follows path segments, with those already kept in reverse order. A dot segment at the end
leaves an empty segment. -/
def followSegments (kept : List (List Char)) : List (List Char) → List (List Char)
  | [] => kept.reverse
  | segment :: rest =>
      let last := rest.isEmpty
      if isDoubleDot segment then
        followSegments (if last then [] :: kept.drop 1 else kept.drop 1) rest
      else if isSingleDot segment then
        followSegments (if last then [] :: kept else kept) rest
      else followSegments (segment :: kept) rest

/-- A character that is percent-encoded in a path. -/
def isPathEncoded (c : Char) : Bool :=
  isControl c || [' ', '"', '<', '>', '`', '#', '?', '{', '}'].contains c

/-- The path that begins behind its first slash, with its dot segments followed. -/
def pathOf (family : Family) (cs : List Char) : List Char :=
  let segments := splitPieces family.isSlash (cs.takeWhile fun c => !endsPath c)
  let encoded := (followSegments [] segments).map (percentEncode isPathEncoded)
  '/' :: ['/'].intercalate encoded

/-- A character that no host may hold. -/
def isForbiddenInHost (c : Char) : Bool :=
  ['\x00', '\t', '\n', '\r', ' ', '#', '/', ':', '<', '>', '?', '@', '[', '\\', ']', '^',
    '|'].contains c

/-- The text of an address in square brackets. -/
def bracketedHost? (cs : List Char) : Option (List Char) :=
  match cs with
  | '[' :: rest =>
      let inner := rest.takeWhile (· != ']')
      if rest.dropWhile (· != ']') == [']'] &&
          inner.all (fun c => (hexDigitValue? c).isSome || c == ':' || c == '.') &&
          inner.contains ':' then some (cs.map Char.toLower)
      else none
  | _ => none

/-- The host that the characters name, if they name one. Special schemes have decoded host names
in lower case; elsewhere a host is kept as it is written. -/
def hostOf? (family : Family) (cs : List Char) : Option (List Char) :=
  if cs.head? == some '[' then bracketedHost? cs
  else
    match family with
    | .other =>
        if cs.any isForbiddenInHost then none else some (percentEncode isControl cs)
    | _ =>
        let decoded := (decodeShown (percentDecode cs)).map Char.toLower
        if decoded.any (fun c => isForbiddenInHost c || isControl c || c == '%') then none
        else some decoded

/-- Whether the characters are a port number of at most 16 bits, or none at all. -/
def isPort (cs : List Char) : Bool :=
  cs.all isDigit && cs.foldl (fun n c => 10 * n + (c.toNat - '0'.toNat)) 0 < 65536

/-- The part of an authority behind its last `@`, and whether a user stands before it. -/
def splitUser (cs : List Char) : Bool × List Char :=
  let behind := (cs.reverse.takeWhile (· != '@')).reverse
  if behind.length == cs.length then (false, cs)
  else (behind.length + 1 < cs.length, behind)

/-- The host part of an authority, up to a colon outside square brackets, and what follows. -/
def splitHost : Bool → List Char → List Char × List Char
  | _, [] => ([], [])
  | inside, c :: cs =>
      if c == ':' && !inside then ([], c :: cs)
      else
        let (host, rest) := splitHost (if c == '[' then true else if c == ']' then false else inside) cs
        (c :: host, rest)

/-- Reads an authority: the host, none where it is empty. A user or a port needs a host, and so do
the special schemes. -/
def authority? (family : Family) (cs : List Char) : Option (Option String) := do
  let (hasUser, rest) := splitUser cs
  let (hostText, behind) := splitHost false rest
  let port := behind.drop 1
  let host ← hostOf? family hostText
  if !isPort port then none
  else if host.isEmpty then
    if hasUser || !behind.isEmpty || family != .other || rest.length != cs.length then none
    else some none
  else some (some (String.ofList host))

/-- Reads what follows the two slashes of a locator that names a host. -/
def readAuthority? (scheme : String) (family : Family) (cs : List Char) : Option Url := do
  let ends (c : Char) : Bool := family.isSlash c || endsPath c
  let host ← authority? family (cs.takeWhile fun c => !ends c)
  match cs.dropWhile fun c => !ends c with
  | [] => some ⟨scheme, host, if family == .other then "" else "/"⟩
  | c :: rest =>
      if family.isSlash c then some ⟨scheme, host, String.ofList (pathOf family rest)⟩
      else some ⟨scheme, host, if family == .other then "" else "/"⟩

/-- The path of a `file` locator, which begins with exactly one slash. -/
def filePathOf (cs : List Char) : String :=
  String.ofList ('/' :: (pathOf .file cs).dropWhile (· == '/'))

/-- Reads what follows the scheme of a `file` locator. -/
def readFile? (cs : List Char) : Option Url :=
  match cs with
  | a :: b :: rest =>
      if Family.file.isSlash a && Family.file.isSlash b then do
        let ends (c : Char) : Bool := Family.file.isSlash c || endsPath c
        let host ← hostOf? .file (rest.takeWhile fun c => !ends c)
        let host := String.ofList host
        let path := filePathOf (rest.dropWhile fun c => !ends c)
        some ⟨"file", if host == "" || host == "localhost" then none else some host, path⟩
      else some ⟨"file", none, filePathOf cs⟩
  | cs => some ⟨"file", none, filePathOf cs⟩

/-- Reads what follows the scheme of a locator that is not special. Without a slash the path is
taken as it is. -/
def readOther? (scheme : String) (cs : List Char) : Option Url :=
  match cs with
  | '/' :: '/' :: rest => readAuthority? scheme .other rest
  | '/' :: rest => some ⟨scheme, none, String.ofList (pathOf .other rest)⟩
  | cs =>
      some ⟨scheme, none,
        String.ofList (percentEncode isControl (cs.takeWhile fun c => !endsPath c))⟩

/-- Whether a character is dropped at both ends of a locator. -/
def isMargin (c : Char) : Bool := c.toNat ≤ 0x20

/-- Reads a locator. Blanks at both ends, and tabs and line breaks anywhere, do not count. -/
def read? (text : String) : Option Url := do
  let inner := ((text.toList.dropWhile isMargin).reverse.dropWhile isMargin).reverse
  let cs := inner.filter fun c => !(c == '\t' || c == '\n' || c == '\r')
  let (scheme, rest) ← splitScheme? cs
  match Family.ofScheme scheme with
  | .file => readFile? rest
  | .special => readAuthority? scheme .special (rest.dropWhile (Family.isSlash .special))
  | .other => readOther? scheme rest

/-- The path of the local file that a locator without a host names. A path that ends in a drive
letter stands for the root of the drive. -/
def localPath? (u : Url) : Option String :=
  if u.host.isSome then none
  else
    let bytes := percentDecode u.path.toList
    let shown := decodeShown bytes
    match shown.reverse with
    | c :: d :: _ =>
        if shown.length > 2 && (c == ':' || c == '|') && isLetter d then
          some (String.ofList (shown ++ ['/']))
        else some (String.ofList shown)
    | _ => some (String.ofList shown)

end Url

end BatchTransfer
