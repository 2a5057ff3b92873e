import BatchTransfer.Yaml.Lexer
import BatchTransfer.Yaml.Node

/-!
# Reading YAML documents

The tokens of a text are read as documents by the grammar of YAML. An alias stands for the node that
its anchor names; the node has to be complete.
-/

namespace BatchTransfer.Yaml

/-- The tokens not yet read, and the nodes that anchors have named so far, the latest first. -/
structure Remainder where
  tokens : List Token
  anchors : List (String × Node)

/-- What stands before a node: an anchor and a tag in either order. -/
structure Properties where
  anchor : Option String
  tag : Option String

namespace Properties

/-- Reads the properties of a node. -/
def read : List Token → Properties × List Token
  | .anchor a :: .tag t :: rest => (⟨some a, some t⟩, rest)
  | .tag t :: .anchor a :: rest => (⟨some a, some t⟩, rest)
  | .anchor a :: rest => (⟨some a, none⟩, rest)
  | .tag t :: rest => (⟨none, some t⟩, rest)
  | tokens => (⟨none, none⟩, tokens)

/-- Whether neither is there. -/
def isEmpty (p : Properties) : Bool := p.anchor.isNone && p.tag.isNone

/-- Names a node that has been read. -/
def keep (p : Properties) (node : Node) (r : Remainder) : Node × Remainder :=
  match p.anchor with
  | none => (node, r)
  | some name => (node, { r with anchors := (name, node) :: r.anchors })

end Properties

/-- What a node can be where it stands: in a block or a flow collection, and with a block sequence
that is not indented or without. -/
structure Place where
  inBlock : Bool
  takesDashes : Bool

/-- How a sequence is written: indented, with dashes at the column of the mapping around it, or in
brackets. -/
inductive SequenceForm where
  | block
  | dashes
  | flow (isFirst : Bool)

/-- How a mapping is written. -/
inductive MappingForm where
  | block
  | flow (isFirst : Bool)

mutual

/-- Reads a node. -/
def readNode? (fuel : Nat) (place : Place) (r : Remainder) : Option (Node × Remainder) :=
  match fuel with
  | 0 => none
  | fuel + 1 =>
      match r.tokens with
      | .alias name :: rest => (r.anchors.lookup name).map (·, { r with tokens := rest })
      | _ =>
          let (p, tokens) := Properties.read r.tokens
          let nested (form : SequenceForm) (tokens : List Token) : Option (Node × Remainder) :=
            (readItems? fuel form { r with tokens }).map fun (items, r) =>
              p.keep (.sequence items) r
          let mapped (form : MappingForm) (tokens : List Token) : Option (Node × Remainder) :=
            (readEntries? fuel form { r with tokens }).map fun (entries, r) =>
              p.keep (.mapping entries) r
          match tokens with
          | .scalar style text :: rest =>
              some (p.keep (.scalar p.tag style text) { r with tokens := rest })
          | .flowSequence :: rest => nested (.flow true) rest
          | .flowMapping :: rest => mapped (.flow true) rest
          | .dash :: rest =>
              if place.takesDashes then nested .dashes (.dash :: rest)
              else if p.isEmpty then none
              else some (p.keep (.scalar p.tag .plain "") { r with tokens })
          | .blockSequence :: rest =>
              if place.inBlock then nested .block rest
              else if p.isEmpty then none
              else some (p.keep (.scalar p.tag .plain "") { r with tokens })
          | .blockMapping :: rest =>
              if place.inBlock then mapped .block rest
              else if p.isEmpty then none
              else some (p.keep (.scalar p.tag .plain "") { r with tokens })
          | _ =>
              if p.isEmpty then none
              else some (p.keep (.scalar p.tag .plain "") { r with tokens })

/-- Reads a node, or finds nothing written where one of the tokens follows that end its place. -/
def readNodeUnless? (fuel : Nat) (place : Place) (ends : List Token) (r : Remainder) :
    Option (Node × Remainder) :=
  match fuel with
  | 0 => none
  | fuel + 1 =>
      match r.tokens with
      | [] => none
      | t :: _ => if ends.contains t then some (.empty, r) else readNode? fuel place r

/-- Reads the items of a sequence to its end. -/
def readItems? (fuel : Nat) (form : SequenceForm) (r : Remainder) : Option (List Node × Remainder) :=
  match fuel with
  | 0 => none
  | fuel + 1 =>
      match form, r.tokens with
      | .block, .dash :: rest => do
          let (item, r) ← readNodeUnless? fuel ⟨true, false⟩ [.dash, .blockEnd]
            { r with tokens := rest }
          let (items, r) ← readItems? fuel .block r
          some (item :: items, r)
      | .block, .blockEnd :: rest => some ([], { r with tokens := rest })
      | .dashes, .dash :: rest => do
          let (item, r) ← readNodeUnless? fuel ⟨true, false⟩ [.dash, .key, .value, .blockEnd]
            { r with tokens := rest }
          let (items, r) ← readItems? fuel .dashes r
          some (item :: items, r)
      | .dashes, _ => some ([], r)
      | .flow _, .flowSequenceEnd :: rest => some ([], { r with tokens := rest })
      | .flow false, .comma :: .flowSequenceEnd :: rest => some ([], { r with tokens := rest })
      | .flow false, .comma :: rest => readFlowItem? fuel { r with tokens := rest }
      | .flow true, _ => readFlowItem? fuel r
      | _, _ => none

/-- Reads an item of a flow sequence and the items behind it. A key makes it a mapping of one
entry. -/
def readFlowItem? (fuel : Nat) (r : Remainder) : Option (List Node × Remainder) :=
  match fuel with
  | 0 => none
  | fuel + 1 =>
      match r.tokens with
      | .key :: rest => do
          let ends := [.comma, .flowSequenceEnd]
          let (key, r) ← readNodeUnless? fuel ⟨false, false⟩ (.value :: ends)
            { r with tokens := rest }
          let (value, r) ← readValue? fuel ⟨false, false⟩ ends r
          let (items, r) ← readItems? fuel (.flow false) r
          some (.mapping [(key, value)] :: items, r)
      | _ => do
          let (item, r) ← readNode? fuel ⟨false, false⟩ r
          let (items, r) ← readItems? fuel (.flow false) r
          some (item :: items, r)

/-- Reads the value of an entry; without a colon nothing is written. -/
def readValue? (fuel : Nat) (place : Place) (ends : List Token) (r : Remainder) :
    Option (Node × Remainder) :=
  match fuel with
  | 0 => none
  | fuel + 1 =>
      match r.tokens with
      | .value :: rest => readNodeUnless? fuel place ends { r with tokens := rest }
      | _ => some (.empty, r)

/-- Reads the entries of a mapping to its end. -/
def readEntries? (fuel : Nat) (form : MappingForm) (r : Remainder) :
    Option (List (Node × Node) × Remainder) :=
  match fuel with
  | 0 => none
  | fuel + 1 =>
      match form, r.tokens with
      | .block, .key :: rest => do
          let ends := [.key, .value, .blockEnd]
          let (key, r) ← readNodeUnless? fuel ⟨true, true⟩ ends { r with tokens := rest }
          let (value, r) ← readValue? fuel ⟨true, true⟩ ends r
          let (entries, r) ← readEntries? fuel .block r
          some ((key, value) :: entries, r)
      | .block, .blockEnd :: rest => some ([], { r with tokens := rest })
      | .flow _, .flowMappingEnd :: rest => some ([], { r with tokens := rest })
      | .flow false, .comma :: .flowMappingEnd :: rest => some ([], { r with tokens := rest })
      | .flow false, .comma :: rest => readFlowEntry? fuel { r with tokens := rest }
      | .flow true, _ => readFlowEntry? fuel r
      | _, _ => none

/-- Reads an entry of a flow mapping and the entries behind it. A node without a key mark is a key
without a value. -/
def readFlowEntry? (fuel : Nat) (r : Remainder) : Option (List (Node × Node) × Remainder) :=
  match fuel with
  | 0 => none
  | fuel + 1 =>
      match r.tokens with
      | .key :: rest => do
          let ends := [.comma, .flowMappingEnd]
          let (key, r) ← readNodeUnless? fuel ⟨false, false⟩ (.value :: ends)
            { r with tokens := rest }
          let (value, r) ← readValue? fuel ⟨false, false⟩ ends r
          let (entries, r) ← readEntries? fuel (.flow false) r
          some ((key, value) :: entries, r)
      | _ => do
          let (key, r) ← readNode? fuel ⟨false, false⟩ r
          let (entries, r) ← readEntries? fuel (.flow false) r
          some ((key, .empty) :: entries, r)

end

/-- Whether a token cannot begin the content of a document. -/
def Token.isOutside : Token → Bool
  | .version => true
  | .documentStart => true
  | .documentEnd => true
  | _ => false

/-- Reads the content of a document; behind an opening mark nothing may be written. -/
def readContent? (fuel : Nat) (isMarked : Bool) (tokens : List Token) :
    Option (Node × List Token) :=
  if isMarked && tokens.head?.all Token.isOutside then some (.empty, tokens)
  else (readNode? fuel ⟨true, false⟩ ⟨tokens, []⟩).map fun (node, r) => (node, r.tokens)

/-- Reads the marks that open a document: whether there are any, and what follows them. -/
def readOpening? : List Token → Option (Bool × List Token)
  | .version :: .documentStart :: rest => some (true, rest)
  | .version :: _ => none
  | .documentStart :: rest => some (true, rest)
  | tokens => some (false, tokens)

/-- Reads the documents that tokens make up, at most as many as allowed. Only the first one may
begin without a mark. -/
def readDocuments? (nodeFuel : Nat) : Nat → Bool → List Token → Option (List Node)
  | 0, _, _ => none
  | more + 1, isFirst, tokens =>
      match if isFirst then tokens else tokens.dropWhile (· == .documentEnd) with
      | [] => some []
      | tokens => do
          let (isMarked, content) ← readOpening? tokens
          if !isMarked && !isFirst then none
          else
            let (node, rest) ← readContent? nodeFuel isMarked content
            let nodes ← readDocuments? nodeFuel more false rest
            some (node :: nodes)

/-- The documents of a text. Reading a node goes at most four calls deep for every token. -/
def documents? (text : String) : Option (List Node) := do
  let tokens ← tokens? text.toList
  readDocuments? (4 * tokens.length + 4) (tokens.length + 1) true tokens

end BatchTransfer.Yaml
