import BatchTransfer.Yaml.Token

/-!
# YAML documents

A document is a tree of scalars, sequences and mappings. A scalar keeps its style and its tag, since
a plain text can stand for a number where a quoted one cannot. Keys may be any nodes, and a mapping
keeps all its entries in order.
-/

namespace BatchTransfer.Yaml

/-- A node of a document. -/
inductive Node where
  | scalar (tag : Option String) (style : ScalarStyle) (text : String)
  | sequence (items : List Node)
  | mapping (entries : List (Node × Node))
  deriving Repr, Inhabited

namespace Node

/-- The scalar that stands where nothing is written. -/
def empty : Node := scalar none .plain ""

/-- The text of a scalar. -/
def text? : Node → Option String
  | scalar _ _ text => some text
  | _ => none

/-- The text of a plain scalar. -/
def plainText? : Node → Option String
  | scalar _ .plain text => some text
  | _ => none

end Node

end BatchTransfer.Yaml
