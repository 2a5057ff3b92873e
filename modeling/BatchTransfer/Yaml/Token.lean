/-!
# Tokens

A YAML text is a sequence of marks and scalars. Block collections are marked by indentation only;
their tokens stand where the indentation grows and shrinks.
-/

namespace BatchTransfer.Yaml

/-- The way in which a scalar is written. -/
inductive ScalarStyle where
  | plain
  | quoted
  | block
  deriving DecidableEq, Repr

/-- A token of a YAML text. -/
inductive Token where
  | version
  | documentStart
  | documentEnd
  | blockSequence
  | blockMapping
  | blockEnd
  | flowSequence
  | flowSequenceEnd
  | flowMapping
  | flowMappingEnd
  | dash
  | comma
  | key
  | value
  | alias (name : String)
  | anchor (name : String)
  | tag (name : String)
  | scalar (style : ScalarStyle) (text : String)
  deriving DecidableEq, Repr, Inhabited

end BatchTransfer.Yaml
