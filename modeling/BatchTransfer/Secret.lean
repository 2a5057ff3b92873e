import BatchTransfer.Json.Basic

/-!
# Secrets

A secret is a text that no output shows: its text and its JSON are the same for all secrets.
-/

namespace BatchTransfer

/-- The text that stands for a value that must not be shown. -/
def redactedText : String := "***REDACTED***"

/-- A text that must not be shown. Only what hands it to a server takes it out. -/
structure Secret where
  exposed : String
  deriving DecidableEq, Inhabited

namespace Secret

/-- What is shown of a secret. -/
def display (_ : Secret) : String := redactedText

/-- A secret in JSON. -/
def toJson (s : Secret) : Json := .string s.display

/-- Whether the secret is the empty text. -/
def isEmpty (s : Secret) : Bool := s.exposed == ""

instance : Repr Secret := ⟨fun s _ => s.display⟩

end Secret

end BatchTransfer
