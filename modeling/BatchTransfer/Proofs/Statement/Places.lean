import BatchTransfer.Proofs.Statement.Grammar

/-!
# Where the entries of a statement stand

The keys of a statement are the words in front of an equals sign, and a value begins behind the sign.
`entryPlaces` finds them in a list of tokens. Where tokens are joined, so are their entries
(`entryPlaces_append`), since no equals sign begins or ends what the grammar joins: a value has none
(`Grammar.Value.isOfValue`).
-/

namespace BatchTransfer.Statement

/-- The key of an entry with its byte offset, and the byte offset of its value. -/
structure EntryPlace extends EntryKey where
  valueOffset : Nat

/-- An entry of a clause at its place. -/
structure PlacedEntry extends EntryPlace where
  value : OptionValue

/-- The entry without its place. -/
def PlacedEntry.entry (e : PlacedEntry) : String × OptionValue := (e.key, e.value)

/-- The place of the entry that begins with the first of the tokens. -/
def placeAt? : List Token → Option EntryPlace
  | key :: sign :: value :: _ =>
      match key.lexeme, sign.lexeme with
      | .word w, .equals => some ⟨⟨w, key.offset⟩, value.offset⟩
      | _, _ => none
  | _ => none

/-- The places of the entries in a list of tokens: there is one at each word in front of an equals
sign, and its value begins behind the sign. -/
def entryPlaces : List Token → List EntryPlace
  | [] => []
  | token :: rest => (placeAt? (token :: rest)).toList ++ entryPlaces rest

/-- Whether a lexeme may stand in the value of an entry. -/
def Lexeme.isOfValue : Lexeme → Bool
  | leftParen | rightParen | equals | semicolon => false
  | _ => true

/-- Whether a lexeme is an equals sign. -/
def Lexeme.isEquals : Lexeme → Bool
  | equals => true
  | _ => false

theorem Lexeme.isEquals_of_isOfValue {lexeme : Lexeme} (h : lexeme.isOfValue = true) :
    lexeme.isEquals = false := by
  cases lexeme with
  | equals => cases h
  | _ => rfl

namespace Grammar

variable {ls : List Lexeme} {v : OptionValue}

theorem Scalar.isOfValue (h : Scalar ls v) : ∀ l ∈ ls, l.isOfValue = true := by
  cases h <;> simp [Lexeme.isOfValue]

theorem Item.isOfValue (h : Item ls v) : ∀ l ∈ ls, l.isOfValue = true := by
  cases h with
  | scalar hscalar => exact hscalar.isOfValue
  | object => simp [Lexeme.isOfValue]

theorem Items.isOfValue {vs : List OptionValue} (h : Items ls vs) :
    ∀ l ∈ ls, l.isOfValue = true := by
  induction h with
  | one hitem => exact hitem.isOfValue
  | more _ hlast ih =>
      intro l hl
      rcases List.mem_append.mp hl with hl | _ | ⟨_, hl⟩
      · exact ih l hl
      · rfl
      · exact hlast.isOfValue l hl

/-- A value has neither parentheses nor equals signs nor semicolons. -/
theorem Value.isOfValue (h : Value ls v) : ∀ l ∈ ls, l.isOfValue = true := by
  cases h with
  | scalar hscalar => exact hscalar.isOfValue
  | list hitems =>
      intro l hl
      rcases hl with _ | ⟨_, hl⟩
      · rfl
      · rcases List.mem_append.mp hl with hl | hl
        · exact hitems.isOfValue l hl
        · rw [List.mem_singleton.mp hl]
          rfl

end Grammar

/-! ### Tokens that are joined -/

section Places

variable {tokens more : List Token} {token next : Token}

theorem placeAt?_of_not_equals (h : next.lexeme.isEquals = false) (rest : List Token) :
    placeAt? (token :: next :: rest) = none := by
  cases rest with
  | nil => rfl
  | cons value rest =>
      rw [placeAt?]
      split
      · rename_i heq
        rw [heq] at h
        cases h
      · rfl

/-- No entry begins with a lexeme that is no word. -/
theorem entryPlaces_cons_of_not_word (h : ∀ w, token.lexeme ≠ .word w) (rest : List Token) :
    entryPlaces (token :: rest) = entryPlaces rest := by
  have hplace : placeAt? (token :: rest) = none := by
    unfold placeAt?
    split
    · rename_i heq
      obtain ⟨rfl, -⟩ := List.cons.inj heq
      split
      · rename_i hword _
        exact absurd hword (h _)
      · rfl
    · rfl
  rw [entryPlaces, hplace]
  rfl

/-- Tokens among which there is no equals sign hold no entries, whatever stands in front of them. -/
theorem entryPlaces_cons_eq_nil (h : ∀ t ∈ tokens, t.lexeme.isEquals = false) (token : Token) :
    entryPlaces (token :: tokens) = [] := by
  induction tokens generalizing token with
  | nil =>
      rfl
  | cons next rest ih =>
      rw [List.forall_mem_cons] at h
      rw [entryPlaces, placeAt?_of_not_equals h.1, ih h.2]
      rfl

/-- The entries of two lists of tokens are those of the one and those of the other, unless an equals
sign stands at the boundary. -/
theorem entryPlaces_append (hlast : ∀ t ∈ tokens.getLast?, t.lexeme.isEquals = false)
    (hfirst : ∀ t ∈ more.head?, t.lexeme.isEquals = false) :
    entryPlaces (tokens ++ more) = entryPlaces tokens ++ entryPlaces more := by
  induction tokens with
  | nil => rfl
  | cons token rest ih =>
      have hplace : placeAt? (token :: (rest ++ more)) = placeAt? (token :: rest) := by
        match rest with
        | [] =>
            cases more with
            | nil => rfl
            | cons next more => exact placeAt?_of_not_equals (hfirst next rfl) more
        | [next] =>
            have hnext := hlast next rfl
            exact (placeAt?_of_not_equals hnext more).trans (placeAt?_of_not_equals hnext []).symm
        | next :: value :: rest => rfl
      have hrest : ∀ t ∈ rest.getLast?, t.lexeme.isEquals = false := by
        intro t ht
        refine hlast t ?_
        rw [List.getLast?_cons, ht]
        rfl
      rw [List.cons_append, entryPlaces, entryPlaces, hplace, ih hrest, List.append_assoc]

end Places

end BatchTransfer.Statement
