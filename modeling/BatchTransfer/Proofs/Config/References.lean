import BatchTransfer.Config.Expansion
import BatchTransfer.Proofs.Text.Blanks
import Mathlib.Data.List.TakeWhile

/-!
# References are replaced in one pass

A text is expanded from left to right: what stands before the first reference is kept, the reference
is replaced, and the expansion goes on behind it. `Expands` says so without reading the text, and
`expand_eq_iff` that `expand` gives this text and no other. What a reference is replaced by is not
read again, and what looks like a reference without being one is kept as it is.
-/

namespace BatchTransfer

namespace Reference

/-- Whether a reference can be written: its name is one of a variable, and the text for a variable
that is not set does not hold the end of the reference. -/
structure IsWellFormed (r : Reference) : Prop where
  name : ∃ c cs, r.name = c :: cs ∧ isNameStart c = true ∧ ∀ d ∈ cs, isNameChar d = true
  other : ∀ other ∈ r.other, '\x7d' ∉ other

/-- What a reference is replaced by: the value of the variable if it is set, and else the text that
is given for this, or nothing. -/
inductive StandsFor (env : Environment) (r : Reference) : List Char → Prop where
  | value {value : String} (h : env.lookup (String.ofList r.name) = some value) :
      StandsFor env r value.toList
  | other {other : List Char} (h : env.lookup (String.ofList r.name) = none)
      (hother : r.other = some other) : StandsFor env r other
  | nothing (h : env.lookup (String.ofList r.name) = none) (hother : r.other = none) :
      StandsFor env r []

variable {env : Environment} {r : Reference} {cs rest value : List Char}

theorem standsFor_iff : r.StandsFor env value ↔ value = r.value env := by
  constructor
  · intro h
    cases h with
    | value h => simp [Reference.value, h]
    | other h hother | nothing h hother => simp [Reference.value, h, hother]
  · rintro rfl
    unfold Reference.value
    split
    · exact .value ‹_›
    · cases hother : r.other with
      | none => exact .nothing ‹_› hother
      | some other => exact .other ‹_› hother

/-- The other text of a reference that is read ends with the reference. -/
theorem of_readOther? {name : List Char} (h : readOther? name cs = some (r, rest)) :
    r.name = name ∧ ∀ other ∈ r.other, '\x7d' ∉ other := by
  unfold readOther? at h
  split at h
  · cases h
    exact ⟨rfl, nofun⟩
  · split at h
    · cases h
      refine ⟨rfl, fun other hother hend => ?_⟩
      cases hother
      have hne := List.mem_takeWhile_imp hend
      simp at hne
    · cases h
  · cases h

/-- A reference that is read can be written. -/
theorem isWellFormed_of_read? (h : read? cs = some (r, rest)) : r.IsWellFormed := by
  unfold read? at h
  split at h
  · rename_i c tail
    split at h
    · obtain ⟨hname, hother⟩ := of_readOther? h
      exact ⟨⟨c, _, hname, ‹_›, fun d => List.mem_takeWhile_imp⟩, hother⟩
    · cases h
  · cases h

/-- What follows the name of a reference. -/
def ending (r : Reference) : List Char :=
  (r.other.elim [] fun other => ':' :: '-' :: other) ++ ['\x7d']

theorem readOther?_ending (h : ∀ other ∈ r.other, '\x7d' ∉ other) :
    readOther? r.name (r.ending ++ rest) = some (r, rest) := by
  obtain ⟨name, other⟩ := r
  cases other with
  | none => rfl
  | some other =>
      have hclear : ∀ c ∈ other, (c != '\x7d') = true := by
        intro c hc
        rw [bne_iff_ne]
        rintro rfl
        exact h other rfl hc
      simp [ending, readOther?, List.takeWhile_append_of_pos hclear,
        List.dropWhile_append_of_pos hclear]

/-- No character that follows the name could go on with it. -/
theorem head?_ending (r : Reference) : ∃ c cs, r.ending = c :: cs ∧ isNameChar c = false := by
  unfold ending
  cases r.other with
  | none => exact ⟨'\x7d', [], rfl, by decide⟩
  | some other => exact ⟨':', _, rfl, by decide⟩

/-- What a reference is read from is the reference as it is written, whatever follows. -/
theorem read?_eq_some_iff :
    read? cs = some (r, rest) ↔ r.IsWellFormed ∧ cs = r.written ++ rest := by
  constructor
  · intro h
    exact ⟨isWellFormed_of_read? h, (written_append_of_read? h).symm⟩
  · rintro ⟨⟨⟨c, name, hname, hstart, hchars⟩, hother⟩, rfl⟩
    obtain ⟨d, ds, hending, hstop⟩ := r.head?_ending
    have hwritten : r.written ++ rest = '$' :: '\x7b' :: c :: (name ++ (r.ending ++ rest)) := by
      simp [written, ending, hname]
    have hbehind : ∀ e ∈ (r.ending ++ rest).head?, isNameChar e = false := by
      rw [hending]
      rintro e ⟨⟩
      exact hstop
    obtain ⟨htake, hdrop⟩ := Text.takeWhile_append_stop hchars hbehind
    rw [hwritten, read?, if_pos hstart, htake, hdrop, ← hname, readOther?_ending hother]

end Reference

/-- Whether a text begins with a reference. -/
def BeginsReference (cs : List Char) : Prop :=
  ∃ (r : Reference) (rest : List Char), r.IsWellFormed ∧ cs = r.written ++ rest

/-- Whether no reference begins within a text that another one follows. -/
def HoldsNoReference (cs rest : List Char) : Prop :=
  ∀ tail, tail ≠ [] → tail <:+ cs → ¬ BeginsReference (tail ++ rest)

/-- A text and what it is expanded to. What stands before the first reference is kept, and so is all
of a text without any. -/
inductive Expands (env : Environment) : List Char → List Char → Prop where
  | kept {cs : List Char} (h : HoldsNoReference cs []) : Expands env cs cs
  | replaced {before value rest out : List Char} {r : Reference} (hr : r.IsWellFormed)
      (hbefore : HoldsNoReference before (r.written ++ rest)) (hvalue : r.StandsFor env value)
      (hrest : Expands env rest out) :
      Expands env (before ++ r.written ++ rest) (before ++ value ++ out)

variable {env : Environment} {cs rest out : List Char} {c : Char}

theorem HoldsNoReference.nil (rest : List Char) : HoldsNoReference [] rest :=
  fun _ hne htail => absurd (List.suffix_nil.mp htail) hne

theorem holdsNoReference_cons :
    HoldsNoReference (c :: cs) rest ↔
      ¬ BeginsReference (c :: (cs ++ rest)) ∧ HoldsNoReference cs rest := by
  constructor
  · intro h
    exact ⟨h _ (by simp) List.suffix_rfl,
      fun tail hne htail => h tail hne (htail.trans (List.suffix_cons c cs))⟩
  · rintro ⟨hfirst, hrest⟩ tail hne htail
    rcases List.suffix_cons_iff.mp htail with rfl | htail
    · exact hfirst
    · exact hrest tail hne htail

/-! ### Pieces -/

theorem pieces_reference {r : Reference} (h : r.IsWellFormed) :
    pieces (r.written ++ rest) = .reference r :: pieces rest := by
  have hread : Reference.read? (r.written ++ rest) = some (r, rest) :=
    Reference.read?_eq_some_iff.mpr ⟨h, rfl⟩
  obtain ⟨c, cs, hcons⟩ : ∃ c cs, r.written ++ rest = c :: cs := ⟨_, _, rfl⟩
  rw [hcons] at hread ⊢
  rw [pieces]
  split
  · rename_i hsome
    rw [hread] at hsome
    cases hsome
    rfl
  · rename_i hnone
    rw [hread] at hnone
    cases hnone

theorem pieces_char (h : ¬ BeginsReference (c :: cs)) :
    pieces (c :: cs) = .char c :: pieces cs := by
  have hread : Reference.read? (c :: cs) = none := by
    cases hread : Reference.read? (c :: cs) with
    | none => rfl
    | some result => exact absurd ⟨_, _, Reference.read?_eq_some_iff.mp hread⟩ h
  rw [pieces]
  split
  · rename_i hsome
    rw [hread] at hsome
    cases hsome
  · rfl

/-- Where no reference begins, the pieces are the characters. -/
theorem pieces_append (h : HoldsNoReference cs rest) :
    pieces (cs ++ rest) = cs.map .char ++ pieces rest := by
  induction cs with
  | nil => rfl
  | cons c cs ih =>
      obtain ⟨hfirst, hrest⟩ := holdsNoReference_cons.mp h
      rw [List.cons_append, pieces_char hfirst, ih hrest]
      rfl

theorem flatMap_value_char (env : Environment) (cs : List Char) :
    (cs.map Piece.char).flatMap (Piece.value env) = cs := by
  rw [List.flatMap_map]
  exact List.flatMap_singleton' cs

/-! ### The expansion -/

/-- One more character in front, with which no reference begins, is kept. -/
theorem Expands.cons (hc : ¬ BeginsReference (c :: cs)) (h : Expands env cs out) :
    Expands env (c :: cs) (c :: out) := by
  cases h with
  | kept h => exact .kept (holdsNoReference_cons.mpr ⟨by simpa using hc, h⟩)
  | replaced hr hbefore hvalue hrest =>
      rw [List.append_assoc] at hc
      exact .replaced hr (holdsNoReference_cons.mpr ⟨hc, hbefore⟩) hvalue hrest

/-- The pieces of a text with what stands for them are what it is expanded to. -/
theorem expands_pieces (env : Environment) (cs : List Char) :
    Expands env cs ((pieces cs).flatMap (Piece.value env)) := by
  fun_induction pieces cs with
  | case1 => exact .kept (HoldsNoReference.nil [])
  | case2 c rest r after h ih =>
      obtain ⟨hr, hcs⟩ := Reference.read?_eq_some_iff.mp h
      rw [hcs, List.flatMap_cons]
      exact .replaced hr (HoldsNoReference.nil _) (Reference.standsFor_iff.mpr rfl) ih
  | case3 c rest h ih =>
      refine Expands.cons ?_ ih
      rintro ⟨r, after, hr, hcs⟩
      rw [Reference.read?_eq_some_iff.mpr ⟨hr, hcs⟩] at h
      cases h

/-- There is nothing else that a text is expanded to. -/
theorem Expands.eq_pieces (h : Expands env cs out) :
    out = (pieces cs).flatMap (Piece.value env) := by
  induction h with
  | @kept cs h =>
      have hpieces := pieces_append h
      rw [List.append_nil] at hpieces
      rw [hpieces, List.flatMap_append, flatMap_value_char]
      simp [pieces]
  | replaced hr hbefore hvalue _ ih =>
      rw [List.append_assoc, List.append_assoc, pieces_append hbefore, pieces_reference hr,
        List.flatMap_append, List.flatMap_cons, flatMap_value_char, ← ih,
        Reference.standsFor_iff.mp hvalue]
      rfl

/-- A text is expanded in one pass from left to right: every reference that does not begin within an
earlier one is replaced by what it stands for, and every other character is kept in its place. -/
theorem expand_eq_iff (env : Environment) (text out : String) :
    expand env text = out ↔ Expands env text.toList out.toList := by
  constructor
  · rintro rfl
    rw [expand, String.toList_ofList]
    exact expands_pieces env text.toList
  · intro h
    rw [← String.toList_inj, expand, String.toList_ofList, ← h.eq_pieces]

/-- A value that looks like a reference is kept, and so is a reference without a proper name. -/
example : expand [("A", "$\x7bB\x7d")] "$\x7bA\x7d $\x7bC:-$\x7bA\x7d\x7d $\x7b1\x7d" =
    "$\x7bB\x7d $\x7bA\x7d $\x7b1\x7d" := by cbv

end BatchTransfer
