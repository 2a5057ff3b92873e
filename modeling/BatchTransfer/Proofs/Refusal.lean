/-!
# Outcomes that may be refusals

A mapped outcome is a refusal where the outcome is one, and a chain of two where either is. A fold
that may fail goes through a list up to the first part that it refuses.
-/

namespace BatchTransfer

theorem isOk_eq_true_iff {ε α : Type} {result : Except ε α} :
    result.isOk = true ↔ ∃ a, result = .ok a := by
  cases result with
  | error e => exact ⟨nofun, nofun⟩
  | ok a => exact ⟨fun _ => ⟨a, rfl⟩, fun _ => rfl⟩

/-- What has been mapped has been there. -/
theorem exists_of_map_eq_ok {ε α β : Type} {f : α → β} {result : Except ε α} {b : β}
    (h : result.map f = .ok b) : ∃ a, result = .ok a ∧ f a = b := by
  cases result with
  | error e => cases h
  | ok a =>
      cases h
      exact ⟨a, rfl, rfl⟩

theorem eq_error_of_map_eq_error {ε α β : Type} {f : α → β} {result : Except ε α} {e : ε}
    (h : result.map f = .error e) : result = .error e := by
  cases result with
  | error e' =>
      cases h
      rfl
  | ok a => cases h

/-- A chain fails in its first part or in what follows. -/
theorem exists_of_bind_eq_error {ε α β : Type} {f : α → Except ε β} {result : Except ε α} {e : ε}
    (h : result.bind f = .error e) :
    result = .error e ∨ ∃ a, result = .ok a ∧ f a = .error e := by
  cases result with
  | error e' =>
      cases h
      exact .inl rfl
  | ok a => exact .inr ⟨a, rfl, h⟩

/-- A fold fails at a part of the list that it refuses, in the state behind a beginning of the list
that it passes. -/
theorem foldlM_eq_error_iff {α σ ε : Type} {f : σ → α → Except ε σ} {state : σ} {l : List α} {e : ε} :
    l.foldlM f state = .error e ↔ ∃ before x after passed, l = before ++ x :: after ∧
      before.foldlM f state = .ok passed ∧ f passed x = .error e := by
  constructor
  · intro h
    induction l generalizing state with
    | nil => cases h
    | cons first rest ih =>
        rw [List.foldlM_cons] at h
        cases hfirst : f state first with
        | error e' =>
            rw [hfirst] at h
            cases h
            exact ⟨[], first, rest, state, rfl, rfl, hfirst⟩
        | ok next =>
            rw [hfirst] at h
            obtain ⟨before, x, after, passed, rfl, hpassed, hrefused⟩ := ih h
            refine ⟨first :: before, x, after, passed, rfl, ?_, hrefused⟩
            rw [List.foldlM_cons, hfirst]
            exact hpassed
  · rintro ⟨before, x, after, passed, rfl, hpassed, hrefused⟩
    rw [List.foldlM_append, hpassed]
    change (x :: after).foldlM f passed = .error e
    rw [List.foldlM_cons, hrefused]
    rfl

end BatchTransfer
