/-!
# A small random number generator

Sixty-four bits of state are stirred by three shifts. Numbers and choices are taken from the state
after each step, so a seed determines everything that is drawn.
-/

namespace BatchTransfer.Synthetic

/-- The state of the generator. -/
structure Random where
  state : UInt64
  deriving DecidableEq, Repr, Inhabited

namespace Random

/-- The state that stands in for the seed zero, from which no step would lead away. -/
def defaultState : UInt64 := 0x853c49e6748fea9b

/-- The generator that a seed starts. -/
def ofSeed (seed : UInt64) : Random := ⟨if seed = 0 then defaultState else seed⟩

/-- The first shift of a step, to the left by 13. -/
def stirLeft (x : UInt64) : UInt64 := x ^^^ (x <<< 13)

/-- The second shift of a step, to the right by 7. -/
def stirRight (x : UInt64) : UInt64 := x ^^^ (x >>> 7)

/-- The third shift of a step, to the left by 17. -/
def stirFar (x : UInt64) : UInt64 := x ^^^ (x <<< 17)

/-- One step. -/
def next (r : Random) : Random := ⟨stirFar (stirRight (stirLeft r.state))⟩

/-- A number from `low` up to but not including `high`; `low` itself, without a step, where there
is none in between. -/
def between (r : Random) (low high : Nat) : Nat × Random :=
  if high ≤ low then (low, r)
  else (low + r.next.state.toNat % (high - low), r.next)

/-- One of the items. -/
def choose (r : Random) (items : List String) : String × Random :=
  let (place, r) := r.between 0 items.length
  (items.getD place "", r)

/-- A number that is drawn lies in its range. -/
theorem between_mem {r : Random} {low high : Nat} (h : low < high) :
    low ≤ (r.between low high).1 ∧ (r.between low high).1 < high := by
  have := Nat.mod_lt r.next.state.toNat (show 0 < high - low by omega)
  simp only [between, Nat.not_le.2 h, if_false]
  omega

end Random

end BatchTransfer.Synthetic
