import BatchTransfer.Proofs.Synthetic.Rows

/-!
# States of the random number generator

A shift loses bits, but the exclusive or of a word and its shifted copy determines the word
(`Word.injective_xor`): where two words give the same, the shift leaves their difference as it is,
and it does so for zero only. So a step is injective, zero is reached from zero alone, and no seed
leads there, however many rows are made (`Random.never_dies`).
-/

namespace BatchTransfer.Synthetic

/-! ### Words and their shifts -/

namespace Word

/-- Only zero is the same after a shift: it is then the same after any number of such shifts, and
enough of them leave nothing of a word. -/
theorem eq_zero_of_shift_eq {w k : Nat} {shift : BitVec w → Nat → BitVec w} {x : BitVec w}
    (hadd : ∀ m n, shift x (m + n) = shift (shift x m) n) (hall : ∀ {n}, w ≤ n → shift x n = 0#w)
    (hpos : 0 < k) (h : shift x k = x) : x = 0#w := by
  have hagain : ∀ n, shift x (k * (n + 1)) = x := by
    intro n
    induction n with
    | zero => rw [Nat.zero_add, Nat.mul_one, h]
    | succ n ih => rw [Nat.mul_succ, hadd, ih, h]
  rw [← hagain w]
  exact hall ((Nat.le_succ w).trans (Nat.le_mul_of_pos_left _ hpos))

/-- Where a change of words goes through exclusive or and leaves only zero as it is, the exclusive or
of a word and its changed copy determines the word. -/
theorem injective_xor {f : UInt64 → UInt64} (hxor : ∀ x y, f (x ^^^ y) = f x ^^^ f y)
    (hzero : ∀ x, f x = x → x = 0) : Function.Injective fun x => x ^^^ f x := by
  intro x y h
  have hsame : x ^^^ f x = y ^^^ f y := h
  have hdifference : f (x ^^^ y) = x ^^^ y := by
    calc f (x ^^^ y) = f x ^^^ f y := hxor x y
      _ = x ^^^ (x ^^^ f x) ^^^ f y := by
          rw [← UInt64.xor_assoc, UInt64.xor_self, UInt64.zero_xor]
      _ = x ^^^ y := by
          rw [hsame, ← UInt64.xor_assoc, UInt64.xor_assoc, UInt64.xor_self, UInt64.xor_zero]
  exact UInt64.xor_eq_zero_iff.mp (hzero _ hdifference)

variable {k : UInt64}

theorem injective_xor_shiftLeft (h : 0 < (k % 64).toNat) :
    Function.Injective fun x : UInt64 => x ^^^ (x <<< k) := by
  refine injective_xor (fun _ _ => UInt64.shiftLeft_xor) fun x hx => ?_
  rw [← UInt64.toBitVec_inj] at hx ⊢
  exact eq_zero_of_shift_eq (BitVec.shiftLeft_add _) BitVec.shiftLeft_eq_zero h hx

theorem injective_xor_shiftRight (h : 0 < (k % 64).toNat) :
    Function.Injective fun x : UInt64 => x ^^^ (x >>> k) := by
  refine injective_xor (fun _ _ => UInt64.shiftRight_xor) fun x hx => ?_
  rw [← UInt64.toBitVec_inj] at hx ⊢
  exact eq_zero_of_shift_eq (BitVec.shiftRight_add _) BitVec.ushiftRight_eq_zero h hx

end Word

/-! ### Steps -/

namespace Random

open Word

/-- A step can be undone. -/
theorem next_injective : Function.Injective next := by
  have hleft : Function.Injective stirLeft := injective_xor_shiftLeft (by decide)
  have hright : Function.Injective stirRight := injective_xor_shiftRight (by decide)
  have hfar : Function.Injective stirFar := injective_xor_shiftLeft (by decide)
  intro r s h
  have hstate := hleft (hright (hfar (mk.inj h)))
  cases r
  cases s
  exact congrArg mk hstate

theorem next_zero : next ⟨0⟩ = ⟨0⟩ := rfl

/-- Only zero leads to zero. -/
theorem iterate_next_eq_zero {r : Random} {n : Nat} : next^[n] r = ⟨0⟩ ↔ r = ⟨0⟩ := by
  have hzero : next^[n] ⟨0⟩ = ⟨0⟩ := Function.iterate_fixed next_zero n
  constructor
  · intro h
    exact next_injective.iterate n (h.trans hzero.symm)
  · rintro rfl
    exact hzero

theorem ofSeed_ne_zero (seed : UInt64) : ofSeed seed ≠ ⟨0⟩ := by
  intro h
  have hstate : (if seed = 0 then defaultState else seed) = 0 := mk.inj h
  split at hstate
  · exact absurd hstate (by decide)
  · contradiction

/-- The number that a generator yields in a step. Steps are counted from zero. -/
def yielded (r : Random) (n : Nat) : UInt64 := (next^[n + 1] r).state

/-- Different generators never yield the same number in the same step. -/
theorem yielded_inj {r s : Random} {n : Nat} : r.yielded n = s.yielded n ↔ r = s :=
  ⟨fun h => next_injective.iterate (n + 1) (congrArg mk h), fun h => h ▸ rfl⟩

/-! ### Draws and rows -/

/-- The other generator is this one after some number of steps. -/
def LeadsTo (r s : Random) : Prop := ∃ n, next^[n] r = s

theorem LeadsTo.trans {r s t : Random} (h : r.LeadsTo s) (hnext : s.LeadsTo t) : r.LeadsTo t := by
  obtain ⟨m, rfl⟩ := h
  obtain ⟨n, rfl⟩ := hnext
  exact ⟨n + m, Function.iterate_add_apply next n m r⟩

theorem LeadsTo.eq_zero_iff {r s : Random} (h : r.LeadsTo s) : s = ⟨0⟩ ↔ r = ⟨0⟩ := by
  obtain ⟨n, rfl⟩ := h
  exact iterate_next_eq_zero

theorem leadsTo_between (r : Random) (low high : Nat) : r.LeadsTo (r.between low high).2 := by
  rw [between]
  split
  · exact ⟨0, rfl⟩
  · exact ⟨1, rfl⟩

theorem leadsTo_choose (r : Random) (items : List String) : r.LeadsTo (r.choose items).2 :=
  r.leadsTo_between 0 items.length

end Random

namespace Supply

/-- The generator is used for a row by its steps only. -/
theorem leadsTo_row (s : Supply) : s.random.LeadsTo s.row.2 := by
  obtain ⟨pattern, random, number, remaining⟩ := s
  cases pattern with
  | sequence => exact ⟨0, rfl⟩
  | users =>
      exact (Random.leadsTo_choose _ firstNames).trans <|
        (Random.leadsTo_choose _ lastNames).trans <| (Random.leadsTo_choose _ domains).trans <|
        (Random.leadsTo_between _ 18 80).trans <| Random.leadsTo_choose _ countries
  | orders =>
      exact (Random.leadsTo_between _ 1 10).trans <|
        (Random.leadsTo_between _ 199 19999).trans <|
        (Random.leadsTo_between _ 1 10000).trans <|
        (Random.leadsTo_choose _ products).trans <| Random.leadsTo_choose _ statuses

theorem leadsTo_afterRow (s : Supply) (n : Nat) : s.random.LeadsTo (afterRow^[n] s).random := by
  induction n with
  | zero => exact ⟨0, rfl⟩
  | succ n ih =>
      rw [Function.iterate_succ_apply']
      exact ih.trans (leadsTo_row _)

/-- From a generator that is zero, all further rows are made alike. -/
theorem row_afterRow_of_zero {s : Supply} (h : s.random = ⟨0⟩) (n : Nat) :
    (afterRow^[n] s).row = { s with number := s.number + n }.row := by
  have hrandom : (afterRow^[n] s).random = s.random :=
    ((s.leadsTo_afterRow n).eq_zero_iff.mpr h).trans h.symm
  rw [row, row, pattern_afterRow, number_afterRow, hrandom]

end Supply

/-- Whatever the seed, the state of a generator is not zero, however many steps are made or rows are
drawn. A step is injective, and different states never yield the same number in the same step. Zero
stays zero, and is reached from no other state; all further rows would be made from the same
numbers. -/
theorem Random.never_dies :
    (∀ seed n, (next^[n] (ofSeed seed)).state ≠ 0) ∧
    Function.Injective next ∧
    (∀ (r s : Random) (n : Nat), r.yielded n = s.yielded n ↔ r = s) ∧
    (∀ (r : Random) (n : Nat), next^[n] r = ⟨0⟩ ↔ r = ⟨0⟩) ∧
    (∀ pattern seed rows n,
      (Supply.afterRow^[n] (.new pattern seed rows)).random.state ≠ 0) ∧
    ∀ pattern number remaining n,
      (Supply.afterRow^[n] ⟨pattern, ⟨0⟩, number, remaining⟩).row =
        Supply.row ⟨pattern, ⟨0⟩, number + n, remaining⟩ := by
  have halive (seed : UInt64) {s : Random} (h : (ofSeed seed).LeadsTo s) : s.state ≠ 0 :=
    fun hzero => ofSeed_ne_zero seed (h.eq_zero_iff.mp (congrArg mk hzero))
  exact ⟨fun seed n => halive seed ⟨n, rfl⟩, next_injective, fun _ _ _ => yielded_inj,
    fun _ _ => iterate_next_eq_zero,
    fun pattern seed rows n => halive seed (Supply.leadsTo_afterRow (.new pattern seed rows) n),
    fun _ _ _ n => Supply.row_afterRow_of_zero rfl n⟩

/-- The seed zero after three steps, and two states that differ in one bit. -/
theorem Random.never_dies_zeroSeed :
    (next^[3] (ofSeed 0)).state ≠ 0 ∧ yielded ⟨4⟩ 9 ≠ yielded ⟨5⟩ 9 :=
  ⟨never_dies.1 0 3, fun h => absurd ((never_dies.2.2.1 ⟨4⟩ ⟨5⟩ 9).mp h) (by decide)⟩

end BatchTransfer.Synthetic
