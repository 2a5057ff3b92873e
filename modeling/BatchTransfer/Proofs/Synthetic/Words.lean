import BatchTransfer.Proofs.Synthetic.Rows

/-!
# Synthetic rows in words

Rows once more, as they are made with words of 64 bits: a sum, difference, product or remainder
fails where it is no word, a choice fails where it is outside its list, and every number that is
drawn is noted with its range. `Generator.exists_yields` says that nothing fails: a generator in words yields
the chunks of the rows of the supply that it stands for, and draws only within ranges.
-/

namespace BatchTransfer.Synthetic

open BatchTransfer.Decimal

/-! ### Arithmetic of words -/

namespace Word

/-- The sum of two words, if it is a word. -/
def add? (x y : UInt64) : Option UInt64 :=
  if x.toNat + y.toNat < UInt64.size then some (x + y) else none

/-- The difference of two words, if it is a word. -/
def sub? (x y : UInt64) : Option UInt64 := if y ≤ x then some (x - y) else none

/-- The product of two words, if it is a word. -/
def mul? (x y : UInt64) : Option UInt64 :=
  if x.toNat * y.toNat < UInt64.size then some (x * y) else none

/-- The remainder of a division, if the divisor is not zero. -/
def rem? (x y : UInt64) : Option UInt64 := if y = 0 then none else some (x % y)

variable {m n : Nat}

theorem add?_ofNat (h : m + n < UInt64.size) :
    add? (.ofNat m) (.ofNat n) = some (.ofNat (m + n)) := by
  rw [add?, UInt64.toNat_ofNat_of_lt' (by omega), UInt64.toNat_ofNat_of_lt' (by omega), if_pos h,
    UInt64.ofNat_add]

theorem ofNat_le_ofNat_iff (hm : m < UInt64.size) (hn : n < UInt64.size) :
    UInt64.ofNat m ≤ .ofNat n ↔ m ≤ n := by
  rw [UInt64.le_iff_toNat_le, UInt64.toNat_ofNat_of_lt' hm, UInt64.toNat_ofNat_of_lt' hn]

theorem min_ofNat (hm : m < UInt64.size) (hn : n < UInt64.size) :
    min (UInt64.ofNat m) (.ofNat n) = .ofNat (min m n) := by
  change (if UInt64.ofNat m ≤ .ofNat n then UInt64.ofNat m else .ofNat n) = _
  simp only [ofNat_le_ofNat_iff hm hn, Nat.min_def, apply_ite UInt64.ofNat]

theorem sub?_ofNat (h : n ≤ m) (hm : m < UInt64.size) :
    sub? (.ofNat m) (.ofNat n) = some (.ofNat (m - n)) := by
  rw [sub?, if_pos ((ofNat_le_ofNat_iff (by omega) hm).mpr h), UInt64.ofNat_sub h]

theorem mul?_ofNat (hm : m < UInt64.size) (hn : n < UInt64.size) (h : m * n < UInt64.size) :
    mul? (.ofNat m) (.ofNat n) = some (.ofNat (m * n)) := by
  rw [mul?, UInt64.toNat_ofNat_of_lt' hm, UInt64.toNat_ofNat_of_lt' hn, if_pos h, UInt64.ofNat_mul]

theorem ofNat_eq_zero_iff (hn : n < UInt64.size) : UInt64.ofNat n = 0 ↔ n = 0 := by
  rw [← UInt64.toNat_inj, UInt64.toNat_ofNat_of_lt' hn, UInt64.toNat_zero]

theorem rem?_ofNat (x : UInt64) (hpos : n ≠ 0) (hn : n < UInt64.size) :
    rem? x (.ofNat n) = some (.ofNat (x.toNat % n)) := by
  rw [rem?, if_neg (mt (ofNat_eq_zero_iff hn).mp hpos), UInt64.ofNat_mod x.toNat_lt hn,
    UInt64.ofNat_toNat]

end Word

open Word

/-! ### Draws -/

/-- A number that was drawn, with the range that was asked for. -/
structure Draw where
  low : UInt64
  high : UInt64
  number : UInt64

/-- Whether the number is at or above the lower bound and below the upper. -/
def Draw.IsInRange (d : Draw) : Prop := d.low ≤ d.number ∧ d.number < d.high

/-- Steps that draw numbers, keep a list of all draws, and may fail. -/
abbrev Drawing := StateT (Random × List Draw) Option

namespace Drawing

/-- Draws a number from `low` up to but not including `high`. -/
def between (low high : UInt64) : Drawing UInt64 := fun (r, drawn) =>
  if high ≤ low then some (low, r, drawn ++ [⟨low, high, low⟩])
  else do
    let span ← sub? high low
    let offset ← rem? r.next.state span
    let number ← add? low offset
    return (number, r.next, drawn ++ [⟨low, high, number⟩])

/-- Draws the place of an item. -/
def choose (items : List String) : Drawing String := do
  let place ← between 0 (.ofNat items.length)
  liftM items[place.toNat]?

/-- A person. -/
def userRow (number : UInt64) : Drawing Record := do
  let first ← choose firstNames
  let last ← choose lastNames
  let domain ← choose domains
  let age ← between 18 80
  let country ← choose countries
  let email := s!"{lowerCase first}.{lowerCase last}@{domain}"
  return Record.ofFields
    [("id", .int number.toNat), ("first_name", .string first), ("last_name", .string last),
      ("email", .string email), ("age", .int age.toNat), ("country", .string country)]

/-- An order, with an amount of whole cents. -/
def orderRow (number : UInt64) : Drawing Record := do
  let quantity ← between 1 10
  let unitCents ← between 199 19999
  let customer ← between 1 10000
  let product ← choose products
  let cents ← liftM (mul? quantity unitCents)
  let status ← choose statuses
  let order := String.ofList ("order_".toList ++ padded 8 number.toNat)
  let total := Float.ofNat cents.toNat / 100.0
  return Record.ofFields
    [("order_id", .string order), ("customer_id", .int customer.toNat),
      ("product", .string product), ("quantity", .int quantity.toNat), ("total", .float total),
      ("status", .string status)]

end Drawing

/-- What the next rows are made from, in words. -/
structure Generator where
  pattern : Pattern
  number : UInt64
  remaining : UInt64

namespace Generator

/-- The row of a number. -/
def rowOf (pattern : Pattern) (number : UInt64) : Drawing Record :=
  match pattern with
  | .sequence => return Record.ofFields [("id", .int number.toNat)]
  | .users => Drawing.userRow number
  | .orders => Drawing.orderRow number

/-- The next row. -/
def row (g : Generator) : Drawing (Record × Generator) := do
  let next ← liftM (add? g.number 1)
  let made ← rowOf g.pattern g.number
  return (made, { g with number := next })

/-- The next `n` rows. -/
def rows : Nat → Generator → Drawing (List Record × Generator)
  | 0, g => return ([], g)
  | n + 1, g => do
      let (made, g) ← g.row
      let (rest, g) ← rows n g
      return (made :: rest, g)

/-- The next batch of at most `size` rows, where any row is left. -/
def nextBatch? (g : Generator) (size : UInt64) : Drawing (Option (Batch × Generator)) :=
  if g.remaining = 0 then return none
  else do
    let n := min g.remaining size
    let remaining ← liftM (sub? g.remaining n)
    let (made, g) ← rows n.toNat { g with remaining }
    return some (.ofRecords made, g)

/-- The batches that a generator yields until no row is left, and all draws by then. -/
inductive Yields (size : UInt64) :
    Generator → Random × List Draw → List Batch → List Draw → Prop where
  | done {g s r drawn} : g.nextBatch? size s = some (none, r, drawn) → Yields size g s [] drawn
  | more {g s b g' s' batches drawn} :
      g.nextBatch? size s = some (some (b, g'), s') → Yields size g' s' batches drawn →
      Yields size g s (b :: batches) drawn

end Generator

/-! ### Nothing fails -/

/-- Steps that do not fail, with their result and the state that they leave. All that they draw is
within its range. -/
def Drawing.Goes {α : Type} (d : Drawing α) (r : Random) (a : α) (left : Random) : Prop :=
  ∀ drawn, ∃ more, d (r, drawn) = some (a, left, drawn ++ more) ∧ ∀ x ∈ more, x.IsInRange

namespace Drawing

variable {α β : Type} {r r' r'' : Random} {low high : Nat}

theorem Goes.pure (a : α) (r : Random) : Goes (pure a) r a r :=
  fun drawn => ⟨[], by rw [List.append_nil]; rfl, by simp⟩

theorem Goes.bind {d : Drawing α} {next : α → Drawing β} {a : α} {b : β} (hd : d.Goes r a r')
    (hnext : (next a).Goes r' b r'') : (d >>= next).Goes r b r'' := by
  intro drawn
  obtain ⟨first, hfirst, hranges⟩ := hd drawn
  obtain ⟨second, hsecond, hranges'⟩ := hnext (drawn ++ first)
  refine ⟨first ++ second, ?_, ?_⟩
  · rw [← List.append_assoc, ← hsecond]
    change (d (r, drawn)).bind (fun p => next p.1 p.2) = _
    rw [hfirst]
    rfl
  · rintro x hx
    exact (List.mem_append.mp hx).elim (hranges x) (hranges' x)

theorem Goes.lift {o : Option α} {a : α} (h : o = some a) (r : Random) :
    Goes (liftM o) r a r := by
  subst h
  exact Goes.pure a r

theorem between_lt (h : low < high) (hhigh : high < UInt64.size) :
    (r.between low high).1 < UInt64.size :=
  (Random.between_mem h).2.trans hhigh

theorem toNat_between (h : low < high) (hhigh : high < UInt64.size) :
    (UInt64.ofNat (r.between low high).1).toNat = (r.between low high).1 :=
  UInt64.toNat_ofNat_of_lt' (between_lt h hhigh)

/-- The number that is drawn is that of the generator, in a word. -/
theorem goes_between (h : low < high) (hhigh : high < UInt64.size) (r : Random) :
    (between (.ofNat low) (.ofNat high)).Goes r (.ofNat (r.between low high).1)
      (r.between low high).2 := by
  intro drawn
  have hnumber : r.between low high = (low + r.next.state.toNat % (high - low), r.next) := by
    rw [Random.between, if_neg (by omega)]
  obtain ⟨hlow, hless⟩ := Random.between_mem (r := r) h
  have hspan : r.next.state.toNat % (high - low) < high - low := Nat.mod_lt _ (by omega)
  have hword : r.next.state.toNat % (high - low) < high - low := Nat.mod_lt _ (by omega)
  refine ⟨[⟨.ofNat low, .ofNat high, .ofNat (r.between low high).1⟩], ?_, ?_⟩
  · have hbelow : ¬ UInt64.ofNat high ≤ .ofNat low := by
      rw [ofNat_le_ofNat_iff hhigh (by omega)]
      omega
    have hspan := sub?_ofNat h.le hhigh
    have hoffset := rem?_ofNat (n := high - low) r.next.state (by omega) (by omega)
    have hsum := add?_ofNat (m := low) (n := r.next.state.toNat % (high - low)) (by omega)
    simp only [between, if_neg hbelow, hspan, hoffset, hsum, hnumber, Option.bind_eq_bind,
      Option.bind_some]
    rfl
  · intro x hx
    obtain rfl := List.mem_singleton.mp hx
    rw [Draw.IsInRange, ofNat_le_ofNat_iff (by omega) (by omega), ← UInt64.not_le,
      ofNat_le_ofNat_iff hhigh (by omega)]
    omega

theorem goes_choose {items : List String} (hne : items ≠ []) (hlength : items.length < UInt64.size)
    (r : Random) : (choose items).Goes r (r.choose items).1 (r.choose items).2 := by
  have hpos := List.length_pos_iff.mpr hne
  have hplace := (Random.between_mem (r := r) hpos).2
  have hitem : (r.choose items).1 = items.getD (r.between 0 items.length).1 "" := rfl
  refine (goes_between hpos hlength r).bind (Goes.lift ?_ _)
  rw [toNat_between hpos hlength, hitem, List.getD_eq_getElem?_getD,
    List.getElem?_eq_getElem hplace, Option.getD_some]

theorem goes_userRow {number : Nat} (h : number < UInt64.size) (r : Random) :
    (userRow (.ofNat number)).Goes r (Synthetic.userRow number r).1
      (Synthetic.userRow number r).2 := by
  refine (goes_choose (by decide) (by decide) _).bind <|
    (goes_choose (by decide) (by decide) _).bind <|
    (goes_choose (by decide) (by decide) _).bind <|
    (goes_between (by decide) (by decide) _).bind <|
    (goes_choose (by decide) (by decide) _).bind ?_
  rw [UInt64.toNat_ofNat_of_lt' h, toNat_between (by decide) (by decide)]
  exact Goes.pure _ _

theorem goes_orderRow {number : Nat} (h : number < UInt64.size) (r : Random) :
    (orderRow (.ofNat number)).Goes r (Synthetic.orderRow number r).1
      (Synthetic.orderRow number r).2 := by
  have hquantity := (Random.between_mem (r := r) (show 1 < 10 by decide)).2
  have hunit := (Random.between_mem (r := (r.between 1 10).2) (show 199 < 19999 by decide)).2
  have hcents : (r.between 1 10).1 * ((r.between 1 10).2.between 199 19999).1 < UInt64.size :=
    (Nat.mul_lt_mul'' hquantity hunit).trans (by decide)
  refine (goes_between (by decide) (by decide) _).bind <|
    (goes_between (by decide) (by decide) _).bind <|
    (goes_between (by decide) (by decide) _).bind <|
    (goes_choose (by decide) (by decide) _).bind <|
    (Goes.lift (mul?_ofNat (between_lt (by decide) (by decide))
      (between_lt (by decide) (by decide)) hcents) _).bind <|
    (goes_choose (by decide) (by decide) _).bind ?_
  rw [UInt64.toNat_ofNat_of_lt' h, UInt64.toNat_ofNat_of_lt' hcents,
    toNat_between (by decide) (by decide), toNat_between (by decide) (by decide)]
  exact Goes.pure _ _

end Drawing

namespace Generator

open Supply

variable {s : Supply} {size : Nat}

/-- What is made from a supply, with another number of rows left. -/
def ofSupply (s : Supply) (remaining : UInt64) : Generator :=
  ⟨s.pattern, .ofNat s.number, remaining⟩

theorem goes_row (h : s.number + 1 < UInt64.size) (remaining : UInt64) :
    (ofSupply s remaining).row.Goes s.random (s.row.1, ofSupply s.afterRow remaining) s.row.2 := by
  obtain ⟨pattern, random, number, left⟩ := s
  have hnumber : number < UInt64.size := Nat.lt_of_succ_lt h
  have hrow : (rowOf pattern (.ofNat number)).Goes random
      (Supply.row ⟨pattern, random, number, left⟩).1
      (Supply.row ⟨pattern, random, number, left⟩).2 := by
    cases pattern with
    | sequence =>
        rw [rowOf, UInt64.toNat_ofNat_of_lt' hnumber]
        exact .pure _ random
    | users => exact Drawing.goes_userRow hnumber random
    | orders => exact Drawing.goes_orderRow hnumber random
  exact (Drawing.Goes.lift (add?_ofNat h) _).bind (hrow.bind (.pure _ _))

theorem goes_rows {n : Nat} (h : s.number + n < UInt64.size) (remaining : UInt64) :
    (rows n (ofSupply s remaining)).Goes s.random
      (s.nextRows n, ofSupply (afterRow^[n] s) remaining) (afterRow^[n] s).random := by
  induction n generalizing s with
  | zero => exact .pure _ _
  | succ n ih =>
      have hrest : s.afterRow.number + n < UInt64.size := by
        change s.number + 1 + n < UInt64.size
        omega
      rw [nextRows_succ, Function.iterate_succ_apply]
      exact (goes_row (by omega) remaining).bind ((ih hrest).bind (.pure _ _))

/-- A batch in words is that of the supply. -/
theorem goes_nextBatch? (hne : s.remaining ≠ 0) (h : s.number + s.remaining < UInt64.size)
    (hsize : size < UInt64.size) :
    (nextBatch? (ofSupply s (.ofNat s.remaining)) (.ofNat size)).Goes s.random
      (some (.ofRecords (s.records.take size), ofSupply (afterRow^[min s.remaining size] s)
        (.ofNat (s.remaining - min s.remaining size))))
      (afterRow^[min s.remaining size] s).random := by
  have hzero : ¬ (ofSupply s (.ofNat s.remaining)).remaining = 0 :=
    mt (ofNat_eq_zero_iff (by omega)).mp hne
  have hleft := sub?_ofNat (m := s.remaining) (n := min s.remaining size) (by omega) (by omega)
  have hrows := goes_rows (s := s) (n := min s.remaining size) (by omega)
    (.ofNat (s.remaining - min s.remaining size))
  rw [nextBatch?, if_neg hzero, take_records]
  dsimp only [ofSupply]
  rw [min_ofNat (by omega) hsize, UInt64.toNat_ofNat_of_lt' (by omega)]
  exact (Drawing.Goes.lift hleft _).bind (hrows.bind (.pure _ _))

/-- A generator in words yields the chunks of the rows of its supply. No step fails on the way, and
all numbers are drawn within their ranges. -/
theorem exists_yields (s : Supply) (h : s.number + s.remaining < UInt64.size) (hpos : 1 ≤ size)
    (hsize : size < UInt64.size) (drawn : List Draw) :
    ∃ more, Yields (.ofNat size) (ofSupply s (.ofNat s.remaining)) (s.random, drawn)
      ((Batch.ofRecords s.records).chunks size) (drawn ++ more) ∧ ∀ x ∈ more, x.IsInRange := by
  induction hn : s.remaining using Nat.strong_induction_on generalizing s drawn with
  | _ n ih =>
      subst hn
      by_cases hzero : s.remaining = 0
      · have hnil : s.records = [] := List.eq_nil_of_length_eq_zero (by simp [hzero])
        refine ⟨[], ?_, by simp⟩
        rw [hnil, Batch.chunks_eq_nil rfl, List.append_nil, hzero]
        exact .done rfl
      · have hmax : max size 1 = size := by omega
        have hne : s.records ≠ [] := List.ne_nil_of_length_pos (by simp; omega)
        obtain ⟨first, hfirst, hranges⟩ := goes_nextBatch? hzero h hsize drawn
        obtain ⟨more, hmore, hranges'⟩ := ih (s.remaining - min s.remaining size) (by omega)
          (afterRow^[min s.remaining size] s) (by simp; omega) (drawn ++ first) (by simp)
        rw [← drop_records] at hmore
        refine ⟨first ++ more, ?_, ?_⟩
        · rw [Batch.chunks_ofRecords hne (fun _ => shape_of_mem_records), hmax,
            ← List.append_assoc]
          exact .more hfirst hmore
        · exact fun x hx => (List.mem_append.mp hx).elim (hranges x) (hranges' x)

end Generator

end BatchTransfer.Synthetic
