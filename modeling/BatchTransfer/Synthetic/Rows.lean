import BatchTransfer.Batch.Basic
import BatchTransfer.Synthetic.Random

/-!
# Synthetic rows

Rows are made up by a pattern from a sequence number and from what the random number generator
yields. The k-th row depends on the seed and on k only, not on how the rows are cut into batches.
-/

namespace BatchTransfer.Synthetic

open BatchTransfer.Decimal

/-- The shape of the rows. -/
inductive Pattern where
  | sequence
  | users
  | orders
  deriving DecidableEq, Repr, Inhabited

namespace Pattern

/-- The name of a pattern. -/
def name : Pattern → String
  | sequence => "sequence"
  | users => "users"
  | orders => "orders"

/-- The patterns. -/
def all : List Pattern := [sequence, users, orders]

/-- The pattern of a name. -/
def ofName? (s : String) : Option Pattern := all.find? (·.name == s)

end Pattern

/-- Given names. -/
def firstNames : List String :=
  ["Alice", "Bob", "Carol", "David", "Eve", "Frank", "Grace", "Henry", "Ivy", "Jack", "Kate",
    "Leo", "Mia", "Noah", "Olivia", "Peter"]

/-- Family names. -/
def lastNames : List String :=
  ["Smith", "Johnson", "Williams", "Brown", "Jones", "Garcia", "Miller", "Davis", "Martinez",
    "Anderson", "Taylor", "Thomas", "Moore", "White"]

/-- Mail domains. -/
def domains : List String := ["example.com", "test.org", "demo.net", "mail.io", "acme.co"]

/-- Country codes. -/
def countries : List String := ["US", "UK", "DE", "FR", "JP", "AU", "CA", "BR", "IN", "MX"]

/-- Products. -/
def products : List String := ["widget", "gadget", "gizmo", "doohickey", "sprocket"]

/-- States of an order. -/
def statuses : List String := ["pending", "paid", "shipped", "delivered", "cancelled"]

/-- A name in lower case. -/
def lowerCase (s : String) : String := String.ofList (s.toList.map Char.toLower)

/-- The row that holds a sequence number only. -/
def sequenceRow (number : Nat) : Record := Record.ofFields [("id", .int number)]

/-- A person. -/
def userRow (number : Nat) (r : Random) : Record × Random :=
  let (first, r) := r.choose firstNames
  let (last, r) := r.choose lastNames
  let (domain, r) := r.choose domains
  let (age, r) := r.between 18 80
  let (country, r) := r.choose countries
  let email := s!"{lowerCase first}.{lowerCase last}@{domain}"
  (Record.ofFields
    [("id", .int number), ("first_name", .string first), ("last_name", .string last),
      ("email", .string email), ("age", .int age), ("country", .string country)], r)

/-- An order, with an amount of whole cents. -/
def orderRow (number : Nat) (r : Random) : Record × Random :=
  let (quantity, r) := r.between 1 10
  let (unitCents, r) := r.between 199 19999
  let (customer, r) := r.between 1 10000
  let (product, r) := r.choose products
  let (status, r) := r.choose statuses
  let order := String.ofList ("order_".toList ++ padded 8 number)
  let total := Float.ofNat (quantity * unitCents) / 100.0
  (Record.ofFields
    [("order_id", .string order), ("customer_id", .int customer), ("product", .string product),
      ("quantity", .int quantity), ("total", .float total), ("status", .string status)], r)

/-- A supply of rows: how many are left, and what the next one is made from. -/
structure Supply where
  pattern : Pattern
  random : Random
  number : Nat
  remaining : Nat
  deriving Inhabited

namespace Supply

/-- The supply of a number of rows. -/
def new (pattern : Pattern) (seed : UInt64) (rows : Nat) : Supply :=
  ⟨pattern, .ofSeed seed, 0, rows⟩

/-- The next row. -/
def row (s : Supply) : Record × Random :=
  match s.pattern with
  | .sequence => (sequenceRow s.number, s.random)
  | .users => userRow s.number s.random
  | .orders => orderRow s.number s.random

/-- The supply behind the next row. -/
def afterRow (s : Supply) : Supply :=
  { s with random := s.row.2, number := s.number + 1, remaining := s.remaining - 1 }

/-- The next `n` rows behind those already `made`, which are in reverse, and the supply that is
left. -/
def take (made : List Record) : Nat → Supply → List Record × Supply
  | 0, s => (made.reverse, s)
  | n + 1, s => take (s.row.1 :: made) n s.afterRow

/-- The next batch of at most `size` rows, where any row is left. -/
def nextBatch? (s : Supply) (size : Nat) : Option (Batch × Supply) :=
  if s.remaining = 0 then none
  else
    let (rows, rest) := take [] (min s.remaining size) s
    some (.ofRecords rows, rest)

theorem remaining_take (made : List Record) (n : Nat) (s : Supply) :
    (take made n s).2.remaining = s.remaining - n := by
  induction n generalizing made s with
  | zero => rfl
  | succ n ih =>
    rw [take, ih]
    simp only [afterRow]
    omega

/-- A batch takes its rows from the supply. -/
theorem remaining_of_nextBatch? {s rest : Supply} {size : Nat} {b : Batch}
    (h : s.nextBatch? size = some (b, rest)) :
    rest.remaining = s.remaining - size ∧ 0 < s.remaining := by
  unfold nextBatch? at h
  split at h
  · simp at h
  · have := remaining_take [] (min s.remaining size) s
    simp only [Option.some.injEq, Prod.mk.injEq] at h
    rw [← h.2, this]
    omega

end Supply

end BatchTransfer.Synthetic
