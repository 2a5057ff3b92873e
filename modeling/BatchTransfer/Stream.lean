import BatchTransfer.Synthetic.Rows

/-!
# Streams of batches

A source is read as a stream: batches that arrive one after the other, each after a delay, with
failures among them. A stream is listed in full or made up as it is read; `Stream.arrivals` is the
list that it stands for in either case.
-/

namespace BatchTransfer

/-- What a stream yields. A breakdown ends the reader without an error of its own. -/
inductive StreamItem where
  | batch (batch : Batch)
  | failure (error : ConnectorError)
  | breakdown
  deriving Inhabited

/-- The item that the outcome of a connector's work is. -/
def StreamItem.ofResult : ConnectorResult Batch → StreamItem
  | .ok b => .batch b
  | .error e => .failure e

/-- An item and the milliseconds that it takes to arrive. -/
structure Arrival where
  delay : Nat
  item : StreamItem
  deriving Inhabited

/-- The arrival of an item without delay. -/
def Arrival.atOnce (item : StreamItem) : Arrival := ⟨0, item⟩

/-- A stream of batches. -/
inductive Stream where
  | listed (arrivals : List Arrival)
  | synthetic (supply : Synthetic.Supply) (batchSize : Nat) (projection : Projection)
  deriving Inhabited

namespace Stream

/-- The stream without items. -/
def empty : Stream := .listed []

/-- The stream of items that arrive at once. -/
def ofItems (items : List StreamItem) : Stream := .listed (items.map .atOnce)

/-- The stream of batches that arrive at once. -/
def ofBatches (batches : List Batch) : Stream := ofItems (batches.map .batch)

/-- The first arrival and the stream behind it. -/
def next? : Stream → Option (Arrival × Stream)
  | listed [] => none
  | listed (a :: rest) => some (a, .listed rest)
  | synthetic supply batchSize projection =>
      match supply.nextBatch? (max batchSize 1) with
      | none => none
      | some (b, rest) =>
          some (.atOnce (.ofResult (b.project projection)), .synthetic rest batchSize projection)

/-- A number that falls with every arrival: of a list, how many are left, and of synthetic rows,
how many rows. -/
def size : Stream → Nat
  | listed arrivals => arrivals.length
  | synthetic supply _ _ => supply.remaining

theorem size_of_next? {s rest : Stream} {a : Arrival} (h : s.next? = some (a, rest)) :
    rest.size < s.size := by
  unfold next? at h
  split at h
  · simp at h
  · simp only [Option.some.injEq, Prod.mk.injEq] at h
    simp [← h.2, size]
  · split at h
    · simp at h
    · rename_i supply batchSize projection _ b supply' hb
      have := Synthetic.Supply.remaining_of_nextBatch? hb
      simp only [Option.some.injEq, Prod.mk.injEq] at h
      rw [← h.2]
      simp only [size]
      omega

/-- The arrivals of a stream behind those already `read`, which are in reverse. -/
def arrivalsOnto (read : List Arrival) (s : Stream) : List Arrival :=
  match _h : s.next? with
  | none => read.reverse
  | some (a, rest) => arrivalsOnto (a :: read) rest
termination_by s.size
decreasing_by exact size_of_next? (by assumption)

/-- All arrivals of a stream. -/
def arrivals (s : Stream) : List Arrival := s.arrivalsOnto []

theorem arrivalsOnto_eq_append (read : List Arrival) (s : Stream) :
    s.arrivalsOnto read = read.reverse ++ s.arrivals := by
  have key (first : List Arrival) :
      s.arrivalsOnto (first ++ read) = read.reverse ++ s.arrivalsOnto first := by
    fun_induction arrivalsOnto first s with
    | case1 first s h =>
        rw [arrivalsOnto]
        split <;> simp_all
    | case2 first s a rest h ih =>
        rw [arrivalsOnto]
        split <;> simp_all
  simpa [arrivals] using key []

/-- A stream at its end has no arrivals. -/
theorem arrivals_of_next?_eq_none {s : Stream} (h : s.next? = none) : s.arrivals = [] := by
  rw [arrivals, arrivalsOnto]
  split
  · rfl
  · simp_all

/-- The arrivals of a stream are its first one and those behind it. -/
theorem arrivals_of_next? {s rest : Stream} {a : Arrival} (h : s.next? = some (a, rest)) :
    s.arrivals = a :: rest.arrivals := by
  rw [arrivals, arrivalsOnto]
  split
  · simp_all
  · simp_all [arrivalsOnto_eq_append [a]]

end Stream

end BatchTransfer
