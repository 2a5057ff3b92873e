import BatchTransfer.Duration
import BatchTransfer.Job.Error
import BatchTransfer.Job.State
import BatchTransfer.Retry
import BatchTransfer.Stream

/-!
# Jobs as machines

A job has two parties. The writer opens both connectors, writes batches and commits; the reader takes
batches from the stream of the source and puts them into a queue of bounded length between the two. A
job is a machine over the state of its connectors. The moves of either party, the arrival of a
cancellation and the passing of time are functions of their own, so that statements can be made about
any order of moves; `JobRun.next` is the order in which they are made. Time is counted in
milliseconds and jumps ahead when nobody can move.
-/

namespace BatchTransfer

/-- The connectors of a job, as calls on one state. Every call is given the time. -/
structure Wiring (σ : Type) where
  kind : Role → String
  openCall : Role → Nat → σ → Call σ Unit
  readCall : Nat → σ → Call σ Stream
  writeCall : Nat → Batch → σ → Call σ Acknowledgement
  commitCall : Nat → σ → Call σ CommitReceipt
  closeCall : Role → Nat → σ → Call σ Unit
  asksToCancel : σ → Bool

/-- How a job repeats calls, how many batches may wait between reader and writer, and how long calls
may take. -/
structure JobSettings where
  maxRetries : Nat
  retryDelay : Nat → Nat
  capacity : Nat
  openLimit : Duration
  writeLimit : Duration
  commitLimit : Duration

/-- A call that has been entered: what it does at its end, when it ends, and whether it is given up
then because its time is over. -/
structure PendingCall (σ α : Type) where
  finish : σ → σ × ConnectorResult α
  due : Nat
  givenUp : Bool

namespace PendingCall

variable {σ α : Type}

/-- The call as it is pending when it is entered at a time and may take as long as it takes. -/
def unlimited (time : Nat) (c : Call σ α) : PendingCall σ α := ⟨c.finish, time + c.delay, false⟩

/-- The call as it is pending when it is entered at a time and may take `limit` milliseconds. -/
def limited (time limit : Nat) (c : Call σ α) : PendingCall σ α :=
  ⟨c.finish, time + min c.delay limit, limit < c.delay⟩

/-- The end of the call; `what` says which call is given up. -/
def conclude (c : PendingCall σ α) (what : String) (limit : Duration) (s : σ) :
    σ × ConnectorResult α :=
  if c.givenUp then (s, .error ⟨.timeout, s!"{what} did not finish within {limit.display}"⟩)
  else c.finish s

end PendingCall

/-- What the writer is about to do or waits for. -/
inductive Control (σ : Type) where
  | begin
  | opening (role : Role) (budget : RetryBudget) (call : PendingCall σ Unit)
  | openBackoff (role : Role) (budget : RetryBudget) (due : Nat)
  | reading (call : PendingCall σ Stream)
  | receiving
  | writing (batch : Batch) (budget : RetryBudget) (call : PendingCall σ Acknowledgement)
  | writeBackoff (batch : Batch) (budget : RetryBudget) (due : Nat)
  | joining (outcome : JobResult Unit)
  | committing (call : PendingCall σ CommitReceipt)
  | closing (role : Role) (outcome : JobResult CommitReceipt) (call : PendingCall σ Unit)
  | ended (outcome : JobResult CommitReceipt)

/-- What the reader does: it waits for the next arrival, counted from the time at which it began to
wait, or for room in the queue, or it has ended, of itself or by breaking down. -/
inductive Reader where
  | absent
  | pulling (stream : Stream) (since : Nat)
  | sending (item : ConnectorResult Batch) (rest : Stream)
  | finished (brokeDown : Bool)

/-- Whether the reader has ended. -/
def Reader.isFinished : Reader → Bool
  | finished _ => true
  | _ => false

/-- The time at which the reader's next arrival is due. -/
def Reader.due? : Reader → Option Nat
  | pulling stream since => stream.next?.map fun (a, _) => since + a.delay
  | _ => none

/-- A job under way. -/
structure JobRun (σ : Type) where
  state : σ
  time : Nat
  cancelled : Bool
  cancelAt : Option Nat
  control : Control σ
  reader : Reader
  queue : List (ConnectorResult Batch)
  progress : JobProgress

namespace JobRun

variable {σ : Type}

/-- A job at its beginning. -/
def start (state : σ) (cancelled : Bool) (cancelAt : Option Nat) : JobRun σ :=
  { state, time := 0, cancelled, cancelAt, control := .begin, reader := .absent, queue := []
    progress := JobProgress.planned.enter .resolving }

variable (w : Wiring σ) (c : JobSettings)

/-- Begins to open a connector. -/
def beginOpen (role : Role) (budget : RetryBudget) (s : JobRun σ) : JobRun σ :=
  let call := w.openCall role s.time s.state
  { s with
    state := call.state
    control := .opening role budget (.limited s.time c.openLimit.millis call) }

/-- Begins to read the source. -/
def beginRead (s : JobRun σ) : JobRun σ :=
  let call := w.readCall s.time s.state
  { s with
    state := call.state
    control := .reading (.unlimited s.time call)
    progress := s.progress.enter .transferring }

/-- Begins to write a batch. -/
def beginWrite (batch : Batch) (budget : RetryBudget) (s : JobRun σ) : JobRun σ :=
  let call := w.writeCall s.time batch s.state
  { s with
    state := call.state
    control := .writing batch budget (.limited s.time c.writeLimit.millis call) }

/-- Begins to commit the sink. -/
def beginCommit (s : JobRun σ) : JobRun σ :=
  let call := w.commitCall s.time s.state
  { s with
    state := call.state
    control := .committing (.limited s.time c.commitLimit.millis call)
    progress := s.progress.enter .committing }

/-- Begins to close a connector, after which the job ends as it is known to end. -/
def beginClose (role : Role) (outcome : JobResult CommitReceipt) (s : JobRun σ) : JobRun σ :=
  let call := w.closeCall role s.time s.state
  { s with
    state := call.state
    control := .closing role outcome (.limited s.time c.openLimit.millis call) }

/-- What follows a failure to open: another attempt after a delay, or the end of the job. The
connectors that an attempt was made to open are closed. -/
def afterOpenFailure (role : Role) (budget : RetryBudget) (e : ConnectorError) (s : JobRun σ) :
    JobRun σ :=
  if e.isRetryableOnOpen && budget.spend.allows then
    { s with
      control := .openBackoff role budget.spend (s.time + c.retryDelay budget.spend.failures)
      progress := s.progress.countRetry }
  else beginClose w c role (.error (.connection role (w.kind role) e)) s

/-- What follows a failure to write: another attempt after a delay, or the end of the transfer. The
attempts that are reported are those of failures that could have been repeated, and at least one. -/
def afterWriteFailure (batch : Batch) (budget : RetryBudget) (e : ConnectorError) (s : JobRun σ) :
    JobRun σ :=
  let spent := if e.isRetryable then budget.spend else budget
  if e.isRetryable && spent.allows then
    { s with
      control := .writeBackoff batch spent (s.time + c.retryDelay spent.failures)
      progress := s.progress.countRetry }
  else { s with control := .joining (.error (.sinkWrite (w.kind .sink) spent.attempts e)) }

/-- Takes an item out of the queue. -/
def receive (item : ConnectorResult Batch) (rest : List (ConnectorResult Batch)) (s : JobRun σ) :
    JobRun σ :=
  match item with
  | .error e =>
      { s with queue := rest, control := .joining (.error (.sourceRead (w.kind .source) e)) }
  | .ok batch =>
      let s := { s with queue := rest, progress := s.progress.countRead batch.size batch.schema }
      if batch.isEmpty then s else beginWrite w c batch (.new c.maxRetries) s

/-- The end of the transfer once the reader has ended too. -/
def afterJoin (brokeDown : Bool) (outcome : JobResult Unit) (s : JobRun σ) : JobRun σ :=
  match outcome with
  | .error e => beginClose w c .sink (.error e) s
  | .ok () =>
      if brokeDown then
        beginClose w c .sink
          (.error (.sourceRead (w.kind .source) ⟨.internal, "reader task failed"⟩)) s
      else if s.cancelled then beginClose w c .sink (.error .cancelled) s
      else beginCommit w c s

/-- The outcome that the end of a commit is. -/
def commitOutcome : ConnectorResult CommitReceipt → JobResult CommitReceipt
  | .ok receipt => .ok receipt
  | .error e => .error (.sinkCommit (w.kind .sink) e)

/-- The move of the writer, where it can move. -/
def writerMove (s : JobRun σ) : Option (JobRun σ) :=
  match s.control with
  | .begin =>
      some (if s.cancelled then { s with control := .ended (.error .cancelled) }
        else beginOpen w c .source (.new c.maxRetries) s)
  | .opening role budget call =>
      if s.time < call.due then none
      else
        let (state, answer) := call.conclude "open" c.openLimit s.state
        let s := { s with state }
        match answer, role with
        | .ok (), .source => some (beginOpen w c .sink (.new c.maxRetries) s)
        | .ok (), .sink => some (beginRead w s)
        | .error e, role => some (afterOpenFailure w c role budget e s)
  | .openBackoff role budget due =>
      if s.cancelled then some (beginClose w c role (.error .cancelled) s)
      else if s.time < due then none
      else some (beginOpen w c role budget s)
  | .reading call =>
      if s.time < call.due then none
      else
        let (state, answer) := call.finish s.state
        let s := { s with state }
        match answer with
        | .ok stream => some { s with control := .receiving, reader := .pulling stream s.time }
        | .error e =>
            some (beginClose w c .sink (.error (.sourceRead (w.kind .source) e)) s)
  | .receiving =>
      if s.cancelled then some { s with control := .joining (.error .cancelled) }
      else
        match s.queue with
        | item :: rest => some (receive w c item rest s)
        | [] => if s.reader.isFinished then some { s with control := .joining (.ok ()) } else none
  | .writing batch budget call =>
      if s.time < call.due then none
      else
        let (state, answer) := call.conclude "batch write" c.writeLimit s.state
        let s := { s with state, cancelled := s.cancelled || w.asksToCancel state }
        match answer with
        | .ok ack => some { s with control := .receiving, progress := s.progress.countWritten ack }
        | .error e => some (afterWriteFailure w c batch budget e s)
  | .writeBackoff batch budget due =>
      if s.cancelled then some { s with control := .joining (.error .cancelled) }
      else if s.time < due then none
      else some (beginWrite w c batch budget s)
  | .joining outcome =>
      match s.reader with
      | .finished brokeDown => some (afterJoin w c brokeDown outcome s)
      | _ => none
  | .committing call =>
      if s.time < call.due then none
      else
        let (state, answer) := call.conclude "commit" c.commitLimit s.state
        some (beginClose w c .sink (commitOutcome w answer) { s with state })
  | .closing role outcome call =>
      if s.time < call.due then none
      else
        let (state, _) := call.conclude "close" c.openLimit s.state
        let s := { s with state }
        match role with
        | .sink => some (beginClose w c .source outcome s)
        | .source => some { s with control := .ended outcome }
  | .ended _ => none

/-- Whether the writer has left the queue, so that nothing can be put into it any more. -/
def hasLeft (s : JobRun σ) : Bool :=
  match s.control with
  | .joining _ => true
  | _ => false

/-- Whether the reader is to stop. -/
def stopsReader (s : JobRun σ) : Bool :=
  s.cancelled ||
    match s.control with
    | .joining (.error _) => true
    | _ => false

/-- The reader with the next arrival in its hands. -/
def afterArrival (rest : Stream) : StreamItem → Reader
  | .batch b => .sending (.ok b) rest
  | .failure e => .sending (.error e) rest
  | .breakdown => .finished true

/-- The reader after it has put an item into the queue. A failure is the last item. -/
def afterSending (rest : Stream) (time : Nat) : ConnectorResult Batch → Reader
  | .ok _ => .pulling rest time
  | .error _ => .finished false

/-- The move of the reader, where it can move. -/
def readerMove (s : JobRun σ) : Option (JobRun σ) :=
  match s.reader with
  | .absent => none
  | .finished _ => none
  | .pulling stream since =>
      if s.stopsReader then some { s with reader := .finished false }
      else
        match stream.next? with
        | none => some { s with reader := .finished false }
        | some (a, rest) =>
            if s.time < since + a.delay then none
            else some { s with reader := afterArrival rest a.item }
  | .sending item rest =>
      if s.stopsReader || s.hasLeft then some { s with reader := .finished false }
      else if s.queue.length < max c.capacity 1 then
        some { s with queue := s.queue ++ [item], reader := afterSending rest s.time item }
      else none

/-- The arrival of the cancellation that is set for a time. -/
def cancelMove (s : JobRun σ) : Option (JobRun σ) :=
  match s.cancelAt with
  | some time =>
      if s.time < time then none else some { s with cancelled := true, cancelAt := none }
  | none => none

/-- The time for which the writer waits. -/
def writerDue? (s : JobRun σ) : Option Nat :=
  match s.control with
  | .opening _ _ call => some call.due
  | .openBackoff _ _ due => some due
  | .reading call => some call.due
  | .writing _ _ call => some call.due
  | .writeBackoff _ _ due => some due
  | .committing call => some call.due
  | .closing _ _ call => some call.due
  | _ => none

/-- The passing of time up to the first moment for which anybody waits. -/
def clockMove (s : JobRun σ) : Option (JobRun σ) :=
  match ([s.writerDue?, s.reader.due?, s.cancelAt].filterMap id).filter (s.time < ·) with
  | [] => none
  | time :: times => some { s with time := times.foldl min time }

/-- Whether the job has ended. -/
def hasEnded (s : JobRun σ) : Bool :=
  match s.control with
  | .ended _ => true
  | _ => false

/-- The next move: the writer moves first, then a cancellation arrives, then the reader moves, and
when nobody can move time passes. -/
def next (s : JobRun σ) : Option (JobRun σ) :=
  if s.hasEnded then none
  else s.writerMove w c <|> s.cancelMove <|> s.readerMove c <|> s.clockMove

/-- The job after at most `n` moves. -/
def advance : Nat → JobRun σ → JobRun σ
  | 0, s => s
  | n + 1, s =>
      match s.next w c with
      | none => s
      | some s => advance n s

/-- The number of items that the reader has not put into the queue. -/
def unread (s : JobRun σ) : Nat :=
  match s.reader with
  | .pulling stream _ => stream.size
  | .sending _ rest => rest.size + 1
  | _ => 0

/-- A bound on the moves up to the reading of the source. -/
def openingMoves : Nat := 16 * (c.maxRetries + 2) + 64

/-- A bound on the moves from the reading of the source on. -/
def transferMoves (s : JobRun σ) : Nat :=
  (s.unread + s.queue.length + 2) * (4 * c.maxRetries + 32) + 64

/-- The job at its end. -/
def finish (s : JobRun σ) : JobRun σ :=
  let s := s.advance w c (openingMoves c)
  s.advance w c (s.transferMoves c)

/-- The outcome of a job that has ended. -/
def outcome? (s : JobRun σ) : Option (JobResult CommitReceipt) :=
  match s.control with
  | .ended outcome => some outcome
  | _ => none

end JobRun

end BatchTransfer
