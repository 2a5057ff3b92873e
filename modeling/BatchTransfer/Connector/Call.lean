import BatchTransfer.Connector.Error

/-!
# Calls of connectors

A call of a connector takes effect in two steps, when it is entered and when it ends, with a delay
between them. A call that is given up in between has taken the first step only.
-/

namespace BatchTransfer

/-- A call that has been entered: the state that it has left so far, the milliseconds that it still
takes, and what it does to the state, and answers, at its end. -/
structure Call (σ α : Type) where
  state : σ
  delay : Nat
  finish : σ → σ × ConnectorResult α

namespace Call

variable {σ τ α : Type}

/-- The call that ends at once. -/
def now (state : σ) (answer : ConnectorResult α) : Call σ α :=
  ⟨state, 0, fun s => (s, answer)⟩

/-- The call that waits and then ends with an answer that is known. -/
def after (delay : Nat) (state : σ) (answer : ConnectorResult α) : Call σ α :=
  ⟨state, delay, fun s => (s, answer)⟩

/-- The call on a part of a larger state. -/
def inside (c : Call σ α) (part : τ → σ) (update : σ → τ → τ) (whole : τ) : Call τ α where
  state := update c.state whole
  delay := c.delay
  finish t :=
    let (s, answer) := c.finish (part t)
    (update s t, answer)

/-- The whole of a call that is not given up. -/
def complete (c : Call σ α) : σ × ConnectorResult α := c.finish c.state

end Call

/-- How written rows become visible: with every write, or all at once on commit. -/
inductive SinkMode where
  | direct
  | staging
  deriving DecidableEq, Repr, Inhabited

/-- The name of a mode. -/
def SinkMode.name : SinkMode → String
  | direct => "direct"
  | staging => "staging"

/-- What a sink acknowledges for a batch. -/
structure Acknowledgement where
  rows : Nat
  bytes : Nat
  deriving DecidableEq, Repr, Inhabited

/-- The acknowledgement of a batch that a sink leaves out. -/
def Acknowledgement.none : Acknowledgement := ⟨0, 0⟩

/-- What a sink answers to a commit: how many rows it made visible, and where. -/
structure CommitReceipt where
  rows : Nat
  location : Option String
  deriving DecidableEq, Repr, Inhabited

end BatchTransfer
