import BatchTransfer.Config.Basic
import BatchTransfer.Config.Expansion
import BatchTransfer.Text.Blank
import BatchTransfer.Yaml.Reader

/-!
# Reading configurations

A configuration is a YAML document of sections. References to the environment are replaced before it
is read. A setting that is left out has its default value, a setting that is not known is passed
over, and a setting that is given twice is refused.
-/

namespace BatchTransfer

open BatchTransfer.Text BatchTransfer.Decimal BatchTransfer.Yaml

/-- The number that digits of a base spell. There is at least one digit. -/
def readInBase? (base : Nat) (cs : List Char) : Option Nat :=
  if cs.isEmpty then none
  else
    cs.foldlM (fun n c => do
      let d ← hexDigitValue? c
      if d < base then some (base * n + d) else none) 0

/-- Reads a whole number without a sign, or with a plus sign. Letters behind a zero name the base,
and a number of several decimal digits does not start with a zero. -/
def readNatural? (text : String) : Option Nat :=
  match (if text.toList.head? == some '+' then text.toList.drop 1 else text.toList) with
  | '0' :: 'x' :: cs => readInBase? 16 cs
  | '0' :: 'o' :: cs => readInBase? 8 cs
  | '0' :: 'b' :: cs => readInBase? 2 cs
  | '0' :: c :: cs => if (c :: cs).all isDigit then none else readInBase? 10 ('0' :: c :: cs)
  | cs => readInBase? 10 cs

/-- Reads a number, an infinity, or what is no number. -/
def readFraction? (text : String) : Option Float :=
  let cs := text.toList
  let unsigned := if cs.head? == some '+' then cs.drop 1 else cs
  if [".inf", ".Inf", ".INF"].contains (String.ofList unsigned) then some (1.0 / 0.0)
  else if ["-.inf", "-.Inf", "-.INF"].contains text then some (-1.0 / 0.0)
  else if [".nan", ".NaN", ".NAN"].contains text then some (0.0 / 0.0)
  else if cs.head? == some '+' && (unsigned.head? == some '+' || unsigned.head? == some '-') then
    none
  else readFloat? unsigned

namespace Config

/-- A whole number below a bound. -/
def natural? (bound : Nat) (node : Node) : Option Nat := do
  let n ← readNatural? (← node.plainText?)
  if n < bound then some n else none

/-- A number. -/
def fraction? (node : Node) : Option Float := do readFraction? (← node.plainText?)

/-- Whether a text stands for nothing. -/
def isNull (text : String) : Bool := ["", "null", "Null", "NULL", "~"].contains text

/-- The policy that a scalar names by its text, or by a tag before nothing. -/
def policy? : Node → Option UnknownOptionPolicy
  | .scalar none _ text => UnknownOptionPolicy.ofName? text
  | .scalar (some tag) .plain text =>
      if isNull text then UnknownOptionPolicy.ofName? tag else none
  | _ => none

/-- The entries of a section. Where nothing is written, the section is empty. Keys are scalars. -/
def entries? : Node → Option (List (String × Node))
  | .mapping entries => entries.mapM fun (key, value) => key.text?.map (·, value)
  | .scalar _ .plain "" => some []
  | _ => none

/-- The value of a setting: the one given, or the default where there is none. -/
def setting? {α : Type} (entries : List (String × Node)) (name : String) (read : Node → Option α)
    (default : α) : Option α :=
  match entries.filter (·.1 == name) with
  | [] => some default
  | [(_, node)] => read node
  | _ => none

/-- Reads the section on the running of jobs. -/
def executor? (node : Node) : Option ExecutorSettings := do
  let entries ← entries? node
  let standard : ExecutorSettings := {}
  some {
    capacity := ← setting? entries "channel_capacity" (natural? (Nat.pow 2 64)) standard.capacity
    openLimit := ← setting? entries "open_timeout_secs" (natural? (Nat.pow 2 64)) standard.openLimit
    writeLimit := ← setting? entries "write_timeout_secs" (natural? (Nat.pow 2 64)) standard.writeLimit
    commitLimit := ←
      setting? entries "commit_timeout_secs" (natural? (Nat.pow 2 64)) standard.commitLimit }

/-- Reads the section on the repetition of failed calls. -/
def retry? (node : Node) : Option RetrySettings := do
  let entries ← entries? node
  let standard : RetrySettings := {}
  some {
    maxRetries := ← setting? entries "max_retries" (natural? (Nat.pow 2 32)) standard.maxRetries
    initialDelay := ←
      setting? entries "initial_backoff_ms" (natural? (Nat.pow 2 64)) standard.initialDelay
    maxDelay := ← setting? entries "max_backoff_ms" (natural? (Nat.pow 2 64)) standard.maxDelay
    multiplier := ← setting? entries "backoff_multiplier" fraction? standard.multiplier
    jitter := ← setting? entries "jitter" fraction? standard.jitter }

/-- Reads the section on options. -/
def options? (node : Node) : Option UnknownOptionPolicy := do
  setting? (← entries? node) "unknown" policy? .reject

/-- Reads the sections of a document. -/
def ofNode? (node : Node) : Option Config := do
  let entries ← entries? node
  some {
    executor := ← setting? entries "executor" executor? {}
    retry := ← setting? entries "retry" retry? {}
    unknownOptions := ← setting? entries "options" options? .reject }

/-- Reads the one document of a text. A text of comments and blanks alone leaves all settings at
their defaults. -/
def ofText? (text : String) : Option Config :=
  match documents? text with
  | some [] => some {}
  | some [node] => ofNode? node
  | _ => none

/-- Reads a configuration whose references have been replaced, and checks its settings. -/
def check (text : String) : Except ConfigFault Config :=
  match if (trim text).isEmpty then some {} else ofText? text with
  | none => .error .malformed
  | some c =>
      match c.fault? with
      | some fault => .error fault
      | none => .ok c

/-- Reads a configuration in an environment. -/
def read (env : Environment) (text : String) : Except ConfigFault Config := check (expand env text)

end Config

end BatchTransfer
