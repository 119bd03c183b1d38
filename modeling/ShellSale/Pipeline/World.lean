import ShellSale.Nonce.Registry
import ShellSale.Pipeline.Abort
import ShellSale.Pipeline.Notice

/-!
# The world of the pipeline

The pipeline reaches the chain through a `Client`: it reads nonces and hands over signed calls. On
taking a call the client gives the feed of reports that will come for it, each with its moment, so
the behaviour of a node is a value and time passes only where somebody waits. The `World` holds
what all trackers share: the clock, the node, the registry of open signers, the abort signals and
the log.
-/

namespace ShellSale

/-- What a client gives on taking a call: the reports that will come, and the abort handles that
the call will fire. -/
structure Handover where
  feed : Feed := []
  firings : List (Nat × String) := []

/-- A connection to a chain whose node has states `σ` and takes calls `κ`. -/
structure Client (σ κ : Type) where
  /-- The next nonce that the chain expects of an account, or why it cannot be read. -/
  nonce : σ → (now : Nat) → AccountId → Except String Nat × σ
  /-- Signs a call with a nonce and hands it over. This never fails: a rejection is a report. -/
  handOver : σ → (now : Nat) → AccountId → (nonce : Nat) → κ → Handover × σ
  /-- The errors that the runtime's pallets define. -/
  errors : ErrorTable

/-- A call that was handed over. -/
structure Sent (κ : Type) where
  account : AccountId
  nonce : Nat
  call : κ

/-- What the log of the world records. -/
inductive Entry (κ : Type) where
  | notice (n : Notice)
  | line (l : LogLine)
  | sent (s : Sent κ)

/-- What all trackers share. -/
structure World (σ κ : Type) where
  now : Nat := 0
  node : σ
  registry : Registry := {}
  aborts : AbortBoard := {}
  /-- How many tasks have been started. -/
  tasks : Nat := 0
  /-- What happened, each with its moment, oldest first. -/
  log : List (Nat × Entry κ) := []

namespace World

variable {σ κ : Type}

/-- Adds an entry to the log at the present moment. -/
def record (w : World σ κ) (e : Entry κ) : World σ κ :=
  { w with log := w.log ++ [(w.now, e)] }

/-- Adds a notice to the log. -/
def notify (w : World σ κ) (n : Notice) : World σ κ :=
  w.record (.notice n)

/-- Adds notices with moments of their own to the log. -/
def notifyAt (w : World σ κ) (ns : List (Nat × Notice)) : World σ κ :=
  { w with log := w.log ++ ns.map fun (at_, n) => (at_, .notice n) }

/-- The calls handed over so far, oldest first. -/
def sent (w : World σ κ) : List (Sent κ) :=
  w.log.filterMap fun
    | (_, .sent s) => some s
    | _ => none

end World

end ShellSale
