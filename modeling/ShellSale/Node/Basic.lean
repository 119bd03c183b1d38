import ShellSale.Account.Keyring
import ShellSale.Chain.Storage
import ShellSale.Node.Pallets
import ShellSale.Node.Rule
import ShellSale.Pipeline.World

/-!
# A node in memory

A node that takes the calls of the sale, knows what its rules tell about them, and reports nonces.
The nonce of an account counts its calls that land as soon as they arrive.
-/

namespace ShellSale

/-- A call that is in a block sooner or later. -/
structure Landing where
  /-- When the call arrived. -/
  time : Nat
  account : AccountId
  nonce : Nat
deriving DecidableEq

/-- A node in memory. -/
structure Node where
  /-- The accounts that its settings and rules name. -/
  keyring : Keyring
  /-- The nonces of accounts before the first call. -/
  nonces : List (AccountName × Nat) := []
  rules : List Rule := []
  /-- Queries for the nonce of an account that fail, by their number among all of that account. -/
  openErrors : List (AccountName × Nat × String) := []
  /-- What of its storage cannot be read, and why; `head` is the latest block. -/
  failures : List (String × String) := []
  runtime : Runtime := {}
  /-- Pallets besides the standard ones. -/
  pallets : List Pallet := []
  /-- The collection of the Origin of Shells. -/
  collection : Option Nat := none
  era : Nat := 0
  /-- The shells that accounts own: account, collection and number. -/
  owned : List (AccountName × Nat × Nat) := []
  /-- How often shells were fed: era, collection, number and count. -/
  food : List (Nat × Nat × Nat × Nat) := []
  /-- The abort handle that rules fire. -/
  abortHandle : String := "abort"
  /-- The abort handle that interrupts of the program fire. -/
  interruptHandle : String := "interrupt"
  /-- The accounts whose nonces were asked for, the latest first. -/
  queries : List AccountId := []
  /-- The calls that arrived, by account and name, the latest first. -/
  arrivals : List (AccountId × String) := []
  /-- The calls that land, the latest first. -/
  landings : List Landing := []
  /-- The moments at which the program is interrupted. -/
  interrupts : List Nat := []

/-- What a client that watches a call will see. -/
structure Watched where
  items : List (Nat × WatchItem) := []
  /-- When the node stops reporting, if it does. -/
  stop : Option Nat := none
  /-- The abort handles that the call will fire. -/
  firings : List (Nat × String) := []

namespace Watched

/-- A call that the node never took. -/
def refused (now : Nat) (account : AccountId) (nonce : Nat) (call : Call) (cause : String) :
    Watched where
  items := [
    (now, .line ⟨.error, "❌ Node refused " ++ call.pallet ++ "." ++ call.name ++ " from " ++
      account.address ++ " with nonce " ++ toString nonce ++ ": " ++ cause⟩),
    (now, .event (.invalid cause))]
  stop := some now

/-- The feed of the call. -/
def feed (w : Watched) : Feed :=
  .ofItems w.items w.stop

/-- What a client sees that stops listening when no event has come for a while, and whether the node
has stopped reporting by then. -/
def heardFrom (patience : Nat) (stop : Option Nat) :
    Nat → List (Nat × WatchItem) → List WatchItem × Bool
  | since, [] => ([], stop.any fun at_ => at_ ≤ since + patience)
  | since, (at_, item) :: rest =>
    if since + patience < at_ then ([], false)
    else
      let since := match item with
        | .event _ => at_
        | .line _ => since
      let (items, ended) := heardFrom patience stop since rest
      (item :: items, ended)

/-- What a client hears from a moment on. -/
def heard (w : Watched) (now patience : Nat) : List WatchItem × Bool :=
  heardFrom patience w.stop now w.items

end Watched

namespace Node

/-- Why the latest block cannot be had, if it cannot. -/
def headFailure? (n : Node) : Option String :=
  (n.failures.find? fun f => f.1 == "head").map (·.2)

/-- The nonce of an account after the calls that have arrived by a moment. -/
def nonceAt (n : Node) (time : Nat) (a : AccountId) : Option Nat :=
  match n.landings.find? fun l => l.account = a ∧ l.time ≤ time with
  | some l => some (l.nonce + 1)
  | none => do
    let name ← n.keyring.name? a
    let entry ← n.nonces.find? fun e => e.1 = name
    return entry.2

/-- The nonces of all accounts that were set or have a call that landed. -/
def knownNonces (n : Node) (time : Nat) : List (AccountName × Nat) :=
  AccountName.all.filterMap fun name =>
    (n.nonceAt time (n.keyring.account name)).map fun nonce => (name, nonce)

/-- Answers a query for a nonce. -/
def queryNonce (n : Node) (now : Nat) (a : AccountId) : Except String Nat × Node :=
  match n.headFailure? with
  | some message => (.error (requestFailed message), n)
  | none =>
    let place := n.queries.count a
    let after := { n with queries := a :: n.queries }
    match n.openErrors.find? fun e => n.keyring.account e.1 = a ∧ e.2.1 = place with
    | some (_, _, message) => (.error (requestFailed message), after)
    | none => (.ok ((n.nonceAt now a).getD 0), after)

/-- Why a call never gets to the node, if it does not. -/
def obstacle? (n : Node) (call : Call) : Option String :=
  match n.headFailure? with
  | some message => some (requestFailed message)
  | none => (n.runtime.refusal? call).map fun e => "Metadata error: " ++ e.message

/-- The hash of the block of a call in a fork: the account, the fork and the next nonce. -/
def blockOf (n : Node) (a : AccountId) (nonce : Nat) (fork : UInt8) : BlockHash :=
  let account := ((n.keyring.name? a).map (·.index)).getD 255
  ⟨#v[UInt8.ofNat account, fork] ++ Vector.replicate 22 (0 : UInt8) ++
    Bytes.bigEndianVector 8 (nonce + 1)⟩

/-- The rule for a call. -/
def ruleFor (n : Node) (a : Arrival) : Rule :=
  (n.rules.find? fun r => r.fits a).getD {}

/-- Takes a call. -/
def take (n : Node) (now : Nat) (a : AccountId) (nonce : Nat) (call : Call) : Watched × Node :=
  match n.obstacle? call with
  | some cause => (.refused now a nonce call cause, n)
  | none =>
    let rule := n.ruleFor
      { sender := n.keyring.name? a, call := call.name, nonce,
        nth := n.arrivals.count (a, call.name) }
    let interrupts := rule.interrupts.map (now + ·)
    let n := { n with
      arrivals := (a, call.name) :: n.arrivals
      interrupts := n.interrupts ++ interrupts }
    let firings :=
      (if rule.abort then [(now, n.abortHandle)] else []) ++
        interrupts.map fun at_ => (at_, n.interruptHandle)
    match rule.refuse with
    | some message =>
      ({ Watched.refused now a nonce call (requestFailed message) with firings }, n)
    | none =>
      let (items, stop) := Progress.watch FinalBlock.check (rule.reports (n.blockOf a nonce) now)
      let landings := if rule.lands then [⟨now, a, nonce⟩] else []
      ({ items, stop, firings }, { n with landings := landings ++ n.landings })

/-- The errors that the pallets of the node's runtime define. -/
def errors (n : Node) : ErrorTable :=
  Pallet.table ((Pallet.standard ++ n.pallets).filter fun p => !n.runtime.lacksPallet p.name)

/-- The connection to a node like this one. -/
def client (n : Node) : Client Node Call where
  nonce := queryNonce
  handOver n now a nonce call :=
    let (watched, n) := n.take now a nonce call
    ({ feed := watched.feed, firings := watched.firings }, n)
  errors := n.errors

end Node

end ShellSale
