import ShellSale.Account.Name
import ShellSale.Chain.Progress
import ShellSale.Node.Failure

/-!
# Rules of a node

What a node in memory does with the calls it receives. A rule says what becomes of the calls that
it fits: which statuses the node sends and when, and what a final block tells about the call.
`Rule.reports` is what a connection to the node reports about such a call.
-/

namespace ShellSale

/-- A status that the node sends. Blocks are known by the number of their fork. -/
inductive NodeStatus where
  | ready
  | broadcast (peers : Nat)
  | future
  | retracted
  | inBlock (fork : UInt8)
  | finalized (fork : UInt8)
  | dropped
  | invalid
  | usurped
  | finalityTimeout
  | error (message : String)
  /-- The node says nothing more. -/
  | ended
deriving DecidableEq

/-- Whether a status says that the call is in a block. -/
def NodeStatus.mentionsBlock : NodeStatus → Bool
  | inBlock _ | finalized _ => true
  | _ => false

/-- What became of a call when it was executed. -/
inductive Execution where
  | success
  | palletError (index : UInt8) (error : ErrorBytes)
  | failure (f : RuntimeFailure)
deriving DecidableEq

/-- How the body of a final block can be had. -/
inductive BlockBody where
  | whole
  /-- It lacks the call. -/
  | withoutCall
  | failing
deriving DecidableEq

/-- How the events of a final block can be had. -/
inductive BlockEvents where
  | whole
  /-- There are none. -/
  | empty
  /-- The last one cannot be decoded. -/
  | garbled
  | failing
deriving DecidableEq

/-- What the node does with the calls that a rule fits. -/
structure Rule where
  /-- Whose calls the rule fits; everybody's if this is left out, and so on. -/
  sender : Option AccountName := none
  call : Option String := none
  nonce : Option Nat := none
  nth : Option Nat := none
  /-- Whether the call fires the abort signal on its arrival. -/
  abort : Bool := false
  /-- Why the node refuses the call, if it does. -/
  refuse : Option String := none
  /-- What the node sends, each with the milliseconds from the arrival to it. -/
  statuses : List (Nat × NodeStatus) := [(0, .ready), (0, .inBlock 0), (0, .finalized 0)]
  outcome : Execution := .success
  /-- Events of other pallets that the call leaves, as pallet and variant. -/
  extra : List (String × String) := []
  body : BlockBody := .whole
  events : BlockEvents := .whole
  /-- When the program that sent the call is interrupted, counted from the arrival. -/
  interrupts : List Nat := []

/-- What identifies a call that arrives: who sent it, its name, its nonce, and how many calls of
that name the account sent before. -/
structure Arrival where
  sender : Option AccountName
  call : String
  nonce : Nat
  nth : Nat

namespace Rule

/-- Whether a rule fits a call. -/
def fits (r : Rule) (a : Arrival) : Bool :=
  (r.sender.all fun name => a.sender = some name) && (r.call.all fun name => a.call == name) &&
    (r.nonce.all fun n => a.nonce == n) && (r.nth.all fun n => a.nth == n)

/-- Whether a call that the rule fits is in a block sooner or later. -/
def lands (r : Rule) : Bool :=
  r.statuses.any fun s => s.2.mentionsBlock

/-- The event that tells what became of the call. -/
def outcomeEvent (r : Rule) : RuntimeEvent :=
  match r.outcome with
  | .success => .named "System" "ExtrinsicSuccess"
  | .palletError index error =>
    .extrinsicFailed (.pallet (#v[index] ++ error))
  | .failure f => .extrinsicFailed (.other f.message)

/-- The events of the call in a final block, as far as they can be had. -/
def finalEvents (r : Rule) : Except String (List (Except String RuntimeEvent)) :=
  let left := r.extra.map (fun (p, v) => .ok (.named p v)) ++ [.ok r.outcomeEvent]
  match r.body, r.events with
  | .withoutCall, _ =>
    .error ("Transaction error: The block containing the transaction can no longer be found " ++
      "(perhaps it was on a non-finalized fork?)")
  | .failing, _ => .error "RPC error: block body unavailable"
  | .whole, .failing => .error "RPC error: events unavailable"
  | .whole, .empty => .ok []
  | .whole, .garbled => .ok (left ++ [.error "Metadata error: Pallet with index 250 not found"])
  | .whole, .whole => .ok left

/-- What a connection reports when the node sends a status, if it reports anything. -/
def report? (r : Rule) (block : UInt8 → BlockHash) : NodeStatus → Option Progress
  | .ready => some .validated
  | .broadcast peers => some (.broadcast peers)
  | .future | .retracted => none
  | .inBlock fork => some (.inBestBlock (block fork))
  | .finalized fork => some (.inFinalizedBlock ⟨block fork, r.finalEvents⟩)
  | .dropped => some (.dropped "Transaction was dropped")
  | .invalid => some (.invalid "Transaction is invalid (eg because of a bad nonce, signature etc)")
  | .usurped => some (.invalid "Transaction was usurped by another with the same nonce")
  | .finalityTimeout => some (.invalid "Finality timeout")
  | .error message => some (.broken ("RPC error: " ++ message))
  | .ended => some .ended

/-- What a connection reports about a call that arrives now, each report with its moment. -/
def reports (r : Rule) (block : UInt8 → BlockHash) (now : Nat) : List (Nat × Progress) :=
  r.statuses.filterMap fun (after, status) =>
    (r.report? block status).map fun report => (now + after, report)

end Rule

end ShellSale
