import ShellSale.Chain.Event
import ShellSale.Text.LogLine

/-!
# The progress of a call

A connection to a node reports how a call fares that was submitted over it, and tells on request
whether the call succeeded in a final block. `Progress.watch` turns the reports into what a client
sees: status events, and lines for its log, up to the first report behind which nothing more can be
learnt. How the connection finds out about the success is not part of it: `Progress.watch` takes it
as a `SuccessCheck`, and `FinalBlock.check` is one.
-/

namespace ShellSale

/-- An error that a pallet defines, in raw form: the number of the pallet, then the error. -/
abbrev RawError := Vector UInt8 5

/-- The number of the pallet, which comes first. -/
def RawError.pallet (e : RawError) : UInt8 :=
  e[0]

/-- The error, as the pallet defines it, which comes behind. -/
def RawError.error (e : RawError) : ErrorBytes :=
  #v[e[1], e[2], e[3], e[4]]

/-- Why the runtime reverted a call, as a connection hands it out. -/
inductive DispatchError where
  | pallet (bytes : RawError)
  /-- Any other error, in words. -/
  | other (message : String)
deriving DecidableEq

/-- The failure that the error stands for. -/
def DispatchError.failure : DispatchError → DispatchFailure
  | .pallet bytes => .pallet bytes.pallet bytes.error
  | .other message => .other message

/-- An event that a call left in a block, as a connection hands it out. -/
inductive RuntimeEvent where
  | extrinsicFailed (error : DispatchError)
  /-- Any other event, by its pallet and its name. -/
  | named (pallet variant : String)
deriving DecidableEq

/-- What a client keeps of an event of a call that succeeded: its pallet and its name. -/
def RuntimeEvent.summary : RuntimeEvent → ChainEvent
  | .extrinsicFailed _ => .other "System" "ExtrinsicFailed"
  | .named pallet variant =>
    if pallet = "System" ∧ variant = "ExtrinsicSuccess" then .extrinsicSuccess
    else .other pallet variant

/-- A final block with a call. -/
structure FinalBlock where
  hash : BlockHash
  /-- The events that the call left, each decoded or with what keeps it from being decoded; or why
  they cannot be fetched. -/
  events : Except String (List (Except String RuntimeEvent))

/-- Why a connection does not confirm that a call succeeded. -/
inductive SuccessFault where
  /-- The runtime reverted the call. -/
  | runtime (error : DispatchError)
  /-- It cannot be told whether the call succeeded. -/
  | other (cause : String)
deriving DecidableEq

/-- How a connection tells whether a call succeeded in a final block: by its events if it did. -/
abbrev SuccessCheck := FinalBlock → Except SuccessFault (List (Except String RuntimeEvent))

/-- What an event says against the success of its call. -/
def SuccessFault.ofEvent? : Except String RuntimeEvent → Option SuccessFault
  | .error cause => some (.other cause)
  | .ok (.extrinsicFailed error) => some (.runtime error)
  | .ok (.named ..) => none

/-- The check that goes through the events up to the first one that speaks against a success. -/
def FinalBlock.check : SuccessCheck := fun b =>
  match b.events with
  | .error cause => .error (.other cause)
  | .ok events =>
    match events.findSome? SuccessFault.ofEvent? with
    | some fault => .error fault
    | none => .ok events

/-- What a connection reports about a call. -/
inductive Progress where
  | validated
  | broadcast (peers : Nat)
  | inBestBlock (block : BlockHash)
  | noLongerInBestBlock
  | inFinalizedBlock (block : FinalBlock)
  | invalid (message : String)
  | dropped (message : String)
  /-- The node met an error and reports no more. -/
  | error (message : String)
  /-- The reports cannot be received any more. -/
  | broken (cause : String)
  /-- The reports end. -/
  | ended

/-- What a client that watches a call sees: events, and lines for its log. -/
inductive WatchItem where
  | event (e : StatusEvent)
  | line (l : LogLine)
deriving DecidableEq

/-- The event that a client sees, if it is one. -/
def WatchItem.event? : WatchItem → Option StatusEvent
  | .event e => some e
  | .line _ => none

/-- What a client sees of a final block. If it cannot be told whether the call succeeded, the call
is known to be in the block, but not what became of it. -/
def FinalBlock.items (check : SuccessCheck) (b : FinalBlock) : List WatchItem :=
  match check b with
  | .ok events =>
    let decoded := events.filterMap fun e => e.toOption
    [.event (.finalized b.hash (decoded.map RuntimeEvent.summary))]
  | .error (.runtime error) => [.event (.finalized b.hash [.extrinsicFailed error.failure])]
  | .error (.other cause) =>
    [.line ⟨.error, "❌ Could not fetch events of block " ++ b.hash.hex ++ ": " ++ cause⟩,
      .event (.inBlock b.hash),
      .event (.lost ("finalized in " ++ b.hash.hex ++ " but its events could not be fetched: " ++
        cause))]

namespace Progress

/-- Whether a client stops watching at a report. -/
def isFinal : Progress → Bool
  | validated | broadcast _ | inBestBlock _ | noLongerInBestBlock => false
  | inFinalizedBlock _ | invalid _ | dropped _ | error _ | broken _ | ended => true

/-- What a client sees of a report. -/
def items (check : SuccessCheck) : Progress → List WatchItem
  | validated => [.line ⟨.debug, "📄 Transaction has been validated."⟩]
  | broadcast peers =>
    [.line ⟨.debug, "📡 Transaction broadcasted to " ++ toString peers ++ " peers."⟩]
  | inBestBlock block => [.event (.inBlock block)]
  | noLongerInBestBlock => [.event .retracted]
  | inFinalizedBlock block => block.items check
  | invalid message => [.event (.invalid message)]
  | dropped message => [.event (.dropped message)]
  | error message => [.event (.lost ("node stopped reporting: " ++ message))]
  | broken cause => [.event (.lost ("lost track of transaction: " ++ cause))]
  | ended => []

/-- What a client sees, each item with its moment, and when it stops watching, if it does. -/
def watch (check : SuccessCheck) :
    List (Nat × Progress) → List (Nat × WatchItem) × Option Nat
  | [] => ([], none)
  | (at_, report) :: rest =>
    let seen := (report.items check).map fun item => (at_, item)
    if report.isFinal then (seen, some at_)
    else
      let (later, stop) := watch check rest
      (seen ++ later, stop)

end Progress

/-- The feed of a call that a client watches: the events that it sees, and that it stops. -/
def Feed.ofItems (items : List (Nat × WatchItem)) (stop : Option Nat) : Feed :=
  (items.filterMap fun (at_, item) => item.event?.map fun e => (at_, .event e)) ++
    stop.toList.map fun at_ => (at_, .finished)

end ShellSale
