import ShellSale.Chain.Block

/-!
# What the chain reports about a call

A submitted call is followed by status events. The event of a finalized block carries the events
that the call left in it, among them its failure if it was reverted.
-/

namespace ShellSale

/-- The error of a pallet in raw form: its variant number, then three bytes of detail. -/
abbrev ErrorBytes := Vector UInt8 4

/-- The number of the error variant. -/
def ErrorBytes.variant (e : ErrorBytes) : UInt8 :=
  e.get 0

/-- Why the runtime reverted a call. -/
inductive DispatchFailure where
  /-- An error that a pallet defines, not yet decoded. -/
  | pallet (index : UInt8) (error : ErrorBytes)
  /-- Any other failure, in words. -/
  | other (message : String)
deriving DecidableEq

/-- An event that a finalized call left in its block. -/
inductive ChainEvent where
  | extrinsicSuccess
  | extrinsicFailed (failure : DispatchFailure)
  | other (pallet variant : String)
deriving DecidableEq

/-- A step in the life of a submitted call. -/
inductive StatusEvent where
  /-- The call is in a best block. -/
  | inBlock (block : BlockHash)
  /-- The best block with the call was abandoned. -/
  | retracted
  /-- The block with the call is final. -/
  | finalized (block : BlockHash) (events : List ChainEvent)
  /-- The node rejected the call. -/
  | invalid (message : String)
  /-- The node evicted the call before it was in a block. -/
  | dropped (message : String)
  /-- The node stopped reporting; the call may still land. -/
  | lost (message : String)
deriving DecidableEq

/-- What the feed of a call delivers: an event, or that nothing more will come. -/
inductive Report where
  | event (e : StatusEvent)
  | finished
deriving DecidableEq

/-- The reports still to come, each with the moment at which it is delivered, in order. -/
abbrev Feed := List (Nat × Report)

end ShellSale
