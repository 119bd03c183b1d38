import ShellSale.Chain.Event

/-!
# Status and outcome of a submission

A submission has a status that events change; whoever waits for it gets an outcome. `Status.resolve`
says which outcome a status yields at a level. Main statements: a terminal status yields the same
outcome at both levels (`Status.resolve_of_isTerminal`), and only a terminal status yields anything
but an acceptance (`Status.isTerminal_of_resolve`).
-/

namespace ShellSale

/-- How sure a caller wants to be. -/
inductive Level where
  /-- The call is in a best block. -/
  | inBlock
  /-- The block with the call is final. -/
  | finalized
deriving DecidableEq

/-- An error of a pallet, decoded. -/
structure PalletError where
  /-- The pallet's name, its first letter in lower case. -/
  pallet : String
  /-- The name of the error. -/
  variant : String
  /-- What the pallet says about the error. -/
  description : String
deriving DecidableEq

/-- Why an executed call was reverted. -/
inductive FailureReason where
  | pallet (error : PalletError)
  | dispatch (message : String)
deriving DecidableEq

/-- The reason in words; an empty description is left out. -/
def FailureReason.text : FailureReason → String
  | .pallet e =>
    let name := e.pallet ++ "." ++ e.variant
    if e.description.isEmpty then name else name ++ ": " ++ e.description
  | .dispatch message => message

/-- Where a submission stands. -/
inductive Status where
  | pending
  | inBlock (block : BlockHash)
  | finalized (block : BlockHash) (failure : Option FailureReason)
  | invalid (message : String)
  | dropped (message : String)
deriving DecidableEq

/-- What a caller learns from waiting. -/
inductive Outcome where
  | accepted (block : BlockHash)
  | failed (reason : FailureReason)
  | invalid (message : String)
  | dropped (message : String)
  /-- The caller stopped waiting; the call may still land. -/
  | timedOut
deriving DecidableEq

namespace Outcome

/-- Whether the call was accepted. -/
def isAccepted : Outcome → Bool
  | .accepted _ => true
  | _ => false

/-- The block of an accepted call. -/
def block? : Outcome → Option BlockHash
  | .accepted block => some block
  | _ => none

/-- The outcome in words. -/
def text : Outcome → String
  | .accepted block => "accepted in block " ++ block.hex
  | .failed reason => "failed: " ++ reason.text
  | .invalid message => "invalid: " ++ message
  | .dropped message => "dropped: " ++ message
  | .timedOut => "timed out"

end Outcome

namespace Status

/-- Terminal statuses never change. -/
def isTerminal : Status → Bool
  | .pending | .inBlock _ => false
  | .finalized .. | .invalid _ | .dropped _ => true

/-- The outcome that a status yields to a caller who waits at a level, if it yields one yet. -/
def resolve : Status → Level → Option Outcome
  | .pending, _ => none
  | .inBlock block, .inBlock => some (.accepted block)
  | .inBlock _, .finalized => none
  | .finalized _ (some reason), _ => some (.failed reason)
  | .finalized block none, _ => some (.accepted block)
  | .invalid message, _ => some (.invalid message)
  | .dropped message, _ => some (.dropped message)

/-- A terminal status yields the same outcome at every level. -/
theorem resolve_of_isTerminal {s : Status} (h : s.isTerminal) (l l' : Level) :
    ∃ o, s.resolve l = some o ∧ s.resolve l' = some o := by
  cases s with
  | pending => cases h
  | inBlock => cases h
  | finalized b f => cases f <;> exact ⟨_, rfl, rfl⟩
  | invalid m => exact ⟨_, rfl, rfl⟩
  | dropped m => exact ⟨_, rfl, rfl⟩

/-- At the finalized level only terminal statuses yield an outcome. -/
theorem isTerminal_of_resolve {s : Status} {o : Outcome} (h : s.resolve .finalized = some o) :
    s.isTerminal := by
  cases s <;> simp_all [resolve, isTerminal]

/-- No status yields a timeout. -/
theorem resolve_ne_timedOut (s : Status) (l : Level) : s.resolve l ≠ some .timedOut := by
  cases s with
  | finalized b f => cases f <;> simp [resolve]
  | inBlock b => cases l <;> simp [resolve]
  | pending => simp [resolve]
  | invalid m => simp [resolve]
  | dropped m => simp [resolve]

end Status

end ShellSale
