import ShellSale.Account.Map
import ShellSale.Pipeline.World

/-!
# A scripted chain

Calls that bring along what will become of them: a script of acts, each with its moment after the
hand-over. The chain itself holds the nonces that it reports, and may be unavailable.
-/

namespace ShellSale

/-- One act of a script. -/
inductive Act where
  | report (r : Report)
  /-- Fires an abort handle. -/
  | abort (handle : String)
deriving DecidableEq

/-- A call with its script. -/
structure ScriptedCall where
  label : String
  /-- The acts in order, each with the milliseconds from the hand-over to it. -/
  script : List (Nat × Act) := []

/-- A chain that follows scripts. -/
structure Stage where
  nonces : AccountMap Nat := []
  /-- Why no nonce can be read at present. -/
  unavailable : Option String := none
  /-- The errors that its pallets define. -/
  errors : List (UInt8 × UInt8 × PalletError) := []

namespace ScriptedCall

/-- What comes for a call handed over at a moment. -/
def handover (c : ScriptedCall) (now : Nat) : Handover where
  feed := c.script.filterMap fun
    | (after, .report r) => some (now + after, r)
    | _ => none
  firings := c.script.filterMap fun
    | (after, .abort handle) => some (now + after, handle)
    | _ => none

end ScriptedCall

namespace Stage

/-- The nonce that the chain reports; accounts that it does not know have none used. -/
def nonce (s : Stage) (a : AccountId) : Except String Nat :=
  match s.unavailable with
  | some message => .error ("Other error: " ++ message)
  | none => .ok ((s.nonces.get? a).getD 0)

/-- Decodes an error by the first entry for it. -/
def table (errors : List (UInt8 × UInt8 × PalletError)) : ErrorTable := fun pallet e =>
  (errors.find? fun entry => entry.1 = pallet ∧ entry.2.1 = e.variant).map (·.2.2)

/-- The connection to a scripted chain with these errors. -/
def client (errors : List (UInt8 × UInt8 × PalletError)) : Client Stage ScriptedCall where
  nonce s _ a := (s.nonce a, s)
  handOver s now _ _ call := (call.handover now, s)
  errors := table errors

end Stage

end ShellSale
