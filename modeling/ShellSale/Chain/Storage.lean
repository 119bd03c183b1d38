import ShellSale.Account.Id
import ShellSale.Call.Runtime

/-!
# The storage of a chain

Values by pallet and name; maps are listed as raw entries, whose keys end with the ids they are
about.
-/

namespace ShellSale

/-- An entry of a map in the storage. -/
structure StoredEntry where
  key : List UInt8
  value : Nat
deriving DecidableEq

/-- A failed request in words. -/
def requestFailed (message : String) : String :=
  "RPC error: " ++ message

/-- Why something cannot be read from the storage. -/
inductive StorageFault where
  /-- The latest block cannot be had. -/
  | noHead (message : String)
  /-- The runtime has no such pallet. -/
  | noPallet (name : String)
  /-- The request fails. -/
  | request (message : String)
  /-- The request fails while a map is listed. -/
  | listing (message : String)
deriving DecidableEq

namespace StorageFault

/-- What went wrong while something was tried, and what caused it. A listing that has begun, like a
block that is not there, says nothing about what was tried. -/
def parts (context : String) : StorageFault → List String
  | noHead message => [requestFailed message]
  | noPallet name =>
    let error := MetadataError.noPallet name
    [context, "Metadata error: " ++ error.message, error.message]
  | request message => [context, requestFailed message]
  | listing message => [requestFailed message]

end StorageFault

/-- What the phases read from the storage of a chain with states `σ`, at a moment. -/
structure Storage (σ : Type) where
  /-- The collection of the Origin of Shells, if there is one. -/
  collection : σ → (now : Nat) → Except StorageFault (Option Nat)
  /-- The current era. -/
  era : σ → (now : Nat) → Except StorageFault Nat
  /-- The shells that an account owns in a collection. -/
  owned : σ → (now : Nat) → AccountId → (collection : Nat) → Except StorageFault (List StoredEntry)
  /-- How often shells were fed in an era. -/
  food : σ → (now : Nat) → (era : Nat) → Except StorageFault (List StoredEntry)

end ShellSale
