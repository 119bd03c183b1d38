import ShellSale.Call.Basic

/-!
# The runtime's calls

Calls are checked against the runtime when they are signed. A runtime may lack whole pallets or
single calls of the sale.
-/

namespace ShellSale

/-- A name that the runtime does not know. -/
inductive MetadataError where
  | noPallet (name : String)
  | noCall (name : String)
  | noPalletIndex (index : Nat)
deriving DecidableEq

/-- The error in words. -/
def MetadataError.message : MetadataError → String
  | noPallet name => "Pallet with name " ++ name ++ " not found"
  | noCall name => "Call with name " ++ name ++ " not found"
  | noPalletIndex index => "Pallet with index " ++ toString index ++ " not found"

/-- What a runtime lacks: names of pallets, or of calls as `pallet.call`. -/
structure Runtime where
  lacking : List String := []

namespace Runtime

/-- Whether the runtime lacks a pallet. -/
def lacksPallet (r : Runtime) (pallet : String) : Bool :=
  r.lacking.contains pallet

/-- Why a call cannot be made on the runtime, if it cannot. -/
def refusal? (r : Runtime) (call : Call) : Option MetadataError :=
  if r.lacksPallet call.pallet then some (.noPallet call.pallet)
  else if r.lacking.contains (call.pallet ++ "." ++ call.name) then some (.noCall call.name)
  else none

end Runtime

end ShellSale
