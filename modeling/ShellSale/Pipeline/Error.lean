import ShellSale.Account.Address

/-!
# Hard errors

A call that is reverted, rejected or late is an outcome. What stands here keeps calls from being
made or their outcomes from being collected at all.
-/

namespace ShellSale

/-- An arithmetic operation whose result does not fit the width of its type; it ends the task that
tried it. -/
inductive Overflow where
  | addition
  | multiplication
deriving DecidableEq

/-- The overflow in words. -/
def Overflow.message : Overflow → String
  | .addition => "attempt to add with overflow"
  | .multiplication => "attempt to multiply with overflow"

/-- A hard error of the pipeline. -/
inductive PipelineError where
  /-- The nonce of the account could not be read. -/
  | chainUnavailable (account : AccountId) (cause : String)
  /-- Somebody issues the nonces of the account already. -/
  | alreadyOpen (account : AccountId)
  /-- The task that ran the account's batch was ended by an overflow. -/
  | signerTask (account : AccountId) (task : Nat) (overflow : Overflow)
deriving DecidableEq

namespace PipelineError

/-- How a task ended that did not come to its end. -/
def taskEnd (task : Nat) (overflow : Overflow) : String :=
  "task " ++ toString task ++ " panicked with message \"" ++ overflow.message ++ "\""

/-- The error in words. -/
def message : PipelineError → String
  | chainUnavailable account cause =>
    "Chain unavailable while querying nonce for " ++ account.address ++ ": " ++ cause
  | alreadyOpen account => "A submission tracker is already open for " ++ account.address
  | signerTask account task overflow =>
    "Batch task for " ++ account.address ++ " did not complete: " ++ taskEnd task overflow

/-- What caused the error, in words. -/
def cause? : PipelineError → Option String
  | chainUnavailable _ cause => some cause
  | alreadyOpen _ => none
  | signerTask _ task overflow => some (taskEnd task overflow)

end PipelineError

end ShellSale
