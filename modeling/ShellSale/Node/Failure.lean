import ShellSale.Chain.Event

/-!
# Failures of the runtime

What the runtime says about a call that it reverted, besides the errors of its pallets.
-/

namespace ShellSale

/-- A failure that no pallet defines. -/
inductive RuntimeFailure where
  | other
  | cannotLookup
  | badOrigin
  | consumerRemaining
  | noProviders
  | tooManyConsumers
  | exhausted
  | corruption
  | unavailable
  | rootNotAllowed
  | fundsUnavailable
  | onlyProvider
  | belowMinimum
  | cannotCreate
  | unknownAsset
  | frozen
  | unsupported
  | cannotCreateHold
  | notExpendable
  | blocked
  | underflow
  | overflow
  | divisionByZero
  | limitReached
  | noLayer
deriving DecidableEq

namespace RuntimeFailure

/-- The failure in words. -/
def message : RuntimeFailure → String
  | other => "Some unknown error occurred."
  | cannotLookup => "Failed to lookup some data."
  | badOrigin => "Bad origin."
  | consumerRemaining =>
    "At least one consumer is remaining so the account cannot be destroyed."
  | noProviders => "There are no providers so the account cannot be created."
  | tooManyConsumers => "There are too many consumers so the account cannot be created."
  | exhausted =>
    "Resources exhausted, e.g. attempt to read/write data which is too large to manipulate."
  | corruption => "The state is corrupt; this is generally not going to fix itself."
  | unavailable =>
    "Some resource (e.g. a preimage) is unavailable right now. This might fix itself later."
  | rootNotAllowed => "Root origin is not allowed."
  | fundsUnavailable => "Token error: Funds are unavailable."
  | onlyProvider =>
    "Token error: Some part of the balance gives the only provider reference to the account " ++
      "and thus cannot be (re)moved."
  | belowMinimum => "Token error: Account cannot exist with the funds that would be given."
  | cannotCreate => "Token error: Account cannot be created."
  | unknownAsset => "Token error: The asset in question is unknown."
  | frozen => "Token error: Funds exist but are frozen."
  | unsupported => "Token error: Operation is not supported by the asset."
  | cannotCreateHold => "Token error: Account cannot be created for a held balance."
  | notExpendable => "Token error: Withdrawal would cause unwanted loss of account."
  | blocked => "Token error: Account cannot receive the assets."
  | underflow => "Arithmetic error: Underflow."
  | overflow => "Arithmetic error: Overflow."
  | divisionByZero => "Arithmetic error: Division by zero."
  | limitReached => "Transactional error: Too many transactional layers have been spawned."
  | noLayer => "Transactional error: A transactional layer was expected, but does not exist."

/-- The failures of the dispatch itself, by name. -/
def dispatch : List (String × RuntimeFailure) :=
  [("Other", other), ("CannotLookup", cannotLookup), ("BadOrigin", badOrigin),
    ("ConsumerRemaining", consumerRemaining), ("NoProviders", noProviders),
    ("TooManyConsumers", tooManyConsumers), ("Exhausted", exhausted), ("Corruption", corruption),
    ("Unavailable", unavailable), ("RootNotAllowed", rootNotAllowed)]

/-- The failures of tokens, by name. -/
def token : List (String × RuntimeFailure) :=
  [("FundsUnavailable", fundsUnavailable), ("OnlyProvider", onlyProvider),
    ("BelowMinimum", belowMinimum), ("CannotCreate", cannotCreate),
    ("UnknownAsset", unknownAsset), ("Frozen", frozen), ("Unsupported", unsupported),
    ("CannotCreateHold", cannotCreateHold), ("NotExpendable", notExpendable),
    ("Blocked", blocked)]

/-- The failures of arithmetic, by name. -/
def arithmetic : List (String × RuntimeFailure) :=
  [("Underflow", underflow), ("Overflow", overflow), ("DivisionByZero", divisionByZero)]

/-- The failures of transactions, by name. -/
def transactional : List (String × RuntimeFailure) :=
  [("LimitReached", limitReached), ("NoLayer", noLayer)]

/-- The failure with a name among some. -/
def named (failures : List (String × RuntimeFailure)) (name : String) : RuntimeFailure :=
  ((failures.find? fun f => f.1 == name).map (·.2)).getD other

end RuntimeFailure

end ShellSale
