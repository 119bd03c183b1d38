import ShellSale.Pipeline.World

/-!
# Batch options
-/

namespace ShellSale

/-- What a batch does about a call that was not accepted. -/
inductive Policy where
  /-- It goes on and reports every outcome. -/
  | collectAll
  /-- It stops; its outcomes end with that call's. -/
  | abortOnFirstFailure
deriving DecidableEq

/-- How the calls of one signer are issued. -/
inductive Mode where
  /-- One call at a time, each waited for before the next is submitted. -/
  | sequential
  /-- All calls at once, their outcomes collected afterwards. -/
  | pipelined
deriving DecidableEq

/-- What all batches can be told. -/
structure Options where
  /-- The longest wait for any one call, in milliseconds. -/
  timeout : Nat := 60000
  /-- What pipelined batches wait for. Sequential batches always wait for finality. -/
  level : Level := .finalized
  policy : Policy := .collectAll
  /-- The signal to submit nothing more. -/
  abort : Option String := none
deriving DecidableEq

namespace Options

/-- Whether a batch ends with this outcome. -/
def stopsOn (o : Options) (outcome : Outcome) : Bool :=
  o.policy = .abortOnFirstFailure && !outcome.isAccepted

/-- What a batch of a mode waits for. -/
def levelOf (o : Options) : Mode → Level
  | .sequential => .finalized
  | .pipelined => o.level

end Options

/-- Whether batches with these options shall submit nothing more. -/
def World.aborted {σ κ : Type} (w : World σ κ) (o : Options) : Bool :=
  match o.abort with
  | none => false
  | some handle => w.aborts.isRaised w.now handle

end ShellSale
