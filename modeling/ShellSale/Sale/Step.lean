import ShellSale.Account.Keyring
import ShellSale.Batch.Across
import ShellSale.Sale.ChainState
import ShellSale.Sale.Grouping

/-!
# Steps of the sale

A phase of the sale is made of steps. In an administrative step one account makes calls that all
have to be accepted. In a step of the users every account makes its own calls, concurrently with
the others, and what becomes of them is only told to the log.
-/

namespace ShellSale

/-- Why a phase ends before its end. -/
inductive PhaseError where
  /-- Calls could not be made, or their outcomes not be collected. -/
  | pipeline (e : PipelineError)
  /-- A call of an administrative step was not accepted. -/
  | notAccepted (step : String) (place expected : Nat) (outcome : Outcome)
  /-- An administrative step submitted only some of its calls. -/
  | aborted (step : String) (done expected : Nat)
  | chainState (e : ChainStateError)
  /-- Neither the plan nor the chain knows the collection of the Origin of Shells. -/
  | noCollection
deriving DecidableEq

namespace PhaseError

/-- What went wrong, and what caused it. -/
def parts : PhaseError → List String
  | pipeline e => e.message :: e.cause?.toList
  | notAccepted step place expected outcome =>
    [step ++ ": call " ++ toString place ++ " of " ++ toString expected ++ ": " ++ outcome.text]
  | aborted step done expected =>
    [step ++ ": aborted after " ++ toString done ++ " of " ++ toString expected ++ " calls"]
  | chainState e => e.parts
  | noCollection => ["Origin of Shell collection id is not configured"]

/-- The error in words. -/
def message (e : PhaseError) : String :=
  ": ".intercalate e.parts

end PhaseError

/-- How a phase or a step ends before its end: with an error, or by an overflow. -/
inductive Halt where
  | error (e : PhaseError)
  | overflow (o : Overflow)
deriving DecidableEq

/-- What the phases work with, besides the plan. -/
structure Sale (σ : Type) where
  client : Client σ Call
  storage : Storage σ
  keyring : Keyring
  options : Options

namespace Sale

variable {σ : Type}

/-- Why the outcomes of an administrative step are not enough, if they are not: the first call that
was not accepted, or calls that were not made. -/
def shortfall? (step : String) (expected : Nat) (outcomes : List Outcome) : Option PhaseError :=
  match outcomes.zipIdx.find? fun o => !o.1.isAccepted with
  | some (outcome, index) => some (.notAccepted step (index + 1) expected outcome)
  | none =>
    if outcomes.length < expected then some (.aborted step outcomes.length expected) else none

/-- Adds a line to the log. -/
def say (w : World σ Call) (severity : Severity) (text : String) : World σ Call :=
  w.record (.line ⟨severity, text⟩)

/-- What administrative steps do with the options: they stop at the first call that is not
accepted. -/
def strict (o : Options) : Options :=
  { o with policy := .abortOnFirstFailure }

/-- Takes an administrative step. -/
def admin (sale : Sale σ) (w : World σ Call) (step : String) (signer : AccountId) (mode : Mode)
    (calls : List Call) : Except Halt Unit × World σ Call :=
  let w := say w .info ("🔧 " ++ step ++ "...")
  match Tracker.open_ sale.client w signer with
  | (.error e, w) => (.error (.error (.pipeline e)), w)
  | (.ok tracker, w) =>
    let (w, r) := runBatch sale.client w tracker mode (strict sale.options) calls
    if r.stage = .overflowed then (.error (.overflow .addition), r.tracker.release w)
    else
      let w := r.tracker.close w
      match shortfall? step calls.length r.outcomes with
      | some e => (.error (.error e), w)
      | none => (.ok (), say w .info ("✅ " ++ step ++ "...Done"))

/-- The outcomes of a step of the users, one line each, in the order of the accounts. -/
def remarks (step : String) (outcomes : AccountMap (List Outcome)) : List LogLine :=
  outcomes.flatMap fun (account, outcomes) => outcomes.map fun outcome =>
    let text := step ++ " by " ++ account.address ++ ": " ++ outcome.text
    if outcome.isAccepted then ⟨.info, "🟢 " ++ text⟩ else ⟨.error, "🔴 " ++ text⟩

/-- How many calls were not accepted. -/
def rejected (outcomes : AccountMap (List Outcome)) : Nat :=
  (outcomes.flatMap (·.2)).countP fun o => !o.isAccepted

/-- The line at the end of a step of the users. -/
def verdict (step : String) (rejected : Nat) : LogLine :=
  if rejected = 0 then ⟨.info, "✅ " ++ step ++ "...Done"⟩
  else ⟨.warn, "⚠️ " ++ step ++ "...Done, " ++ toString rejected ++ " calls not accepted"⟩

/-- One batch per account, each account's calls in their order. -/
def batches (k : Keyring) (calls : List (AccountName × Call)) : List (Batch Call) :=
  (groupByAccount calls).map fun (name, calls) => ⟨k.account name, calls⟩

/-- Takes a step of the users. -/
def users (sale : Sale σ) (w : World σ Call) (step : String) (mode : Mode)
    (calls : List (AccountName × Call)) :
    Except Halt (AccountMap (List Outcome)) × World σ Call :=
  let batches := batches sale.keyring calls
  let w := say w .info ("👥 " ++ step ++ " for " ++ toString batches.length ++ " accounts...")
  match runAcross sale.client w batches mode sale.options with
  | (.error e, w) => (.error (.error (.pipeline e)), w)
  | (.ok outcomes, w) =>
    let lines := remarks step outcomes ++ [verdict step (rejected outcomes)]
    (.ok outcomes, lines.foldl (fun w l => w.record (.line l)) w)

end Sale

end ShellSale
