import ShellSale.CommandLine.Basic
import ShellSale.Plan.Reader

/-!
# Runs of the program

The program loads the plan, then the keys, connects to the node and runs the phase. What goes wrong
before it has connected leaves no line in the log.
-/

namespace ShellSale

/-- Why a run of the program fails. -/
inductive RunError where
  | plan (e : PlanError)
  | keys (e : KeyError)
  | phase (e : PhaseError)

namespace RunError

/-- What went wrong, and what caused it. -/
def parts : RunError → List String
  | plan e => e.parts
  | keys e => e.parts
  | phase e => e.parts

/-- The error in words. -/
def message (e : RunError) : String :=
  ": ".intercalate e.parts

end RunError

/-- How a run fails: with an error, or by an overflow. -/
inductive RunFailure where
  | error (e : RunError)
  | overflow (o : Overflow)

/-- A phase that stops stops the run. -/
def RunFailure.ofHalt : Halt → RunFailure
  | .error e => .error (.phase e)
  | .overflow o => .overflow o

/-- The directory in which the program is started, and which holds nothing but files. -/
structure WorkingDirectory where
  /-- The files by their names. -/
  files : List (String × List UInt8) := []

/-- What is found at a path that starts in the directory. -/
def WorkingDirectory.file (d : WorkingDirectory) (path : String) : PlanFile :=
  let steps := (path.splitOn "/").filter fun step => step != "" && step != "."
  if steps.all (· == "..") then .directory
  else if path.startsWith "/" || path.endsWith "/" then .absent
  else
    match steps with
    | [name] => ((d.files.lookup name).map .bytes).getD .absent
    | _ => .absent

/-- What the program finds around it: keys for secret URIs, and files at paths. -/
structure Surroundings where
  keys : Derivation := .development
  file : String → PlanFile

/-- A connection to a node. -/
structure Connection (σ : Type) where
  client : Client σ Call
  storage : Storage σ
  /-- The version of the runtime. -/
  version : Nat
  /-- The handle that interrupts of the program fire. -/
  interruptHandle : String

namespace CommandLine

variable {σ : Type}

/-- The plan of a run: the one in the file, or else the defaults. -/
def plan (c : CommandLine) (s : Surroundings) : Except PlanError SalePlan :=
  match c.settings.plan with
  | none => .ok {}
  | some path => SalePlan.load path (s.file path)

/-- What a run needs before it connects. The plan comes first, so its error wins. -/
def prepare (c : CommandLine) (s : Surroundings) : Except RunError (SalePlan × Keyring) := do
  let plan ← (c.plan s).mapError .plan
  let keyring ← (c.settings.keys.load s.keys).mapError .keys
  return (plan, keyring)

/-- How calls are made: the wait for each is as long as the command line says, and an interrupt
stops what was not yet submitted. -/
def options (c : CommandLine) (handle : String) : Options :=
  { timeout := c.settings.confirmationTimeout * 1000, abort := some handle }

/-- Connects, runs the phase, and tells the log. -/
def perform (c : CommandLine) (connection : Connection σ) (plan : SalePlan) (keyring : Keyring)
    (w : World σ Call) : Except RunFailure Unit × World σ Call :=
  let sale : Sale σ :=
    { client := connection.client, storage := connection.storage, keyring
      options := c.options connection.interruptHandle }
  let title := c.phase.title
  let w := Sale.say w .info ("🔵 Connecting to Substrate node at " ++ c.settings.endpoint.written)
  let w := Sale.say w .info ("🟢 Connected, runtime spec version " ++ toString connection.version)
  let w := { w with aborts := w.aborts.create connection.interruptHandle }
  match (c.phase.phase keyring plan).run sale (Sale.say w .info ("🚀 Running " ++ title)) with
  | (.ok (), w) => (.ok (), Sale.say w .info ("🏁 " ++ title ++ " complete"))
  | (.error halt, w) => (.error (.ofHalt halt), w)

/-- Runs the program. -/
def run (c : CommandLine) (s : Surroundings) (connection : Connection σ) (w : World σ Call) :
    Except RunFailure Unit × World σ Call :=
  match c.prepare s with
  | .error e => (.error (.error e), w)
  | .ok (plan, keyring) => c.perform connection plan keyring w

end CommandLine

end ShellSale
