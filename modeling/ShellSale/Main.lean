import ShellSale.Program.Exit

/-!
# The program

Rehearses a phase of the sale against a node in memory, as the command line and the environment say.
-/

namespace ShellSale

/-- The settings that the environment holds. -/
def environmentOfProcess : IO (List (String × String)) :=
  Setting.all.filterMapM fun s => do
    return (← IO.getEnv s.variableName).map fun value => (s.variableName, value)

/-- The file that the command line names, if it can be read. -/
def planOfProcess (arguments : List String) (environment : List (String × String)) :
    IO PlanFile := do
  let .ok c := CommandLine.read arguments environment | return .absent
  let some path := c.settings.plan | return .absent
  try
    return .bytes (← IO.FS.readBinFile path).toList
  catch _ => return .absent

end ShellSale

/-- Runs the program and gives its exit code. -/
def main (arguments : List String) : IO UInt32 := do
  let environment ← ShellSale.environmentOfProcess
  let file ← ShellSale.planOfProcess arguments environment
  let exit := ShellSale.Exit.ofProgram arguments environment none ⟨.development, fun _ => file⟩
    { keyring := .development }
  for line in exit.log do
    IO.eprintln line.written
  return exit.code.toUInt32
